import Adrian.Lib.Run
import Adrian.Ldap.Handler

/-!
# Updates

A directory, as its clients see it, gives the attributes and values of the entry of each name.
An update adds, changes or deletes an entry, and leaves all others as they are.

The service on the in-memory store refines this for additions and changes, in every state that
updates lead to.  It does not for deletions: every entry is added with the same UUID, and a
deletion goes by UUID, to the entry written last.
-/

namespace Ldap

open Storage Utf8

abbrev Attributes : Type := Multiset (String × Bytes)

abbrev Directory : Type := String → Option Attributes

inductive Update where
  | add (req : AddRequest)
  | modify (req : ModifyRequest)
  | delete (req : DelRequest)

namespace Attributes

def ofPartial (pa : PartialAttribute) : Attributes :=
  ↑(pa.2.map fun v => (pa.1, v))

def without (attrs : Attributes) (name : String) (P : Bytes → Bool) : Attributes :=
  attrs.filter fun a => !(eqIgnoreAsciiCase a.1 name && P a.2)

local instance lawfulBEq_value : LawfulBEq Bytes :=
  inferInstance

/-- The attributes after a change: the values are added; or taken away, all of them when none
are given; or put in the place of those there are. -/
def change (attrs : Attributes) (change : Change) : Attributes :=
  let (name, values) := change.modification
  match change.operation with
  | .add => attrs + ofPartial (name, values)
  | .delete => attrs.without name fun v => values.isEmpty || v ∈ values
  | .replace => (attrs.without name fun _ => true) + ofPartial (name, values)

end Attributes

namespace Directory

def update (directory : Directory) : Update → Directory × ResultCode
  | .add req =>
    if !req.attributes.any fun pa => eqIgnoreAsciiCase pa.1 "objectClass" then
      (directory, .objectClassViolation)
    else
      match directory req.entry with
      | some _ => (directory, .entryAlreadyExists)
      | none =>
        let attrs := (req.attributes.map Attributes.ofPartial).sum
        (Function.update directory req.entry (some attrs), .success)
  | .modify req =>
    match directory req.object with
    | none => (directory, .noSuchObject)
    | some attrs =>
      let attrs := req.changes.foldl Attributes.change attrs
      (Function.update directory req.object (some attrs), .success)
  | .delete req =>
    match directory req.entry with
    | none => (directory, .noSuchObject)
    | some _ => (Function.update directory req.entry none, .success)

end Directory

def handleUpdate (dsa : Dsa InMemoryDirectoryStore) :
    Update → Dsa InMemoryDirectoryStore × LdapResult
  | .add req => ((handleAdd dsa req).1, (handleAdd dsa req).2.result)
  | .modify req => ((handleModify dsa req).1, (handleModify dsa req).2.result)
  | .delete req => ((handleDelete dsa req).1, (handleDelete dsa req).2.result)

def updateStep (dsa : Dsa InMemoryDirectoryStore) (u : Update) :
    Option (Dsa InMemoryDirectoryStore) :=
  some (handleUpdate dsa u).1

def attributesOfObject (obj : Object) : Attributes :=
  ↑(obj.attributes.map fun a => (a.name, a.value))

def directoryOf (store : InMemoryDirectoryStore) : Directory :=
  fun dn => (store.entry dn).map attributesOfObject

/-- The update does to the store what it does to the directory that the store is, with the
same outcome; or it is an addition for which no DNT is left, and changes nothing. -/
def Refines (dsa : Dsa InMemoryDirectoryStore) (u : Update) : Prop :=
  (directoryOf (handleUpdate dsa u).1.store, (handleUpdate dsa u).2.resultCode)
      = (directoryOf dsa.store).update u
    ∨ (∃ req, u = .add req) ∧ 2 ^ 64 ≤ dsa.store.nextDnt.toNat + 1
      ∧ (handleUpdate dsa u).2.resultCode = .operationsError
      ∧ directoryOf (handleUpdate dsa u).1.store = directoryOf dsa.store

def DeletesNamed (dsa : Dsa InMemoryDirectoryStore) : Update → Prop
  | .delete req => ∀ obj, dsa.store.entry req.entry = some obj →
      dsa.store.uuidToDnt[obj.uuid]? = some obj.dnt
  | _ => True

theorem coe_attributesOf (pa : PartialAttribute) :
  ((attributesOf pa).map fun a => (a.name, a.value)) = pa.2.map fun v => (pa.1, v)
  := by
  simp [attributesOf]

theorem attributesOfObject_filter (obj : Object) (P : String → Bytes → Bool) :
  attributesOfObject { obj with attributes := obj.attributes.filter fun a => P a.name a.value }
    = (attributesOfObject obj).filter fun a => P a.1 a.2
  := by
  simp [attributesOfObject, List.filter_map, Function.comp_def]

theorem attributesOfObject_append (obj : Object) (pa : PartialAttribute) :
  attributesOfObject { obj with attributes := obj.attributes ++ attributesOf pa }
    = attributesOfObject obj + Attributes.ofPartial pa
  := by
  simp only [attributesOfObject, List.map_append, coe_attributesOf, Attributes.ofPartial]
  rfl

theorem applyChange_delete (obj : Object) (name : String) (values : List Bytes) :
  applyChange obj ⟨.delete, name, values⟩
    = { obj with attributes := obj.attributes.filter fun a =>
          !(eqIgnoreAsciiCase a.name name && (values.isEmpty || a.value ∈ values)) }
  := by
  cases values with
  | nil => simp [applyChange]
  | cons v values =>
    have hany : ∀ w, ((v :: values).any fun x => decide (x = w)) = decide (w ∈ v :: values) := by
      intro w
      rw [Bool.eq_iff_iff]
      simp only [List.any_eq_true, decide_eq_true_eq, exists_eq_right]
    simp only [applyChange, List.isEmpty_cons, hany, Bool.false_or, Bool.not_and,
      Bool.false_eq_true, if_false]

theorem attributesOfObject_applyChange (obj : Object) (change : Change) :
  attributesOfObject (applyChange obj change) = (attributesOfObject obj).change change
  := by
  obtain ⟨op, name, values⟩ := change
  cases op with
  | add => apply attributesOfObject_append
  | delete =>
    rw [applyChange_delete]
    apply attributesOfObject_filter obj fun n v =>
      !(eqIgnoreAsciiCase n name && (values.isEmpty || v ∈ values))
  | replace =>
    have hfilter := attributesOfObject_filter obj fun n _ => !eqIgnoreAsciiCase n name
    have happend := attributesOfObject_append
      { obj with attributes := obj.attributes.filter fun a => !eqIgnoreAsciiCase a.name name }
      (name, values)
    rw [hfilter] at happend
    simpa [applyChange, Attributes.change, Attributes.without] using happend

theorem attributesOfObject_foldl (obj : Object) (changes : List Change) :
  attributesOfObject (changes.foldl applyChange obj)
    = changes.foldl Attributes.change (attributesOfObject obj)
  := by
  induction changes generalizing obj with
  | nil => rfl
  | cons change changes ih =>
    rw [List.foldl_cons, List.foldl_cons, ih, attributesOfObject_applyChange]

theorem foldl_applyChange (obj : Object) (changes : List Change) :
  (changes.foldl applyChange obj).dn = obj.dn ∧ (changes.foldl applyChange obj).dnt = obj.dnt
  := by
  induction changes generalizing obj with
  | nil => exact ⟨rfl, rfl⟩
  | cons change changes ih =>
    obtain ⟨op, name, values⟩ := change
    rw [List.foldl_cons]
    cases op with
    | add => apply ih
    | delete =>
      rw [applyChange_delete]
      apply ih
    | replace => apply ih

theorem sum_ofPartial (attributes : List PartialAttribute) (uuid : Uuid) (dn : DistinguishedName)
    (dnt : Dnt) :
  attributesOfObject ⟨uuid, dn, attributes.flatMap attributesOf, dnt⟩
    = (attributes.map Attributes.ofPartial).sum
  := by
  rw [attributesOfObject, List.map_flatMap]
  induction attributes with
  | nil => rfl
  | cons pa attributes ih =>
    rw [List.flatMap_cons, ← Multiset.coe_add, ih, coe_attributesOf]
    rfl

/-! ### Updates of the store -/

theorem directoryOf_eq_update {store store' : InMemoryDirectoryStore} {name : String}
    {entry : Option Object}
    (h : ∀ dn, store'.entry dn = if dn = name then entry else store.entry dn) :
  directoryOf store'
    = Function.update (directoryOf store) name (entry.map attributesOfObject)
  := by
  funext dn
  rw [directoryOf, h, Function.update_apply]
  split_ifs <;> rfl

section

variable {dsa : Dsa InMemoryDirectoryStore} (h : dsa.store.Consistent)

include h

theorem handleAdd_refines (req : AddRequest) :
  (handleAdd dsa req).1.store.Consistent ∧ Refines dsa (.add req)
  := by
  have hget := dsa.store.getByDn_eq ⟨req.entry⟩
  by_cases hclass : req.attributes.any fun pa => eqIgnoreAsciiCase pa.1 "objectClass"
  · cases hentry : dsa.store.entry req.entry with
    | some obj =>
      have hadd : ∃ message, handleAdd dsa req = (dsa, ⟨.error .entryAlreadyExists message⟩) := by
        simp [handleAdd, hclass, hget, hentry]
      obtain ⟨message, hadd⟩ := hadd
      refine ⟨by rwa [hadd], .inl ?_⟩
      simp [handleUpdate, hadd, Directory.update, hclass, directoryOf, hentry, LdapResult.error]
    | none =>
      by_cases hnext : dsa.store.nextDnt.toNat + 1 < 2 ^ 64
      · obtain ⟨store', hput, hconsistent, hentry'⟩ := h.put_new
          (newObject req) rfl hentry hnext
        have hadd : handleAdd dsa req = ({ dsa with store := store' }, ⟨.success⟩) := by
          simp [handleAdd, hclass, hget, hentry, hput]
        refine ⟨by rwa [hadd], .inl ?_⟩
        simp [handleUpdate, hadd, Directory.update, hclass, directoryOf_eq_update hentry',
          newObject, sum_ofPartial, directoryOf, hentry, LdapResult.success]
      · have hput := InMemoryDirectoryStore.put_full (newObject req) rfl hnext
        have hadd : handleAdd dsa req
            = (dsa, ⟨.storageError "add" (.backend "DNT counter overflow")⟩) := by
          simp [handleAdd, hclass, hget, hentry, hput]
        refine ⟨by rwa [hadd], .inr ⟨⟨req, rfl⟩, by omega, ?_, ?_⟩⟩
        · simp [handleUpdate, hadd, LdapResult.storageError, LdapResult.error]
        · simp [handleUpdate, hadd]
  · have hadd : ∃ message, handleAdd dsa req
        = (dsa, ⟨.error .objectClassViolation message⟩) := by
      simp [handleAdd, hclass]
    obtain ⟨message, hadd⟩ := hadd
    refine ⟨by rwa [hadd], .inl ?_⟩
    simp [handleUpdate, hadd, Directory.update, hclass, LdapResult.error]

theorem handleModify_refines (req : ModifyRequest) :
  (handleModify dsa req).1.store.Consistent ∧ Refines dsa (.modify req)
  := by
  have hget := dsa.store.getByDn_eq ⟨req.object⟩
  cases hentry : dsa.store.entry req.object with
  | none =>
    have hmodify : handleModify dsa req = (dsa, ⟨.entryNotFound req.object⟩) := by
      simp [handleModify, hget, hentry]
    refine ⟨by rwa [hmodify], .inl ?_⟩
    simp [handleUpdate, hmodify, Directory.update, directoryOf, hentry, LdapResult.entryNotFound,
      LdapResult.error]
  | some obj =>
    obtain ⟨hdn, hdnt⟩ := foldl_applyChange obj req.changes
    have hname : (req.changes.foldl applyChange obj).dn.dn = req.object := by
      rw [hdn, (h.entry_eq_some.mp hentry).2]
    have hold := hentry
    rw [← hname] at hold
    obtain ⟨store', hput, hconsistent, hentry'⟩ := h.put_existing hold hdnt
    rw [hname] at hentry'
    have hmodify : handleModify dsa req = ({ dsa with store := store' }, ⟨.success⟩) := by
      simp [handleModify, hget, hentry, hput]
    refine ⟨by rwa [hmodify], .inl ?_⟩
    simp [handleUpdate, hmodify, Directory.update, directoryOf_eq_update hentry',
      attributesOfObject_foldl, directoryOf, hentry, LdapResult.success]

theorem handleDelete_refines_iff (req : DelRequest) :
  (handleDelete dsa req).1.store.Consistent
    ∧ (Refines dsa (.delete req) ↔ DeletesNamed dsa (.delete req))
  := by
  have hget := dsa.store.getByDn_eq ⟨req.entry⟩
  cases hentry : dsa.store.entry req.entry with
  | none =>
    have hdelete : handleDelete dsa req = (dsa, ⟨.entryNotFound req.entry⟩) := by
      simp [handleDelete, hget, hentry]
    refine ⟨by rwa [hdelete], iff_of_true (.inl ?_) ?_⟩
    · simp [handleUpdate, hdelete, Directory.update, directoryOf, hentry,
        LdapResult.entryNotFound, LdapResult.error]
    · simp [DeletesNamed, hentry]
  | some obj =>
    obtain ⟨hconsistent, hentry'⟩ := h.delete_entry obj.uuid
    have hdelete : handleDelete dsa req
        = ({ dsa with store := (dsa.store.delete obj.uuid).1 }, ⟨.success⟩) := by
      obtain ⟨store', hok⟩ : ∃ store', dsa.store.delete obj.uuid = (store', .ok ()) :=
        ⟨_, Prod.ext rfl (dsa.store.delete_ok obj.uuid)⟩
      simp [handleDelete, hget, hentry, hok]
    have hvictim := h.victim_name_iff hentry obj.uuid
    refine ⟨by rwa [hdelete], ?_⟩
    constructor
    · rintro (hrefines | ⟨⟨_, hadd⟩, -⟩)
      · intro obj' hobj'
        obtain rfl : obj = obj' := by simpa [hentry] using hobj'
        rw [← hvictim]
        by_contra hother
        have hnone := congrFun (congrArg Prod.fst hrefines) req.entry
        simp [handleUpdate, hdelete, Directory.update, directoryOf, hentry, hentry', hother]
          at hnone
      · cases hadd
    · intro hnamed
      left
      have hname := hvictim.mpr (hnamed obj hentry)
      have hupdate : ∀ dn, (dsa.store.delete obj.uuid).1.entry dn
          = if dn = req.entry then none else dsa.store.entry dn := by
        intro dn
        simp only [hentry', hname, Option.some_inj, eq_comm (a := dn)]
      simp [handleUpdate, hdelete, Directory.update, directoryOf_eq_update hupdate, directoryOf,
        hentry, LdapResult.success]

theorem handleUpdate_refines_iff (u : Update) :
  (handleUpdate dsa u).1.store.Consistent ∧ (Refines dsa u ↔ DeletesNamed dsa u)
  := by
  cases u with
  | add req =>
    obtain ⟨hconsistent, hrefines⟩ := handleAdd_refines h req
    exact ⟨hconsistent, iff_of_true hrefines trivial⟩
  | modify req =>
    obtain ⟨hconsistent, hrefines⟩ := handleModify_refines h req
    exact ⟨hconsistent, iff_of_true hrefines trivial⟩
  | delete req => apply handleDelete_refines_iff h req

end

def emptyDsa : Dsa InMemoryDirectoryStore :=
  ⟨.new, InMemoryDirectoryStore.listObjects⟩

/-- Along a run of updates of an empty store, the store is changed as a directory is, exactly
when each deletion finds the entry it names through the UUID of that entry. -/
theorem updates_refine_iff (us : List Update) :
  Run.Along updateStep Refines emptyDsa us ↔ Run.Along updateStep DeletesNamed emptyDsa us
  := by
  have hstep : ∀ dsa u dsa', dsa.store.Consistent → updateStep dsa u = some dsa' →
      dsa'.store.Consistent := by
    rintro dsa u _ h ⟨⟩
    apply (handleUpdate_refines_iff h u).1
  have hiff : ∀ dsa u, dsa.store.Consistent → (Refines dsa u ↔ DeletesNamed dsa u) := by
    intro dsa u h
    apply (handleUpdate_refines_iff h u).2
  apply Run.along_congr hstep hiff InMemoryDirectoryStore.consistent_new

def addEntry (name : String) : Update :=
  .add ⟨name, [("objectClass", [[117]])]⟩

/-- Two entries are added and the first is deleted: the second is gone, and the first is still
there. -/
theorem not_refines_delete_first :
  (Run.exec updateStep emptyDsa [addEntry "cn=a", addEntry "cn=b", .delete ⟨"cn=a"⟩]).map
      (fun dsa => ((dsa.store.entry "cn=a").isSome, (dsa.store.entry "cn=b").isSome))
    = some (true, false)
    ∧ ¬ Run.Along updateStep Refines emptyDsa
      [addEntry "cn=a", addEntry "cn=b", .delete ⟨"cn=a"⟩]
  := by
  refine ⟨by decide +kernel, ?_⟩
  rintro ⟨-, hall⟩
  obtain ⟨hrefines, -⟩ := (hall _ rfl).2 _ rfl
  obtain hrefines | ⟨⟨_, hadd⟩, -⟩ := hrefines
  · have hsome := congrArg (fun after => (after.1 "cn=a").isSome) hrefines
    revert hsome
    decide +kernel
  · cases hadd

end Ldap
