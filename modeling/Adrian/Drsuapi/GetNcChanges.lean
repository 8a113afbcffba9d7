import Adrian.Storage.Directory
import Adrian.Drsuapi.Types

/-!
# Changes of a naming context

A reply holds the objects whose DN ends with that of the naming context, in the order of their
DNs and up to the number that was asked for, and tells whether there are more.  Where the objects
begin does not depend on the USNs with which the client asks again.  So whoever is told once that
there is more is sent the same objects in every round.
-/

namespace Drsuapi

open Storage

def ReplObj.ofObject (o : Object) : ReplObj where
  dn := o.dn.dn
  uuid := o.uuid
  usnChanged := 0
  attributes := o.attributes.map fun a => (a.name, a.value)

def EndsWith (text ending : String) : Prop :=
  ending.toList <:+ text.toList

instance (text ending : String) : Decidable (EndsWith text ending) :=
  inferInstanceAs (Decidable (_ <:+ _))

structure DirectorySource where
  objects : List Object

namespace DirectorySource

def listUnderNc (self : DirectorySource) (ncDn : String) : List ReplObj :=
  let out := (self.objects.filter fun o => ncDn = "" ∨ EndsWith o.dn.dn ncDn).map ReplObj.ofObject
  out.mergeSort fun a b => a.dn ≤ b.dn

end DirectorySource

def drsGetNcChanges (invocationId : Uuid) (source : DirectorySource) (request : ReplEntInfV3) :
    ReplEntInfV3Reply :=
  let all := source.listUnderNc request.nc.name
  let max := if request.cMaxObjects = 0 then all.length else request.cMaxObjects.toNat
  let fMoreData := max < all.length
  let sent := if fMoreData then all.take max else all
  let utdVector := UtdVectorExt.default.merge
    { usnHigh := request.usnVector.usnHighPropUpdate, usnLow := 0, dsaGuid := invocationId }
  { cNumObjects := UInt32.ofNat sent.length
    cNumNcs := 0
    pObjects := sent
    fMoreData
    utdVector }

/-- The objects a client receives that asks again while there is more, if it is done after as many
rounds.  `cursor` is how it takes the USNs of its next request from a reply. -/
def fetch (invocationId : Uuid) (source : DirectorySource) (cursor : UtdVectorExt → UsnVector) :
    ℕ → ReplEntInfV3 → Option (List ReplObj)
  | 0, _ => none
  | n + 1, request =>
    let reply := drsGetNcChanges invocationId source request
    if reply.fMoreData then
      let next := { request with usnVector := cursor reply.utdVector }
      (fetch invocationId source cursor n next).map (reply.pObjects ++ ·)
    else
      some reply.pObjects

/-! ### What a naming context contains -/

def UnderNc (ncDn dn : String) : Prop :=
  dn = ncDn ∨ EndsWith dn ("," ++ ncDn)

instance (ncDn dn : String) : Decidable (UnderNc ncDn dn) :=
  inferInstanceAs (Decidable (_ ∨ _))

theorem UnderNc.endsWith {ncDn dn : String} (h : UnderNc ncDn dn) :
  EndsWith dn ncDn
  := by
  obtain rfl | h := h
  · apply List.suffix_rfl
  · rw [EndsWith, String.toList_append] at h
    apply (List.suffix_append _ _).trans h

namespace DirectorySource

variable (source : DirectorySource) {ncDn : String}

def objectsUnder (ncDn : String) : List Object :=
  source.objects.filter fun o => UnderNc ncDn o.dn.dn

def objectsEnding (ncDn : String) : List Object :=
  source.objects.filter fun o => EndsWith o.dn.dn ncDn

theorem listUnderNc_perm (hnc : ncDn ≠ "") :
  (source.listUnderNc ncDn).Perm ((source.objectsEnding ncDn).map ReplObj.ofObject)
  := by
  simp only [listUnderNc, hnc, false_or]
  apply List.mergeSort_perm

theorem length_listUnderNc (hnc : ncDn ≠ "") :
  (source.listUnderNc ncDn).length = (source.objectsEnding ncDn).length
  := by
  rw [(source.listUnderNc_perm hnc).length_eq, List.length_map]

theorem objectsUnder_sublist (ncDn : String) :
  (source.objectsUnder ncDn).Sublist (source.objectsEnding ncDn)
  := by
  apply List.monotone_filter_right
  intro o h
  simp only [decide_eq_true_eq] at h ⊢
  apply h.endsWith

theorem length_objectsUnder_eq_iff :
  (source.objectsUnder ncDn).length = (source.objectsEnding ncDn).length
    ↔ ∀ o ∈ source.objects, EndsWith o.dn.dn ncDn → UnderNc ncDn o.dn.dn
  := by
  constructor
  · intro hlength o ho hends
    have heq := (source.objectsUnder_sublist ncDn).eq_of_length hlength
    have hmem : o ∈ source.objectsEnding ncDn := by
      rw [objectsEnding, List.mem_filter]
      exact ⟨ho, decide_eq_true hends⟩
    rw [← heq, objectsUnder, List.mem_filter] at hmem
    apply of_decide_eq_true hmem.2
  · intro h
    congr 1
    apply List.filter_congr
    intro o ho
    rw [decide_eq_decide]
    exact ⟨UnderNc.endsWith, h o ho⟩

end DirectorySource

/-! ### The rounds of a client -/

section

variable (invocationId : Uuid) (source : DirectorySource) (cursor : UtdVectorExt → UsnVector)
variable {request : ReplEntInfV3}

theorem fMoreData_iff (hnc : request.nc.name ≠ "") (hmax : request.cMaxObjects ≠ 0) :
  (drsGetNcChanges invocationId source request).fMoreData = true
    ↔ request.cMaxObjects.toNat < (source.objectsEnding request.nc.name).length
  := by
  simp only [drsGetNcChanges, hmax, if_false, decide_eq_true_eq, source.length_listUnderNc hnc]

theorem pObjects_of_done (h : (drsGetNcChanges invocationId source request).fMoreData = false) :
  (drsGetNcChanges invocationId source request).pObjects = source.listUnderNc request.nc.name
  := by
  simp only [drsGetNcChanges, decide_eq_false_iff_not] at h ⊢
  rw [if_neg h]

/-- Whoever is told that there is more is never done: the next request is for the same naming
context and the same number of objects. -/
theorem fetch_of_more (hnc : request.nc.name ≠ "") (hmax : request.cMaxObjects ≠ 0)
    (hmore : request.cMaxObjects.toNat < (source.objectsEnding request.nc.name).length) (n : ℕ) :
  fetch invocationId source cursor n request = none
  := by
  induction n generalizing request with
  | zero => rfl
  | succ n ih =>
    rw [fetch, if_pos ((fMoreData_iff invocationId source hnc hmax).mpr hmore)]
    rw [Option.map_eq_none_iff]
    apply ih
    · apply hnc
    · apply hmax
    · apply hmore

theorem fetch_of_done (hnc : request.nc.name ≠ "") (hmax : request.cMaxObjects ≠ 0)
    (hdone : (source.objectsEnding request.nc.name).length ≤ request.cMaxObjects.toNat) (n : ℕ) :
  fetch invocationId source cursor (n + 1) request = some (source.listUnderNc request.nc.name)
  := by
  have hmore : (drsGetNcChanges invocationId source request).fMoreData = false := by
    rw [← Bool.not_eq_true, fMoreData_iff invocationId source hnc hmax]
    apply Nat.not_lt.mpr hdone
  rw [fetch, hmore, pObjects_of_done invocationId source hmore]
  rfl

/-- A client finishes with the objects under the naming context when these are not more than it
asks for at once, and no other object has a DN that ends with that of the naming context. -/
theorem fetch_complete_iff (hnc : request.nc.name ≠ "") (hmax : 1 ≤ request.cMaxObjects) :
  (∃ n received, fetch invocationId source cursor n request = some received
      ∧ received.Perm ((source.objectsUnder request.nc.name).map ReplObj.ofObject))
    ↔ (source.objectsUnder request.nc.name).length ≤ request.cMaxObjects.toNat
      ∧ ∀ o ∈ source.objects, EndsWith o.dn.dn request.nc.name → UnderNc request.nc.name o.dn.dn
  := by
  have hmax : request.cMaxObjects ≠ 0 := by
    rintro h
    rw [h] at hmax
    exact absurd hmax (by decide)
  have hperm := source.listUnderNc_perm hnc
  constructor
  · rintro ⟨n, received, hfetch, hreceived⟩
    cases n with
    | zero => cases hfetch
    | succ n =>
      by_cases hdone :
        (source.objectsEnding request.nc.name).length ≤ request.cMaxObjects.toNat
      · rw [fetch_of_done invocationId source cursor hnc hmax hdone] at hfetch
        obtain rfl := Option.some.inj hfetch
        have hlength := (hreceived.symm.trans hperm).length_eq
        rw [List.length_map, List.length_map] at hlength
        exact ⟨hlength ▸ hdone, source.length_objectsUnder_eq_iff.mp hlength⟩
      · rw [fetch_of_more invocationId source cursor hnc hmax (Nat.not_le.mp hdone)] at hfetch
        cases hfetch
  · rintro ⟨hlength, hunder⟩
    have heq := source.length_objectsUnder_eq_iff.mpr hunder
    use 1, source.listUnderNc request.nc.name
    constructor
    · apply fetch_of_done invocationId source cursor hnc hmax (heq ▸ hlength)
    · rw [(source.objectsUnder_sublist _).eq_of_length heq]
      apply hperm

end

def twoObjects : DirectorySource where
  objects := [⟨1, ⟨"DC=x"⟩, [], 0⟩, ⟨2, ⟨"CN=a,DC=x"⟩, [], 0⟩]

def requestUpTo (cMaxObjects : UInt32) : ReplEntInfV3 :=
  ⟨1, 2, DsName.fromDn "DC=x", ⟨0, 0⟩, UtdVectorExt.default, 0, cMaxObjects, 0, 0, 0⟩

def firstEntry (utd : UtdVectorExt) : UsnVector :=
  match utd.entries with
  | [] => ⟨0, 0⟩
  | entry :: _ => ⟨entry.usnHigh, entry.usnHigh⟩

/-- A client that asks for two objects at once receives both. -/
theorem fetch_complete_two :
  ∃ n received, fetch 7 twoObjects firstEntry n (requestUpTo 2) = some received
    ∧ received.Perm ((twoObjects.objectsUnder "DC=x").map ReplObj.ofObject)
  := (fetch_complete_iff 7 twoObjects firstEntry (by decide) (by decide)).mpr
    ⟨by decide, by decide⟩

/-- A client that asks for one object at a time is never done. -/
theorem fetch_one_never :
  ¬ ∃ n received, fetch 7 twoObjects firstEntry n (requestUpTo 1) = some received
    ∧ received.Perm ((twoObjects.objectsUnder "DC=x").map ReplObj.ofObject)
  := by
  rintro ⟨n, received, hfetch, -⟩
  rw [fetch_of_more 7 twoObjects firstEntry (by decide) (by decide) (by decide) n] at hfetch
  cases hfetch

end Drsuapi
