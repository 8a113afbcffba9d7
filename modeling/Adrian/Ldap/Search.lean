import Adrian.Lib.Utf8Split
import Adrian.Ldap.Handler

/-!
# Searches

What a filter says of an object, and that the evaluator decides it: the greedy search for the
parts of a pattern finds them whenever they are there.

The objects listed below a base include the base itself, and the base is added once more when the
store has an object of exactly that name.  So a search of the subtree returns one entry for each
object below the base that the filter holds of, except that it returns the base twice.
-/

namespace Ldap

open Storage Utf8

/-! ### The meaning of filters -/

namespace Substring

def initial? : Substring → Option Bytes
  | initial v => some v
  | _ => none

def any? : Substring → Option Bytes
  | any v => some v
  | _ => none

def final? : Substring → Option Bytes
  | final v => some v
  | _ => none

end Substring

/-- The value has the parts of the pattern, up to ASCII case: the start at its start, the end
at its end, and the others between them, in their order and apart from each other. -/
def HasSubstrings (substrings : List Substring) (value : Bytes) : Prop :=
  ∃ middle,
    lossyLowercase value
      = ((substrings.filterMap Substring.initial?).getLast?.elim [] lossyLowercase) ++ middle
        ++ ((substrings.filterMap Substring.final?).getLast?.elim [] lossyLowercase)
    ∧ Occurrence.Contains ((substrings.filterMap Substring.any?).map lossyLowercase) middle

def HasValue (obj : Object) (attr : String) (P : Bytes → Prop) : Prop :=
  ∃ a ∈ obj.attributes, toAsciiLowercase a.name = toAsciiLowercase attr ∧ P a.value

def Filter.Holds (obj : Object) : Filter → Prop
  | and filters => ∀ filter ∈ filters, filter.Holds obj
  | or filters => ∃ (filter : Filter) (_ : filter ∈ filters), filter.Holds obj
  | not filter => ¬ filter.Holds obj
  | present attr => HasValue obj attr fun _ => True
  | equality attr value => HasValue obj attr fun v => v = value
  | approx attr value => HasValue obj attr fun v => lossyLowercase v = lossyLowercase value
  | greaterOrEqual attr value =>
    HasValue obj attr fun v => fromUtf8Lossy value ≤ fromUtf8Lossy v
  | lessOrEqual attr value => HasValue obj attr fun v => fromUtf8Lossy v ≤ fromUtf8Lossy value
  | substrings attr subs => HasValue obj attr (HasSubstrings subs)

variable {obj : Object}

theorem anyValue_iff {attr : String} {test : Bytes → Bool} {P : Bytes → Prop}
    (h : ∀ v, test v = true ↔ P v) :
  anyValue obj attr test = true ↔ HasValue obj attr P
  := by
  simp [anyValue, HasValue, eqIgnoreAsciiCase, h]

theorem sortSubstrings_eq (substrings : List Substring) :
  sortSubstrings substrings
    = ((substrings.filterMap Substring.initial?).getLast?, substrings.filterMap Substring.any?,
      (substrings.filterMap Substring.final?).getLast?)
  := by
  induction substrings using List.reverseRecOn with
  | nil => rfl
  | append_singleton substrings sub ih =>
    rw [sortSubstrings] at ih ⊢
    rw [List.foldl_append, ih]
    cases sub <;> simp [sortSubstring, Substring.initial?, Substring.any?, Substring.final?]

theorem initialEnd_eq_some {v : Bytes} {initial : Option Bytes} {pos : ℕ} :
  initialEnd v initial = some pos
    ↔ initial.elim [] lossyLowercase <+: v ∧ (initial.elim [] lossyLowercase).length = pos
  := by
  cases initial with
  | none => simp [initialEnd]
  | some init => simp [initialEnd]

theorem finalFits_iff {v : Bytes} {pos : ℕ} (hpos : pos ≤ v.length)
    {final : Option Bytes} :
  finalFits v pos final = true
    ↔ final.elim [] lossyLowercase <:+ v
      ∧ pos ≤ v.length - (final.elim [] lossyLowercase).length
  := by
  cases final with
  | none => simpa [finalFits] using hpos
  | some fin => simp [finalFits]

theorem substringsMatch_iff (value : Bytes) (initial : Option Bytes)
    (anys : List Bytes) (final : Option Bytes) :
  substringsMatch value initial anys final = true
    ↔ ∃ middle, lossyLowercase value
        = initial.elim [] lossyLowercase ++ middle ++ final.elim [] lossyLowercase
      ∧ Occurrence.Contains (anys.map lossyLowercase) middle
  := by
  rw [← Occurrence.scan_between_iff, substringsMatch]
  cases hinitial : initialEnd (lossyLowercase value) initial with
  | none =>
    have hno : ¬ initial.elim [] lossyLowercase <+: lossyLowercase value := by
      intro h
      have := initialEnd_eq_some.mpr ⟨h, rfl⟩
      simp [hinitial] at this
    simp [hno]
  | some pos =>
    obtain ⟨hfirst, rfl⟩ := initialEnd_eq_some.mp hinitial
    cases hscan : Occurrence.scan (lossyLowercase value) _ (anys.map lossyLowercase) with
    | none => simp [hscan]
    | some n =>
      have hle := Occurrence.scan_le_length hfirst.length_le hscan
      simp [hscan, hfirst, finalFits_iff hle]

def lowercaseText (value : Bytes) : List Char :=
  (fromUtf8Lossy value).toList.map Char.toLower

theorem lossyLowercase_eq_encode (value : Bytes) :
  lossyLowercase value = encode (lowercaseText value)
  := toAsciiLowercase_eq_encode _

theorem elim_lossyLowercase_eq_encode (part : Option Bytes) :
  part.elim [] lossyLowercase = encode (part.elim [] lowercaseText)
  := by
  cases part with
  | none => rfl
  | some value => apply lossyLowercase_eq_encode

/-- The parts of a pattern match exactly when the text of the value is the first part, then the
parts between with gaps of any length before and after each, then the last part. -/
theorem substrings_complete (value : Bytes) (initial : Option Bytes)
    (anys : List Bytes) (final : Option Bytes) :
  substringsMatch value initial anys final = true
    ↔ ∃ gaps last, gaps.length = anys.length
      ∧ lowercaseText value = initial.elim [] lowercaseText
        ++ ((List.zipWith (· ++ ·) gaps (anys.map lowercaseText)).flatten ++ last)
        ++ final.elim [] lowercaseText
  := by
  have hanys : anys.map lossyLowercase = (anys.map lowercaseText).map encode := by
    rw [List.map_map]
    apply List.map_congr_left
    intro any _
    apply lossyLowercase_eq_encode
  rw [substringsMatch_iff, elim_lossyLowercase_eq_encode, elim_lossyLowercase_eq_encode,
    lossyLowercase_eq_encode, hanys, encode_between_iff]
  simp only [Occurrence.contains_iff_gaps, List.length_map]
  constructor
  · rintro ⟨middle, htext, gaps, last, hlength, rfl⟩
    exact ⟨gaps, last, hlength, htext⟩
  · rintro ⟨gaps, last, hlength, htext⟩
    exact ⟨_, htext, gaps, last, hlength, rfl⟩

theorem allMatch_iff {filters : List Filter} :
  allMatch obj filters = true ↔ ∀ filter ∈ filters, filterMatches obj filter = true
  := by
  induction filters with
  | nil => simp [allMatch]
  | cons filter filters ih => simp [allMatch, ih]

theorem anyMatches_iff {filters : List Filter} :
  anyMatches obj filters = true ↔ ∃ filter ∈ filters, filterMatches obj filter = true
  := by
  induction filters with
  | nil => simp [anyMatches]
  | cons filter filters ih => simp [anyMatches, ih]

theorem filterMatches_iff (obj : Object) (filter : Filter) :
  filterMatches obj filter = true ↔ filter.Holds obj
  := by
  induction filter with
  | and filters ih =>
    rw [filterMatches, allMatch_iff, Filter.Holds]
    apply forall₂_congr ih
  | or filters ih =>
    simp only [filterMatches, anyMatches_iff, Filter.Holds, exists_prop]
    apply exists_congr
    intro filter
    apply and_congr_right (ih filter)
  | not filter ih => simp [filterMatches, Filter.Holds, ← ih]
  | present attr =>
    rw [filterMatches, Filter.Holds]
    apply anyValue_iff (by simp)
  | equality attr value =>
    rw [filterMatches, Filter.Holds]
    apply anyValue_iff (by simp)
  | approx attr value =>
    rw [filterMatches, Filter.Holds]
    apply anyValue_iff (by simp)
  | greaterOrEqual attr value =>
    rw [filterMatches, Filter.Holds]
    apply anyValue_iff (by simp)
  | lessOrEqual attr value =>
    rw [filterMatches, Filter.Holds]
    apply anyValue_iff (by simp)
  | substrings attr subs =>
    rw [filterMatches, sortSubstrings_eq, Filter.Holds]
    apply anyValue_iff
    intro v
    apply substringsMatch_iff

/-! ### Searching a subtree -/

/-- The name is the base or below it, up to ASCII case: the base follows a comma, with or
without a space. -/
def IsBelow (dn base : String) : Prop :=
  toAsciiLowercase dn = toAsciiLowercase base
    ∨ ∃ front, toAsciiLowercase dn = front ++ 0x2C :: 0x20 :: toAsciiLowercase base
      ∨ toAsciiLowercase dn = front ++ 0x2C :: toAsciiLowercase base

theorem dnIsDescendantOf_iff {dn base : String} (hbase : base ≠ "") :
  dnIsDescendantOf dn base = true ↔ IsBelow dn base
  := by
  have hne := toAsciiLowercase_ne_nil hbase
  simp only [dnIsDescendantOf, IsBelow, List.isEmpty_iff, hne, if_false]
  split_ifs with heq
  · simp [heq]
  · rw [Bool.or_eq_true, decide_eq_true_eq, decide_eq_true_eq]
    simp only [heq, false_or, exists_or, List.IsSuffix, eq_comm (a := toAsciiLowercase dn)]

/-- The objects of a directory service, with different names: the store finds them by name,
and the callback enumerates them. -/
structure Contents {σ : Type} [DirectoryStore σ] (dsa : Dsa σ) (objects : List Object) : Prop where
  nodup : (objects.map (·.dn)).Nodup
  getByDn : ∀ dn, DirectoryStore.getByDn dsa.store dn = .ok (objects.find? (·.dn = dn))
  list : (dsa.listObjects dsa.store).Perm objects

theorem find_eq_some_iff {objects : List Object} (h : (objects.map (·.dn)).Nodup)
    {dn : DistinguishedName} :
  objects.find? (·.dn = dn) = some obj ↔ obj ∈ objects ∧ obj.dn = dn
  := by
  constructor
  · intro hfind
    exact ⟨List.mem_of_find?_eq_some hfind, by simpa using List.find?_some hfind⟩
  · rintro ⟨hmem, rfl⟩
    have hsome : (objects.find? (·.dn = obj.dn)).isSome := by
      rw [List.find?_isSome]
      exact ⟨obj, hmem, by simp⟩
    obtain ⟨obj', hfind⟩ := Option.isSome_iff_exists.mp hsome
    have hdn : obj'.dn = obj.dn := by simpa using List.find?_some hfind
    rw [hfind, List.inj_on_of_nodup_map h (List.mem_of_find?_eq_some hfind) hmem hdn]

theorem contents_inMemory {store : InMemoryDirectoryStore} (h : store.Consistent) :
  Contents ⟨store, InMemoryDirectoryStore.listObjects⟩ store.listObjects
  := by
  refine ⟨h.nodup_listObjects, ?_, List.Perm.refl _⟩
  intro dn
  change store.getByDn dn = _
  rw [InMemoryDirectoryStore.getByDn_eq]
  congr 1
  ext obj
  rw [find_eq_some_iff h.nodup_listObjects, h.mem_listObjects]
  constructor
  · intro hentry
    obtain ⟨-, hdn⟩ := h.entry_eq_some.mp hentry
    obtain rfl : obj.dn = dn := congrArg DistinguishedName.mk hdn
    exact ⟨hentry, rfl⟩
  · rintro ⟨hentry, rfl⟩
    apply hentry

def IsExact {σ : Type} [DirectoryStore σ] (dsa : Dsa σ) (objects : List Object)
    (req : SearchRequest) : Prop :=
  ∃ found : List Object, found.Nodup
    ∧ (∀ obj, obj ∈ found ↔ obj ∈ objects ∧ IsBelow obj.dn.dn req.baseDn ∧ req.filter.Holds obj)
    ∧ handleSearch dsa req = .ok (found.map fun obj => objectToSearchEntry obj req.attributes)

section

variable {σ : Type} [DirectoryStore σ] {dsa : Dsa σ} {objects : List Object} {req : SearchRequest}

def subtree (dsa : Dsa σ) (req : SearchRequest) : List Object :=
  (dsa.listObjects dsa.store).filter fun obj =>
    dnIsDescendantOf obj.dn.dn req.baseDn && filterMatches obj req.filter

theorem mem_subtree (h : Contents dsa objects) (hbase : req.baseDn ≠ "") :
  obj ∈ subtree dsa req
    ↔ obj ∈ objects ∧ IsBelow obj.dn.dn req.baseDn ∧ req.filter.Holds obj
  := by
  simp [subtree, h.list.mem_iff, dnIsDescendantOf_iff hbase, filterMatches_iff]

theorem nodup_subtree (h : Contents dsa objects) :
  (subtree dsa req).Nodup
  := by
  apply List.Nodup.filter
  rw [h.list.nodup_iff]
  apply List.Nodup.of_map _ h.nodup

theorem handleSearch_subtree (h : Contents dsa objects) (hscope : req.scope = 2) :
  handleSearch dsa req
    = .ok ((subtree dsa req ++ (objects.find? (·.dn = ⟨req.baseDn⟩)).toList.filter
        fun obj => filterMatches obj req.filter).map fun obj =>
          objectToSearchEntry obj req.attributes)
  := by
  simp +decide only [handleSearch, gatherCandidates, hscope, h.getByDn, subtree]
  cases objects.find? (·.dn = ⟨req.baseDn⟩) with
  | none => simp [Except.map, List.filter_filter, Bool.and_comm]
  | some obj => simp [Except.map, List.filter_filter, Bool.and_comm]

theorem not_isExact_of_holds (h : Contents dsa objects) (hbase : req.baseDn ≠ "")
    (hscope : req.scope = 2) (hmem : obj ∈ objects) (hdn : obj.dn.dn = req.baseDn)
    (hholds : req.filter.Holds obj) :
  ¬ IsExact dsa objects req
  := by
  rintro ⟨found, hnodup, hfound, hresult⟩
  have hperm : found.Perm (subtree dsa req) := by
    rw [List.perm_ext_iff_of_nodup hnodup (nodup_subtree h)]
    intro obj'
    rw [hfound, mem_subtree h hbase]
  have hfind := (find_eq_some_iff h.nodup).mpr ⟨hmem, congrArg DistinguishedName.mk hdn⟩
  rw [handleSearch_subtree h hscope, hfind, Except.ok.injEq] at hresult
  have hlength := congrArg List.length hresult
  simp [filterMatches_iff, hholds, hperm.length_eq] at hlength

/-- The search of a subtree is exact unless its filter holds of an object whose name is the
base, which it returns twice. -/
theorem handleSearch_subtree_isExact_iff (h : Contents dsa objects) (hbase : req.baseDn ≠ "")
    (hscope : req.scope = 2) :
  IsExact dsa objects req ↔ ∀ obj ∈ objects, obj.dn.dn = req.baseDn → ¬ req.filter.Holds obj
  := by
  constructor
  · intro hexact obj hmem hdn hholds
    apply not_isExact_of_holds h hbase hscope hmem hdn hholds hexact
  · intro hno
    refine ⟨subtree dsa req, nodup_subtree h, fun obj => mem_subtree h hbase, ?_⟩
    have hnil : (objects.find? (·.dn = ⟨req.baseDn⟩)).toList.filter
        (fun obj => filterMatches obj req.filter) = [] := by
      rw [List.filter_eq_nil_iff]
      intro obj hobj
      obtain ⟨hmem, hdn⟩ := (find_eq_some_iff h.nodup).mp (Option.mem_toList.mp hobj)
      rw [filterMatches_iff]
      apply hno obj hmem
      rw [hdn]
    rw [handleSearch_subtree h hscope, hnil, List.append_nil]

end

def domain : Object :=
  ⟨1, ⟨"dc=x"⟩, [⟨0, "objectClass", [100]⟩], 0⟩

def domainUser : Object :=
  ⟨2, ⟨"cn=a,dc=x"⟩, [⟨0, "objectClass", [117]⟩, ⟨0, "cn", [97]⟩], 0⟩

def domainDsa : Dsa InMemoryDirectoryStore where
  store := ((InMemoryDirectoryStore.new.put domain).1.put domainUser).1
  listObjects := InMemoryDirectoryStore.listObjects

def searchDomain (filter : Filter) : SearchRequest :=
  ⟨"dc=x", 2, 0, 0, 0, filter, ["1.1"], false⟩

theorem contents_domainDsa :
  Contents domainDsa domainDsa.store.listObjects
  := by
  have hdomain : (InMemoryDirectoryStore.new.put domain).1.Consistent := by
    obtain ⟨store, hput, h, -⟩ := InMemoryDirectoryStore.consistent_new.put_new domain rfl
      (by decide +kernel) (by decide)
    rwa [hput]
  obtain ⟨store, hput, h, -⟩ := hdomain.put_new domainUser rfl (by decide +kernel)
    (by decide +kernel)
  apply contents_inMemory
  rwa [hput]

/-- A search for everything in the domain returns the domain twice. -/
theorem not_isExact_searchDomain :
  Contents domainDsa domainDsa.store.listObjects
    ∧ handleSearch domainDsa (searchDomain (.present "objectClass"))
      = .ok [⟨"dc=x", []⟩, ⟨"cn=a,dc=x", []⟩, ⟨"dc=x", []⟩]
    ∧ ¬ IsExact domainDsa domainDsa.store.listObjects (searchDomain (.present "objectClass"))
  := by
  have hmem : { domain with dnt := 1 } ∈ domainDsa.store.listObjects := by decide +kernel
  refine ⟨contents_domainDsa, by decide +kernel, ?_⟩
  apply not_isExact_of_holds contents_domainDsa (by decide) rfl hmem rfl
  rw [← filterMatches_iff]
  decide +kernel

/-- A search for what has a common name in the domain returns the user once. -/
theorem isExact_searchDomain :
  Contents domainDsa domainDsa.store.listObjects
    ∧ (searchDomain (.present "cn")).baseDn ≠ "" ∧ (searchDomain (.present "cn")).scope = 2
    ∧ IsExact domainDsa domainDsa.store.listObjects (searchDomain (.present "cn"))
  := by
  refine ⟨contents_domainDsa, by decide, rfl, ?_⟩
  apply (handleSearch_subtree_isExact_iff contents_domainDsa (by decide) rfl).mpr
  simp only [← filterMatches_iff]
  decide +kernel

end Ldap
