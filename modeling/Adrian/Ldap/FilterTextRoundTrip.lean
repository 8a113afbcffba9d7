import Adrian.Ldap.FilterText

/-!
# Reading back the text of filters

A pattern whose only parts are the start and the end is written without a star, and is read back as
a comparison with one value.  All other filters are read back as they were written.
-/

namespace Ldap

open Bytes Utf8

/-! ### Values that are read back -/

def hexByte (n : UInt8) : UInt8 :=
  UInt8.ofNat (hexChar n.toNat).toNat

theorem asBytes_escapeByte (b : UInt8) :
  (asBytes (escapeByte b) = [b] ∧ b ≠ 0x29 ∧ b ≠ 0x2A ∧ b ≠ 0x5C)
    ∨ asBytes (escapeByte b) = [0x5C, hexByte (b >>> 4), hexByte (b &&& 0x0F)]
  := by
  have h : ∀ n : Fin 256,
      (asBytes (escapeByte (UInt8.ofFin n)) = [UInt8.ofFin n] ∧ UInt8.ofFin n ≠ 0x29
          ∧ UInt8.ofFin n ≠ 0x2A ∧ UInt8.ofFin n ≠ 0x5C)
        ∨ asBytes (escapeByte (UInt8.ofFin n))
          = [0x5C, hexByte (UInt8.ofFin n >>> 4), hexByte (UInt8.ofFin n &&& 0x0F)] := by
    decide +kernel
  apply h b.toFin

theorem hexDigit_hexByte (b : UInt8) :
  hexDigit (hexByte (b >>> 4)) = .ok (b >>> 4)
    ∧ hexDigit (hexByte (b &&& 0x0F)) = .ok (b &&& 0x0F)
    ∧ (b >>> 4) <<< 4 ||| (b &&& 0x0F) = b
  := by
  have h : ∀ n : Fin 256,
      hexDigit (hexByte (UInt8.ofFin n >>> 4)) = .ok (UInt8.ofFin n >>> 4)
        ∧ hexDigit (hexByte (UInt8.ofFin n &&& 0x0F)) = .ok (UInt8.ofFin n &&& 0x0F)
        ∧ (UInt8.ofFin n >>> 4) <<< 4 ||| (UInt8.ofFin n &&& 0x0F) = UInt8.ofFin n := by
    decide +kernel
  apply h b.toFin

/-- The loop over a value goes from one state to another over the given bytes, whatever
follows them. -/
def LoopReads (acc : ValueParts) (bytes : Bytes) (acc' : ValueParts) : Prop :=
  ∀ pos rest, ∃ pos', parseValueLoop acc pos (bytes ++ rest) = parseValueLoop acc' pos' rest

namespace LoopReads

theorem nil (acc : ValueParts) :
  LoopReads acc [] acc
  := by
  intro pos rest
  use pos
  rfl

theorem append {acc acc' acc'' : ValueParts} {bytes bytes' : Bytes}
    (h : LoopReads acc bytes acc') (h' : LoopReads acc' bytes' acc'') :
  LoopReads acc (bytes ++ bytes') acc''
  := by
  intro pos rest
  obtain ⟨pos', hpos'⟩ := h pos (bytes' ++ rest)
  obtain ⟨pos'', hpos''⟩ := h' pos' rest
  use pos''
  rw [List.append_assoc, hpos', hpos'']

theorem star (acc : ValueParts) :
  LoopReads acc (asBytes "*") ⟨acc.parts ++ [acc.current], []⟩
  := by
  intro pos rest
  have hbytes : asBytes "*" = [0x2A] := by decide +kernel
  use pos + 1
  rw [hbytes, List.singleton_append, parseValueLoop.eq_def]
  simp

theorem escapeByte (acc : ValueParts) (b : UInt8) :
  LoopReads acc (asBytes (Ldap.escapeByte b)) { acc with current := acc.current ++ [b] }
  := by
  intro pos rest
  obtain ⟨hb, hclose, hstar, hescape⟩ | hb := asBytes_escapeByte b
  · use pos + 1
    rw [hb, List.singleton_append, parseValueLoop.eq_def]
    simp [hclose, hstar, hescape]
  · obtain ⟨hhigh, hlow, hor⟩ := hexDigit_hexByte b
    use pos + 3
    rw [hb]
    simp [parseValueLoop, hhigh, hlow, hor]

theorem escapeValue (acc : ValueParts) (value : Bytes) :
  LoopReads acc (asBytes (Ldap.escapeValue value)) { acc with current := acc.current ++ value }
  := by
  induction value generalizing acc with
  | nil =>
    have hbytes : asBytes "" = [] := rfl
    simpa [Ldap.escapeValue, hbytes] using nil acc
  | cons b value ih =>
    rw [Ldap.escapeValue, asBytes_append]
    have h := (escapeByte acc b).append (ih _)
    simpa using h

end LoopReads

def ValueParts.read (acc : ValueParts) : Substring → ValueParts
  | .initial v => { acc with current := acc.current ++ v }
  | .any v => ⟨acc.parts ++ [acc.current, v], []⟩
  | .final v => { acc with current := acc.current ++ v }

theorem LoopReads.substring (acc : ValueParts) (sub : Substring) :
  LoopReads acc (asBytes sub.text) (acc.read sub)
  := by
  cases sub with
  | initial v => apply escapeValue
  | any v =>
    rw [Substring.text, asBytes_append, asBytes_append]
    have h := ((star acc).append (escapeValue _ v)).append (star _)
    simpa [ValueParts.read] using h
  | final v => apply escapeValue

theorem LoopReads.substrings (acc : ValueParts) (subs : List Substring) :
  LoopReads acc (asBytes (substringsText subs)) (subs.foldl ValueParts.read acc)
  := by
  induction subs generalizing acc with
  | nil => apply nil
  | cons sub subs ih =>
    rw [substringsText, asBytes_append]
    apply (substring acc sub).append (ih _)

/-! ### Patterns -/

namespace Substring

def value : Substring → Bytes
  | initial v => v
  | any v => v
  | final v => v

def isAny : Substring → Bool
  | any _ => true
  | _ => false

end Substring

/-- What may follow the start of a pattern: non-empty parts, and at most one non-empty end in
the last place. -/
def followsInitial : List Substring → Bool
  | [] => true
  | .any v :: subs => !v.isEmpty && followsInitial subs
  | [.final v] => !v.isEmpty
  | _ => false

/-- The parts are those of a pattern: there is one, at most one start, in the first place,
at most one end, in the last place, and none is empty. -/
def isPattern : List Substring → Bool
  | [] => false
  | .initial v :: subs => !v.isEmpty && followsInitial subs
  | subs => followsInitial subs

def anyParts (middle : List Bytes) : List Substring :=
  (middle.filter (!·.isEmpty)).map .any

def initialPart (v : Bytes) : List Substring :=
  if v.isEmpty then [] else [.initial v]

def finalPart (v : Bytes) : List Substring :=
  if v.isEmpty then [] else [.final v]

theorem filterMap_substringAt (middle : List Bytes) (k n : ℕ) (hk : k ≠ 0)
    (hn : k + middle.length < n) :
  (middle.zipIdx k).filterMap (substringAt n) = anyParts middle
  := by
  induction middle generalizing k with
  | nil => rfl
  | cons v middle ih =>
    rw [List.length_cons] at hn
    have htail := ih (k + 1) (Nat.succ_ne_zero k) (by omega)
    have hlast : k ≠ n - 1 := by omega
    by_cases hv : v.isEmpty
    · simp [List.zipIdx_cons, substringAt, hv, htail, anyParts]
    · simp [List.zipIdx_cons, substringAt, hv, hk, hlast, htail, anyParts]

theorem tokensOf_cons (first : Bytes) (middle : List Bytes) (last : Bytes) :
  tokensOf ⟨first :: middle, last⟩ =
    let subs := initialPart first ++ anyParts middle ++ finalPart last
    if subs.isEmpty then .present else .substrings subs
  := by
  have hsubs : ((first :: middle ++ [last]).zipIdx).filterMap
      (substringAt (first :: middle ++ [last]).length)
      = initialPart first ++ anyParts middle ++ finalPart last := by
    have hmiddle := filterMap_substringAt middle 1 (middle.length + 2) one_ne_zero (by omega)
    simp only [List.cons_append, List.zipIdx_cons, List.zipIdx_append, List.length_cons,
      List.length_append, List.filterMap_cons, List.filterMap_append, List.length_nil,
      List.zipIdx_nil, List.filterMap_nil, Nat.zero_add, hmiddle]
    by_cases hfirst : first.isEmpty <;> by_cases hlast : last.isEmpty <;>
      simp [substringAt, initialPart, finalPart, hfirst, hlast, Nat.add_comm]
  simp only [tokensOf, hsubs]
  rfl

theorem foldl_read {subs : List Substring} (h : followsInitial subs)
    (first : Bytes) (middle : List Bytes) :
  ∃ middle' last, subs.foldl ValueParts.read ⟨first :: middle, []⟩ = ⟨first :: middle', last⟩
    ∧ anyParts middle' ++ finalPart last = anyParts middle ++ subs
  := by
  fun_induction followsInitial subs generalizing middle with
  | case1 => exact ⟨middle, [], rfl, rfl⟩
  | case2 v subs ih =>
    obtain ⟨hv, hsubs⟩ := Bool.and_eq_true_iff.mp h
    obtain ⟨middle', last, hread, hparts⟩ := ih hsubs (middle ++ [[], v])
    use middle', last
    constructor
    · simpa [ValueParts.read] using hread
    · have hv' : v ≠ [] := by simpa using hv
      rw [hparts]
      simp [anyParts, hv']
  | case3 v =>
    use middle, v
    have hv' : v ≠ [] := by simpa using h
    simp [ValueParts.read, finalPart, hv']
  | case4 => cases h

theorem tokensOf_star {subs : List Substring} (h : followsInitial subs) (first : Bytes)
    {v : Bytes} (hv : v ≠ []) :
  tokensOf (subs.foldl ValueParts.read ⟨[first, v], []⟩)
    = .substrings (initialPart first ++ .any v :: subs)
  := by
  obtain ⟨middle, last, hread, hparts⟩ := foldl_read h first [v]
  have hany : anyParts [v] = [.any v] := by simp [anyParts, hv]
  rw [hread, tokensOf_cons, List.append_assoc, hparts, hany]
  simp

theorem tokensOf_foldl_read {subs : List Substring} (h : isPattern subs) :
  tokensOf (subs.foldl ValueParts.read ⟨[], []⟩) =
    if subs.any Substring.isAny then .substrings subs else .single (subs.flatMap Substring.value)
  := by
  match subs, h with
  | .initial v :: tail, h =>
    obtain ⟨hv, htail⟩ := Bool.and_eq_true_iff.mp h
    match tail, htail with
    | [], _ => simp [ValueParts.read, tokensOf, Substring.isAny, Substring.value]
    | .any w :: tail, htail =>
      obtain ⟨hw, htail⟩ := Bool.and_eq_true_iff.mp htail
      have hstar := tokensOf_star htail v (by simpa using hw)
      have hfirst : initialPart v = [.initial v] := by simpa [initialPart] using hv
      simpa [ValueParts.read, Substring.isAny, hfirst] using hstar
    | [.final w], _ => simp [ValueParts.read, tokensOf, Substring.isAny, Substring.value]
  | .any w :: tail, h =>
    obtain ⟨hw, htail⟩ := Bool.and_eq_true_iff.mp h
    have hstar := tokensOf_star htail [] (by simpa using hw)
    simpa [ValueParts.read, Substring.isAny, initialPart] using hstar
  | [.final w], _ => simp [ValueParts.read, tokensOf, Substring.isAny, Substring.value]

/-! ### Filters that are read back -/

/-- The name of an attribute that is read back: it is not empty, has no white space around it
and none of the bytes that mean something after it, and does not start like a combination. -/
structure IsAttrName (attr : String) : Prop where
  ne_empty : attr ≠ ""
  trim_eq : trim attr = attr
  plain : ∀ b ∈ asBytes attr, b ∉ [0x3D, 0x3C, 0x3E, 0x7E, 0x28, 0x29]
  start : ∀ b ∈ (asBytes attr).head?, b ∉ [0x26, 0x7C, 0x21]

namespace Filter

def WellFormed : Filter → Prop
  | and filters => filters ≠ [] ∧ ∀ filter ∈ filters, filter.WellFormed
  | or filters => filters ≠ [] ∧ ∀ filter ∈ filters, filter.WellFormed
  | not filter => filter.WellFormed
  | equality attr _ => IsAttrName attr
  | substrings attr subs => IsAttrName attr ∧ isPattern subs
  | greaterOrEqual attr _ => IsAttrName attr
  | lessOrEqual attr _ => IsAttrName attr
  | present attr => IsAttrName attr
  | approx attr _ => IsAttrName attr

/-- Every pattern in the filter has a part that is neither the start nor the end. -/
def Starred : Filter → Prop
  | and filters => ∀ filter ∈ filters, filter.Starred
  | or filters => ∀ filter ∈ filters, filter.Starred
  | not filter => filter.Starred
  | substrings _ subs => subs.any Substring.isAny
  | _ => True

def reparse : Filter → Filter
  | and filters => and (filters.map reparse)
  | or filters => or (filters.map reparse)
  | not filter => not filter.reparse
  | substrings attr subs =>
    if subs.any Substring.isAny then
      substrings attr subs
    else
      equality attr (subs.flatMap Substring.value)
  | filter => filter

theorem map_reparse_eq_iff {filters : List Filter}
    (h : ∀ filter ∈ filters, filter.reparse = filter ↔ filter.Starred) :
  filters.map reparse = filters ↔ ∀ filter ∈ filters, filter.Starred
  := by
  have hmap := List.map_inj_left (f := reparse) (g := id) (l := filters)
  rw [List.map_id] at hmap
  rw [hmap]
  apply forall₂_congr h

theorem reparse_eq_iff (filter : Filter) :
  filter.reparse = filter ↔ filter.Starred
  := by
  induction filter with
  | and filters ih => simpa [reparse, Starred] using map_reparse_eq_iff ih
  | or filters ih => simpa [reparse, Starred] using map_reparse_eq_iff ih
  | not filter ih => simpa [reparse, Starred] using ih
  | substrings attr subs =>
    simp only [reparse, Starred]
    split <;> simp_all
  | _ => simp [reparse, Starred]

end Filter

def ReadsAs (bytes : Bytes) (filter : Filter) : Prop :=
  bytes.head? = some 0x28 ∧ ∀ pos rest,
    ∃ c, parseFilterInner ⟨pos, bytes ++ rest⟩ = .ok (filter, c) ∧ c.val.rest = rest

theorem expectCloseParen_close (pos : ℕ) (rest : Bytes) :
  expectCloseParen ⟨pos, 0x29 :: rest⟩ = .ok ⟨⟨pos + 1, rest⟩, Nat.lt_add_one _⟩
  := rfl

theorem parseSubs_textAll {filters : List Filter}
    (h : ∀ filter ∈ filters, ReadsAs (asBytes filter.text) filter.reparse)
    (pos : ℕ) (rest : Bytes) :
  ∃ c, parseSubs ⟨pos, asBytes (Filter.textAll filters) ++ 0x29 :: rest⟩
      = .ok (filters.map Filter.reparse, c)
    ∧ c.val.rest = 0x29 :: rest
  := by
  induction filters generalizing pos with
  | nil =>
    have hbytes : asBytes (Filter.textAll []) = [] := rfl
    rw [hbytes, parseSubs]
    simp
  | cons filter filters ih =>
    obtain ⟨⟨hhead, hfilter⟩, hfilters⟩ := List.forall_mem_cons.mp h
    rw [Filter.textAll, asBytes_append, List.append_assoc]
    obtain ⟨⟨⟨pos', _⟩, _⟩, hparse, rfl⟩ :=
      hfilter pos (asBytes (Filter.textAll filters) ++ 0x29 :: rest)
    obtain ⟨⟨c, _⟩, hparse', hc⟩ := ih hfilters pos'
    rw [parseSubs, if_pos (by simp [List.head?_append, hhead]), hparse]
    simpa [hparse'] using hc

theorem readsAs_combination {sign : UInt8} (hsign : sign = 0x26 ∨ sign = 0x7C)
    {filters : List Filter} (hne : filters ≠ [])
    (h : ∀ filter ∈ filters, ReadsAs (asBytes filter.text) filter.reparse) :
  ReadsAs ([0x28, sign] ++ asBytes (Filter.textAll filters) ++ [0x29])
    (if sign = 0x26 then .and (filters.map Filter.reparse) else .or (filters.map Filter.reparse))
  := by
  refine ⟨rfl, fun pos rest => ?_⟩
  obtain ⟨⟨⟨pos', _⟩, _⟩, hparse, rfl⟩ := parseSubs_textAll h (pos + 2) rest
  have hbytes : [0x28, sign] ++ asBytes (Filter.textAll filters) ++ [0x29] ++ rest
      = 0x28 :: sign :: (asBytes (Filter.textAll filters) ++ 0x29 :: rest) := by simp
  rw [hbytes, parseFilterInner, if_neg (by simp), if_pos hsign, hparse]
  simp [hne, expectCloseParen_close]

theorem readsAs_not {bytes : Bytes} {filter : Filter} (h : ReadsAs bytes filter) :
  ReadsAs ([0x28, 0x21] ++ bytes ++ [0x29]) (.not filter)
  := by
  refine ⟨rfl, fun pos rest => ?_⟩
  obtain ⟨⟨⟨pos', _⟩, _⟩, hparse, rfl⟩ := h.2 (pos + 2) (0x29 :: rest)
  have hbytes : [0x28, 0x21] ++ bytes ++ [0x29] ++ rest
      = 0x28 :: 0x21 :: (bytes ++ 0x29 :: rest) := by simp
  rw [hbytes, parseFilterInner, if_neg (by simp), if_neg (by decide), if_pos rfl, hparse]
  simp [expectCloseParen_close]

def operatorTail (op : UInt8) : Bytes :=
  if op = 0x3D then [] else [0x3D]

theorem parseOperator_operatorTail {op : UInt8} (hop : op ∈ [0x3D, 0x3C, 0x3E, 0x7E])
    (pos : ℕ) (rest : Bytes) :
  ∃ pos', parseOperator op ⟨pos, operatorTail op ++ rest⟩ = .ok ⟨pos', rest⟩
  := by
  simp only [List.mem_cons, List.not_mem_nil, or_false] at hop
  obtain rfl | rfl | rfl | rfl := hop <;> simp [parseOperator, operatorTail]

theorem parseValue_loopReads {acc : ValueParts} {bytes : Bytes}
    (h : LoopReads ⟨[], []⟩ bytes acc) (pos : ℕ) (rest : Bytes) :
  ∃ pos', parseValue ⟨pos, bytes ++ 0x29 :: rest⟩ = .ok (tokensOf acc, ⟨pos', 0x29 :: rest⟩)
  := by
  obtain ⟨pos', hpos'⟩ := h pos (0x29 :: rest)
  use pos'
  rw [parseValue, hpos', parseValueLoop.eq_def]
  simp

namespace IsAttrName

variable {attr : String} (hattr : IsAttrName attr)

include hattr

theorem not_endsAttr :
  ∀ b ∈ asBytes attr, (!endsAttr b) = true
  := by
  intro b hb
  have hplain := hattr.plain b hb
  simp_all [endsAttr]

theorem takeWhile_append {op : UInt8} (hop : endsAttr op) (rest : Bytes) :
  (asBytes attr ++ op :: rest).takeWhile (!endsAttr ·) = asBytes attr
  := by
  rw [List.takeWhile_append_of_pos hattr.not_endsAttr, List.takeWhile_cons_of_neg (by simp [hop]),
    List.append_nil]

theorem dropWhile_append {op : UInt8} (hop : endsAttr op) (rest : Bytes) :
  (asBytes attr ++ op :: rest).dropWhile (!endsAttr ·) = op :: rest
  := by
  rw [List.dropWhile_append_of_pos hattr.not_endsAttr, List.dropWhile_cons_of_neg (by simp [hop])]

theorem parseSimpleFilter_eq {op : UInt8} (hop : op ∈ [0x3D, 0x3C, 0x3E, 0x7E])
    {bytes : Bytes} {acc : ValueParts} (h : LoopReads ⟨[], []⟩ bytes acc) (pos : ℕ)
    (rest : Bytes) :
  ∃ pos', parseSimpleFilter
      ⟨pos, asBytes attr ++ op :: (operatorTail op ++ (bytes ++ 0x29 :: rest))⟩
    = .ok (simpleFilter attr op (tokensOf acc), ⟨pos', 0x29 :: rest⟩)
  := by
  have hends : endsAttr op := by
    simp only [List.mem_cons, List.not_mem_nil, or_false] at hop
    obtain rfl | rfl | rfl | rfl := hop <;> rfl
  have hempty : attr.isEmpty = false := by simpa using hattr.ne_empty
  obtain ⟨pos₁, hoperator⟩ := parseOperator_operatorTail hop (pos + (asBytes attr).length + 1)
    (bytes ++ 0x29 :: rest)
  obtain ⟨pos₂, hvalue⟩ := parseValue_loopReads h pos₁ rest
  use pos₂
  simp [parseSimpleFilter, hattr.takeWhile_append hends, hattr.dropWhile_append hends,
    hattr.trim_eq, hempty, hoperator, hvalue]

theorem readsAs_simple (op : UInt8) (hop : op ∈ [0x3D, 0x3C, 0x3E, 0x7E]) {bytes : Bytes}
    {acc : ValueParts} (h : LoopReads ⟨[], []⟩ bytes acc) :
  ReadsAs ([0x28] ++ asBytes attr ++ [op] ++ operatorTail op ++ bytes ++ [0x29])
    (simpleFilter attr op (tokensOf acc))
  := by
  refine ⟨rfl, fun pos rest => ?_⟩
  obtain ⟨sign, tail, hsign⟩ := List.exists_cons_of_ne_nil (asBytes_ne_nil hattr.ne_empty)
  have hstart := hattr.start sign (by simp [hsign])
  obtain ⟨pos', hsimple⟩ := hattr.parseSimpleFilter_eq hop h (pos + 1) rest
  have hbytes : [0x28] ++ asBytes attr ++ [op] ++ operatorTail op ++ bytes ++ [0x29] ++ rest
      = 0x28 :: sign :: (tail ++ op :: (operatorTail op ++ (bytes ++ 0x29 :: rest))) := by
    simp [hsign]
  rw [hsign, List.cons_append] at hsimple
  simp only [List.mem_cons, List.not_mem_nil, or_false, not_or] at hstart
  rw [hbytes, parseFilterInner, if_neg (by simp), if_neg (by tauto), if_neg (by tauto)]
  split
  case h_1 e he =>
    rw [hsimple] at he
    cases he
  case h_2 filter c hc =>
    rw [hsimple] at hc
    cases hc
    simp [expectCloseParen_close]

end IsAttrName

@[simp]
theorem asBytes_close :
  asBytes ")" = [0x29]
  := by decide +kernel

theorem asBytes_simple (op : UInt8) {opText : String}
    (hop : asBytes opText = op :: operatorTail op) (attr value : String) :
  asBytes ("(" ++ attr ++ opText ++ value ++ ")")
    = [0x28] ++ asBytes attr ++ [op] ++ operatorTail op ++ asBytes value ++ [0x29]
  := by
  have hopen : asBytes "(" = [0x28] := by decide +kernel
  simp [asBytes_append, hopen, hop]

theorem IsAttrName.readsAs_value {attr : String} (hattr : IsAttrName attr) (op : UInt8)
    {opText : String} (hmem : op ∈ [0x3D, 0x3C, 0x3E, 0x7E])
    (hop : asBytes opText = op :: operatorTail op) (value : Bytes) :
  ReadsAs (asBytes ("(" ++ attr ++ opText ++ escapeValue value ++ ")"))
    (simpleFilter attr op (.single value))
  := by
  rw [asBytes_simple op hop]
  apply hattr.readsAs_simple op hmem (LoopReads.escapeValue _ value)

theorem readsAs_text {filter : Filter} (h : filter.WellFormed) :
  ReadsAs (asBytes filter.text) filter.reparse
  := by
  induction filter with
  | and filters ih =>
    simp only [Filter.WellFormed] at h
    have hopen : asBytes "(&" = [0x28, 0x26] := by decide +kernel
    have hreads := readsAs_combination (.inl rfl) h.1 fun filter hmem =>
      ih filter hmem (h.2 filter hmem)
    simpa [Filter.text, asBytes_append, hopen, Filter.reparse] using hreads
  | or filters ih =>
    simp only [Filter.WellFormed] at h
    have hopen : asBytes "(|" = [0x28, 0x7C] := by decide +kernel
    have hreads := readsAs_combination (.inr rfl) h.1 fun filter hmem =>
      ih filter hmem (h.2 filter hmem)
    simpa [Filter.text, asBytes_append, hopen, Filter.reparse] using hreads
  | not filter ih =>
    simp only [Filter.WellFormed] at h
    have hopen : asBytes "(!" = [0x28, 0x21] := by decide +kernel
    have hreads := readsAs_not (ih h)
    simpa [Filter.text, asBytes_append, hopen, Filter.reparse] using hreads
  | equality attr value =>
    simp only [Filter.WellFormed] at h
    simp only [Filter.text, Filter.reparse]
    apply h.readsAs_value 0x3D (by simp) (by decide +kernel)
  | substrings attr subs =>
    simp only [Filter.WellFormed] at h
    have hreads := h.1.readsAs_simple 0x3D (by simp) (.substrings _ subs)
    rw [tokensOf_foldl_read h.2] at hreads
    rw [Filter.text, asBytes_simple 0x3D (by decide +kernel), Filter.reparse]
    split at hreads
    case isTrue hany =>
      rw [if_pos hany]
      apply hreads
    case isFalse hany =>
      rw [if_neg hany]
      apply hreads
  | greaterOrEqual attr value =>
    simp only [Filter.WellFormed] at h
    simp only [Filter.text, Filter.reparse]
    apply h.readsAs_value 0x3E (by simp) (by decide +kernel)
  | lessOrEqual attr value =>
    simp only [Filter.WellFormed] at h
    simp only [Filter.text, Filter.reparse]
    apply h.readsAs_value 0x3C (by simp) (by decide +kernel)
  | present attr =>
    simp only [Filter.WellFormed] at h
    simp only [Filter.text, Filter.reparse]
    have hreads := h.readsAs_simple 0x3D (by simp) (.star _)
    have htext : "(" ++ attr ++ "=*)" = "(" ++ attr ++ "=" ++ "*" ++ ")" := by
      simp [String.append_assoc]
    rw [htext, asBytes_simple 0x3D (by decide +kernel)]
    apply hreads
  | approx attr value =>
    simp only [Filter.WellFormed] at h
    simp only [Filter.text, Filter.reparse]
    apply h.readsAs_value 0x7E (by simp) (by decide +kernel)

theorem skipWhitespace_of_head {bytes : Bytes} (h : bytes.head? = some 0x28) (pos : ℕ) :
  skipWhitespace ⟨pos, bytes⟩ = ⟨pos, bytes⟩
  := by
  cases bytes with
  | nil => rfl
  | cons b bytes =>
    obtain rfl : b = 0x28 := by simpa using h
    rfl

theorem parseFilter_of_readsAs {s : String} {filter : Filter} (h : ReadsAs (asBytes s) filter) :
  parseFilter s = .ok filter
  := by
  obtain ⟨hhead, hreads⟩ := h
  have hparse := hreads 0 []
  rw [List.append_nil, ← skipWhitespace_of_head hhead] at hparse
  obtain ⟨⟨⟨pos, _⟩, _⟩, hparse, rfl⟩ := hparse
  rw [parseFilter, hparse]
  rfl

theorem parseFilter_text_eq {filter : Filter} (h : filter.WellFormed) :
  parseFilter filter.text = .ok filter.reparse
  := parseFilter_of_readsAs (readsAs_text h)

/-- The text of a filter is parsed as that filter exactly if every pattern in it has a part
that is neither the start nor the end. -/
theorem parseFilter_text_iff {filter : Filter} (h : filter.WellFormed) :
  parseFilter filter.text = .ok filter ↔ filter.Starred
  := by
  rw [parseFilter_text_eq h, Except.ok.injEq]
  apply filter.reparse_eq_iff

theorem isAttrName_cn :
  IsAttrName "cn"
  := ⟨by decide, by decide +kernel, by decide +kernel, by decide +kernel⟩

/-- The pattern with the start `a`, the part `*` and the end `b` is read back. -/
theorem parseFilter_text_star :
  parseFilter (Filter.substrings "cn" [.initial [97], .any [42], .final [98]]).text
    = .ok (.substrings "cn" [.initial [97], .any [42], .final [98]])
  := by
  have hwf : (Filter.substrings "cn" [.initial [97], .any [42], .final [98]]).WellFormed := by
    simpa only [Filter.WellFormed] using ⟨isAttrName_cn, rfl⟩
  apply (parseFilter_text_iff hwf).mpr
  simp [Filter.Starred, Substring.isAny]

/-- The pattern with the start `a` and the end `b` is read as a comparison with `ab`. -/
theorem parseFilter_text_initial_final :
  (Filter.substrings "cn" [.initial [97], .final [98]]).WellFormed
    ∧ parseFilter (Filter.substrings "cn" [.initial [97], .final [98]]).text
      = .ok (.equality "cn" [97, 98])
    ∧ parseFilter (Filter.substrings "cn" [.initial [97], .final [98]]).text
      ≠ .ok (.substrings "cn" [.initial [97], .final [98]])
  := by
  have hwf : (Filter.substrings "cn" [.initial [97], .final [98]]).WellFormed := by
    simpa only [Filter.WellFormed] using ⟨isAttrName_cn, rfl⟩
  have htext : parseFilter (Filter.substrings "cn" [.initial [97], .final [98]]).text
      = .ok (.equality "cn" [97, 98]) := by
    rw [parseFilter_text_eq hwf]
    simp [Filter.reparse, Substring.isAny, Substring.value]
  use hwf, htext
  simp [htext]

end Ldap
