import Adrian.Ldap.FilterTextRoundTrip
import Adrian.Lib.Delimited

/-!
# Comparisons in the text of a filter

`Text` says which items a text has, each an attribute, an operator and a value as they are written,
without reference to the parser, and a text has only one list of items.  The parser reads the value
after `>=`, `<=` or `~=` literally exactly when every star in it is escaped.  A value with such a
star is read as a pattern, and the comparison gets the empty value.
-/

namespace Ldap

open Bytes Utf8 Delimited

/-! ### Items -/

inductive Operator where
  | equal
  | greaterOrEqual
  | lessOrEqual
  | approx
deriving DecidableEq

namespace Operator

def byte : Operator → UInt8
  | equal => 0x3D
  | greaterOrEqual => 0x3E
  | lessOrEqual => 0x3C
  | approx => 0x7E

def bytes : Operator → Bytes
  | equal => [0x3D]
  | greaterOrEqual => [0x3E, 0x3D]
  | lessOrEqual => [0x3C, 0x3D]
  | approx => [0x7E, 0x3D]

def condition (attr : String) (value : Bytes) : Operator → Filter
  | equal => .equality attr value
  | greaterOrEqual => .greaterOrEqual attr value
  | lessOrEqual => .lessOrEqual attr value
  | approx => .approx attr value

end Operator

structure Item where
  attr : Bytes
  op : Operator
  value : Bytes
deriving DecidableEq

namespace Item

def bytes (item : Item) : Bytes :=
  item.attr ++ item.op.bytes ++ item.value

/-- The attribute and the value end where the next part begins, and the item does not look like a
combination. -/
structure IsPlain (item : Item) : Prop where
  attr : ∀ b ∈ item.attr, endsAttr b = false
  start : ∀ b, item.attr.head? = some b → b ≠ 0x26 ∧ b ≠ 0x7C ∧ b ≠ 0x21
  value : ∀ b ∈ item.value, b ≠ 0x29

end Item

/-- The bytes with their escapes replaced, if these are all well formed. -/
def unescape : Bytes → Option Bytes
  | [] => some []
  | b :: rest =>
    if b = 0x5C then
      match rest with
      | c :: d :: rest => do
        let h1 ← (hexDigit c).toOption
        let h2 ← (hexDigit d).toOption
        let value ← unescape rest
        some (((h1 <<< 4) ||| h2) :: value)
      | _ => none
    else
      (unescape rest).map (b :: ·)

def hasBareStar : Bytes → Bool
  | [] => false
  | b :: rest =>
    if b = 0x2A then
      true
    else if b = 0x5C then
      match rest with
      | _ :: _ :: rest => hasBareStar rest
      | _ => false
    else
      hasBareStar rest

section

variable {b c d h1 h2 : UInt8} {bytes : Bytes}

theorem hasBareStar_star :
  hasBareStar (0x2A :: bytes) = true
  := by
  rw [hasBareStar.eq_def]
  rfl

theorem hasBareStar_escape :
  hasBareStar (0x5C :: c :: d :: bytes) = hasBareStar bytes
  := by
  rw [hasBareStar.eq_def]
  rfl

theorem hasBareStar_cons (hstar : b ≠ 0x2A) (hescape : b ≠ 0x5C) :
  hasBareStar (b :: bytes) = hasBareStar bytes
  := by
  rw [hasBareStar.eq_def]
  simp [hstar, hescape]

theorem unescape_escape (hc : hexDigit c = .ok h1) (hd : hexDigit d = .ok h2) :
  unescape (0x5C :: c :: d :: bytes) = (unescape bytes).map (((h1 <<< 4) ||| h2) :: ·)
  := by
  rw [unescape.eq_def]
  simp only [hc, hd, Except.toOption, if_true]
  cases unescape bytes <;> rfl

theorem unescape_cons (hescape : b ≠ 0x5C) :
  unescape (b :: bytes) = (unescape bytes).map (b :: ·)
  := by
  rw [unescape.eq_def]
  simp [hescape]

theorem hexDigit_ne (h : hexDigit b = .ok h1) :
  b ≠ 0x29
  := by
  rintro rfl
  cases h

end

def parenthesized (bytes : Bytes) : Bytes :=
  0x28 :: (bytes ++ [0x29])

inductive TextKind where
  | one
  | many

inductive Text : TextKind → Bytes → List Item → Prop where
  | item (item : Item) (plain : item.IsPlain) : Text .one (parenthesized item.bytes) [item]
  | not {bytes : Bytes} {items : List Item} (inner : Text .one bytes items) :
      Text .one (parenthesized (0x21 :: bytes)) items
  | combination {sign : UInt8} {bytes : Bytes} {items : List Item}
      (sign_eq : sign = 0x26 ∨ sign = 0x7C) (inner : Text .many bytes items) :
      Text .one (parenthesized (sign :: bytes)) items
  | nil : Text .many [] []
  | cons {bytes bytes' : Bytes} {items items' : List Item} (head : Text .one bytes items)
      (tail : Text .many bytes' items') : Text .many (bytes ++ bytes') (items ++ items')

def Source (s : String) (items : List Item) : Prop :=
  ∃ front bytes back, asBytes s = front ++ (bytes ++ back) ∧ Text .one bytes items
    ∧ (∀ b ∈ front, isAsciiWhitespace b = true) ∧ (∀ b ∈ back, isAsciiWhitespace b = true)

/-! ### A text has one list of items -/

theorem parenthesized_append_inj {bytes bytes' r r' : Bytes}
    (h : parenthesized bytes ++ r = parenthesized bytes' ++ r') :
  bytes ++ 0x29 :: r = bytes' ++ 0x29 :: r'
  := by
  simpa [parenthesized] using h

theorem Operator.bytes_eq (op : Operator) :
  ∃ tail, op.bytes = op.byte :: tail ∧ endsAttr op.byte = true
  := by
  cases op <;> exact ⟨_, rfl, rfl⟩

theorem Operator.bytes_append_inj {op op' : Operator} {r r' : Bytes}
    (h : op.bytes ++ r = op'.bytes ++ r') :
  op = op' ∧ r = r'
  := by
  cases op <;> cases op' <;> simp_all [Operator.bytes]

namespace Item

variable {item item' : Item} {r r' : Bytes}

theorem bytes_inj (hitem : item.IsPlain) (hitem' : item'.IsPlain)
    (h : item.bytes ++ 0x29 :: r = item'.bytes ++ 0x29 :: r') :
  item = item' ∧ r = r'
  := by
  obtain ⟨attr, op, value⟩ := item
  obtain ⟨attr', op', value'⟩ := item'
  simp only [bytes, List.append_assoc] at h
  obtain ⟨tail, htail, hends⟩ := op.bytes_eq
  obtain ⟨tail', htail', hends'⟩ := op'.bytes_eq
  have hattr : attr = attr' := by
    rw [htail, htail', List.cons_append, List.cons_append] at h
    apply (append_cons_inj_of_forall hitem.attr hitem'.attr hends hends' h).1
  subst hattr
  obtain ⟨rfl, hvalue⟩ := Operator.bytes_append_inj (List.append_cancel_left h)
  obtain ⟨rfl, -, rfl⟩ := append_cons_inj_of_forall (p := (· = 0x29))
    (by simpa using hitem.value) (by simpa using hitem'.value) rfl rfl hvalue
  exact ⟨rfl, rfl⟩

theorem bytes_head (hitem : item.IsPlain) {b : UInt8} (h : item.bytes ++ 0x29 :: r = b :: r') :
  b ≠ 0x26 ∧ b ≠ 0x7C ∧ b ≠ 0x21
  := by
  obtain ⟨attr, op, value⟩ := item
  cases attr with
  | nil =>
    cases op <;>
      · obtain ⟨rfl, -⟩ := List.cons.inj h
        decide
  | cons a attr =>
    obtain ⟨rfl, -⟩ := List.cons.inj h
    apply hitem.start _ rfl

end Item

variable {items : List Item} {s : String} {filter : Filter}

theorem Text.head {bytes : Bytes} (h : Text .one bytes items) :
  ∃ rest, bytes = 0x28 :: rest
  := by
  cases h with
  | item => exact ⟨_, rfl⟩
  | not => exact ⟨_, rfl⟩
  | combination => exact ⟨_, rfl⟩

def TextKind.Ends : TextKind → Bytes → Prop
  | one, _ => True
  | many, r => r.head? ≠ some 0x28

theorem Text.inj {kind : TextKind} {bytes bytes' r r' : Bytes} {items' : List Item}
    (h : Text kind bytes items) (h' : Text kind bytes' items') (hr : kind.Ends r)
    (hr' : kind.Ends r') (heq : bytes ++ r = bytes' ++ r') :
  items = items' ∧ r = r'
  := by
  induction h generalizing bytes' r r' items' with
  | item item plain =>
    cases h' with
    | item item' plain' =>
      have heq := parenthesized_append_inj heq
      obtain ⟨rfl, rfl⟩ := Item.bytes_inj plain plain' heq
      exact ⟨rfl, rfl⟩
    | not inner' =>
      have heq := parenthesized_append_inj heq
      exact absurd rfl (Item.bytes_head plain heq).2.2
    | combination hsign inner' =>
      have heq := parenthesized_append_inj heq
      have := Item.bytes_head plain heq
      tauto
  | not inner ih =>
    cases h' with
    | item item' plain' =>
      have heq := parenthesized_append_inj heq
      exact absurd rfl (Item.bytes_head plain' heq.symm).2.2
    | not inner' =>
      have heq := parenthesized_append_inj heq
      obtain ⟨rfl, hrest⟩ := ih inner' trivial trivial (List.cons.inj heq).2
      exact ⟨rfl, (List.cons.inj hrest).2⟩
    | combination hsign inner' =>
      have heq := parenthesized_append_inj heq
      obtain ⟨rfl, -⟩ := List.cons.inj heq
      simp at hsign
  | combination hsign inner ih =>
    cases h' with
    | item item' plain' =>
      have heq := parenthesized_append_inj heq
      have := Item.bytes_head plain' heq.symm
      tauto
    | not inner' =>
      have heq := parenthesized_append_inj heq
      obtain ⟨rfl, -⟩ := List.cons.inj heq
      simp at hsign
    | combination hsign' inner' =>
      have heq := parenthesized_append_inj heq
      obtain ⟨rfl, hrest⟩ := ih inner' (by simp [TextKind.Ends]) (by simp [TextKind.Ends])
        (List.cons.inj heq).2
      exact ⟨rfl, (List.cons.inj hrest).2⟩
  | nil =>
    cases h' with
    | nil => exact ⟨rfl, heq⟩
    | cons head' tail' =>
      obtain ⟨rest, rfl⟩ := head'.head
      obtain rfl : r = _ := heq
      exact absurd rfl hr
  | cons head tail ihhead ihtail =>
    cases h' with
    | nil =>
      obtain ⟨rest, rfl⟩ := head.head
      obtain rfl : _ = r' := heq
      exact absurd rfl hr'
    | cons head' tail' =>
      rw [List.append_assoc, List.append_assoc] at heq
      obtain ⟨rfl, hrest⟩ := ihhead head' trivial trivial heq
      obtain ⟨rfl, hrest⟩ := ihtail tail' hr hr' hrest
      exact ⟨rfl, hrest⟩

theorem Source.unique {items' : List Item} (h : Source s items) (h' : Source s items') :
  items = items'
  := by
  obtain ⟨front, bytes, back, heq, htext, hfront, -⟩ := h
  obtain ⟨front', bytes', back', heq', htext', hfront', -⟩ := h'
  rw [heq] at heq'
  obtain ⟨rest, hrest⟩ := htext.head
  obtain ⟨rest', hrest'⟩ := htext'.head
  have hbytes : bytes ++ back = bytes' ++ back' := by
    rw [hrest, hrest', List.cons_append, List.cons_append] at heq' ⊢
    obtain ⟨-, -, heq⟩ := append_cons_inj_of_forall (p := (!isAsciiWhitespace ·))
      (by simpa using hfront) (by simpa using hfront') rfl rfl heq'
    rw [heq]
  apply (htext.inj htext' trivial trivial hbytes).1

structure ReadAs (bytes : Bytes) (acc acc' : ValueParts) : Prop where
  literal : hasBareStar bytes = false → acc'.parts = acc.parts
    ∧ ∃ value, unescape bytes = some value ∧ acc'.current = acc.current ++ value
  pattern : hasBareStar bytes = true ∨ acc.parts ≠ [] → acc'.parts ≠ []

namespace ReadAs

variable {bytes : Bytes} {acc acc' : ValueParts}

theorem nil (acc : ValueParts) :
  ReadAs [] acc acc
  := by
  constructor
  · intro _
    exact ⟨rfl, [], rfl, (List.append_nil _).symm⟩
  · rintro (h | h)
    · cases h
    · apply h

theorem star (h : ReadAs bytes ⟨acc.parts ++ [acc.current], []⟩ acc') :
  ReadAs (0x2A :: bytes) acc acc'
  := by
  constructor
  · intro hstar
    rw [hasBareStar_star] at hstar
    cases hstar
  · intro _
    apply h.pattern
    simp

theorem prepend {front : Bytes} {b : UInt8}
    (hstar : hasBareStar (front ++ bytes) = hasBareStar bytes)
    (hvalue : unescape (front ++ bytes) = (unescape bytes).map (b :: ·))
    (h : ReadAs bytes { acc with current := acc.current ++ [b] } acc') :
  ReadAs (front ++ bytes) acc acc'
  := by
  constructor
  · intro hbare
    rw [hstar] at hbare
    obtain ⟨hparts, value, hunescape, hcurrent⟩ := h.literal hbare
    refine ⟨hparts, b :: value, ?_, ?_⟩
    · rw [hvalue, hunescape, Option.map_some]
    · rw [hcurrent, List.append_assoc, List.singleton_append]
  · intro hbare
    rw [hstar] at hbare
    apply h.pattern hbare

end ReadAs

theorem parseValueLoop_readAs {acc acc' : ValueParts} {pos : ℕ} {rest : Bytes} {c : Cursor}
    (h : parseValueLoop acc pos rest = .ok (acc', c)) :
  ∃ bytes, rest = bytes ++ c.rest ∧ (∀ b ∈ bytes, b ≠ 0x29) ∧ ReadAs bytes acc acc'
  := by
  fun_induction parseValueLoop acc pos rest with
  | case1 acc pos =>
    cases h
    exact ⟨[], rfl, by simp, .nil _⟩
  | case2 acc pos rest =>
    cases h
    exact ⟨[], rfl, by simp, .nil _⟩
  | case3 acc pos rest hclose ih =>
    obtain ⟨bytes, rfl, hbytes, hread⟩ := ih h
    refine ⟨0x2A :: bytes, rfl, ?_, hread.star⟩
    simpa using hbytes
  | case4 => cases h
  | case5 => cases h
  | case6 acc pos c d rest h1 hc h2 hd hclose hstar ih =>
    obtain ⟨bytes, rfl, hbytes, hread⟩ := ih h
    refine ⟨[0x5C, c, d] ++ bytes, rfl, ?_,
      hread.prepend hasBareStar_escape (unescape_escape hc hd)⟩
    simpa [hexDigit_ne hc, hexDigit_ne hd] using hbytes
  | case7 => cases h
  | case8 acc pos b rest hclose hstar hescape ih =>
    obtain ⟨bytes, rfl, hbytes, hread⟩ := ih h
    refine ⟨[b] ++ bytes, rfl, ?_,
      hread.prepend (hasBareStar_cons hstar hescape) (unescape_cons hescape)⟩
    simpa [hclose] using hbytes

theorem parseValue_readAs {c c' : Cursor} {tokens : ValueTokens}
    (h : parseValue c = .ok (tokens, c')) :
  ∃ acc bytes, tokens = tokensOf acc ∧ c.rest = bytes ++ c'.rest ∧ (∀ b ∈ bytes, b ≠ 0x29)
    ∧ ReadAs bytes ⟨[], []⟩ acc
  := by
  simp only [parseValue] at h
  split at h
  case h_1 => cases h
  case h_2 acc c₁ hc₁ =>
    cases h
    obtain ⟨bytes, hrest, hbytes, hread⟩ := parseValueLoop_readAs hc₁
    exact ⟨acc, bytes, rfl, hrest, hbytes, hread⟩

/-! ### Conditions -/

mutual

def Filter.conditions : Filter → List Filter
  | .and filters => Filter.conditionsAll filters
  | .or filters => Filter.conditionsAll filters
  | .not filter => filter.conditions
  | .equality attr value => [.equality attr value]
  | .substrings attr subs => [.substrings attr subs]
  | .greaterOrEqual attr value => [.greaterOrEqual attr value]
  | .lessOrEqual attr value => [.lessOrEqual attr value]
  | .present attr => [.present attr]
  | .approx attr value => [.approx attr value]

def Filter.conditionsAll : List Filter → List Filter
  | [] => []
  | filter :: filters => filter.conditions ++ Filter.conditionsAll filters

end

def Denotes (item : Item) (condition : Filter) : Prop :=
  ∃ attr acc, ReadAs item.value ⟨[], []⟩ acc
    ∧ condition = simpleFilter attr item.op.byte (tokensOf acc)

theorem conditions_simpleFilter (attr : String) (op : UInt8) (value : ValueTokens) :
  (simpleFilter attr op value).conditions = [simpleFilter attr op value]
  := by
  unfold simpleFilter
  split_ifs
  · cases value <;> rfl
  · rfl
  · rfl
  · rfl

theorem parseOperator_eq_ok {op : UInt8} {c c' : Cursor} (h : parseOperator op c = .ok c') :
  ∃ operator : Operator, operator.byte = op ∧ op :: c.rest = operator.bytes ++ c'.rest
  := by
  unfold parseOperator at h
  split at h
  case isTrue hop =>
    split at h
    case h_1 b rest hrest =>
      split at h
      case isTrue hb =>
        cases h
        subst hb
        rw [hrest]
        obtain rfl | rfl | rfl := hop
        · exact ⟨.lessOrEqual, rfl, rfl⟩
        · exact ⟨.greaterOrEqual, rfl, rfl⟩
        · exact ⟨.approx, rfl, rfl⟩
      case isFalse => cases h
    case h_2 => cases h
  case isFalse =>
    split at h
    case isTrue hop =>
      cases h
      exact ⟨.equal, hop.symm, by rw [hop]; rfl⟩
    case isFalse => cases h

theorem parseSimpleFilter_denotes {c c' : Cursor} (h : parseSimpleFilter c = .ok (filter, c'))
    (hstart : ∀ b, c.rest.head? = some b → b ≠ 0x26 ∧ b ≠ 0x7C ∧ b ≠ 0x21) :
  ∃ item : Item, item.IsPlain ∧ c.rest = item.bytes ++ c'.rest
    ∧ List.Forall₂ Denotes [item] filter.conditions
  := by
  simp only [parseSimpleFilter] at h
  split at h
  case h_1 => cases h
  case h_2 op rest hop =>
    split at h
    case h_1 => cases h
    case h_2 s hs =>
      split at h
      case isTrue => cases h
      case isFalse =>
        split at h
        case h_1 => cases h
        case h_2 c₁ hc₁ =>
          split at h
          case h_1 => cases h
          case h_2 value c₂ hc₂ =>
            cases h
            obtain ⟨operator, rfl, hoperator⟩ := parseOperator_eq_ok hc₁
            obtain ⟨acc, bytes, rfl, hvalue, hbytes, hread⟩ := parseValue_readAs hc₂
            let item : Item := ⟨c.rest.takeWhile (!endsAttr ·), operator, bytes⟩
            refine ⟨item, ⟨?_, ?_, hbytes⟩, ?_, ?_⟩
            · intro b hb
              simpa using List.all_eq_true.mp List.all_takeWhile b hb
            · intro b hb
              apply hstart b
              rw [← List.takeWhile_append_dropWhile (p := (!endsAttr ·)) (l := c.rest),
                List.head?_append]
              simp [item] at hb
              simp [hb]
            · simp only [item, Item.bytes, List.append_assoc]
              rw [← hvalue, ← hoperator, ← hop, List.takeWhile_append_dropWhile]
            · rw [conditions_simpleFilter]
              exact .cons ⟨_, acc, hread, rfl⟩ .nil

theorem expectCloseParen_eq_ok {c : Cursor} {c' : Within c.rest.length}
    (h : expectCloseParen c = .ok c') :
  c.rest = 0x29 :: c'.val.rest
  := by
  obtain ⟨pos, rest⟩ := c
  cases rest with
  | nil => cases h
  | cons b rest =>
    simp only [expectCloseParen] at h
    split at h
    case isTrue hb =>
      cases h
      rw [hb]
    case isFalse => cases h

def Between (kind : TextKind) (c c' : Cursor) (conditions : List Filter) : Prop :=
  ∃ bytes items, c.rest = bytes ++ c'.rest ∧ Text kind bytes items
    ∧ List.Forall₂ Denotes items conditions

section

variable {pos : ℕ} {sign : UInt8} {rest : Bytes} {c c' : Cursor} {conditions : List Filter}

theorem Between.combination (hsign : sign = 0x26 ∨ sign = 0x7C)
    (h : Between .many ⟨pos + 2, rest⟩ c conditions) (hclose : c.rest = 0x29 :: c'.rest) :
  Between .one ⟨pos, 0x28 :: sign :: rest⟩ c' conditions
  := by
  obtain ⟨bytes, items, heq, htext, hdenotes⟩ := h
  refine ⟨_, items, ?_, .combination hsign htext, hdenotes⟩
  simp only at heq
  simp [parenthesized, heq, hclose]

theorem Between.not (h : Between .one ⟨pos + 2, rest⟩ c conditions)
    (hclose : c.rest = 0x29 :: c'.rest) :
  Between .one ⟨pos, 0x28 :: 0x21 :: rest⟩ c' conditions
  := by
  obtain ⟨bytes, items, heq, htext, hdenotes⟩ := h
  refine ⟨_, items, ?_, .not htext, hdenotes⟩
  simp only at heq
  simp [parenthesized, heq, hclose]

theorem Between.cons {c'' : Cursor} {conditions' : List Filter}
    (h : Between .one c c' conditions) (h' : Between .many c' c'' conditions') :
  Between .many c c'' (conditions ++ conditions')
  := by
  obtain ⟨bytes, items, heq, htext, hdenotes⟩ := h
  obtain ⟨bytes', items', heq', htext', hdenotes'⟩ := h'
  refine ⟨bytes ++ bytes', items ++ items', ?_, .cons htext htext', ?_⟩
  · rw [heq, heq', List.append_assoc]
  · apply List.rel_append hdenotes hdenotes'

end

theorem parseFilterInner_between {c : Cursor} {c' : Within c.rest.length}
    (hmany : ∀ (c₁ : Cursor) filters (c₂ : Within (c₁.rest.length + 1)),
      c₁.rest.length < c.rest.length → parseSubs c₁ = .ok (filters, c₂) →
      Between .many c₁ c₂.val (Filter.conditionsAll filters))
    (hone : ∀ (c₁ : Cursor) filter (c₂ : Within c₁.rest.length),
      c₁.rest.length < c.rest.length → parseFilterInner c₁ = .ok (filter, c₂) →
      Between .one c₁ c₂.val filter.conditions)
    (h : parseFilterInner c = .ok (filter, c')) :
  Between .one c c'.val filter.conditions
  := by
  unfold parseFilterInner at h
  split at h
  case h_1 => cases h
  case h_2 pos b =>
    split at h
    · cases h
    · cases h
  case h_3 pos b sign rest =>
    split at h
    case isTrue => cases h
    case isFalse hb =>
      obtain rfl := not_not.mp hb
      split at h
      case isTrue hsign =>
        split at h
        case h_1 => cases h
        case h_2 filters c₁ hc₁ hparse =>
          split at h
          case isTrue => cases h
          case isFalse =>
            split at h
            case h_1 => cases h
            case h_2 c₂ hc₂ hclose =>
              cases h
              have hbetween := hmany _ _ _ (by simp only [List.length_cons]; omega) hparse
              have hclose := expectCloseParen_eq_ok hclose
              have hconditions : (if sign = 0x26 then Filter.and filters
                  else Filter.or filters).conditions = Filter.conditionsAll filters := by
                split_ifs <;> rfl
              rw [hconditions]
              apply hbetween.combination hsign hclose
      case isFalse hsign =>
        split at h
        case isTrue hnot =>
          subst hnot
          split at h
          case h_1 => cases h
          case h_2 inner c₁ hc₁ hparse =>
            split at h
            case h_1 => cases h
            case h_2 c₂ hc₂ hclose =>
              cases h
              have hbetween := hone _ _ _ (by simp only [List.length_cons]; omega) hparse
              apply hbetween.not (expectCloseParen_eq_ok hclose)
        case isFalse hnot =>
          split at h
          case h_1 => cases h
          case h_2 filter c₁ hparse =>
            dsimp only at h
            split at h
            case h_1 => cases h
            case h_2 c₂ hc₂ hclose =>
              cases h
              obtain ⟨item, hplain, heq, hdenotes⟩ :=
                parseSimpleFilter_denotes hparse (by simp; tauto)
              refine ⟨_, [item], ?_, .item item hplain, hdenotes⟩
              simp only at heq
              simp [parenthesized, heq, expectCloseParen_eq_ok hclose]

theorem parseSubs_between {c : Cursor} {filters : List Filter}
    {c' : Within (c.rest.length + 1)}
    (hone : ∀ filter (c₂ : Within c.rest.length), parseFilterInner c = .ok (filter, c₂) →
      Between .one c c₂.val filter.conditions)
    (hmany : ∀ (c₁ : Cursor) filters (c₂ : Within (c₁.rest.length + 1)),
      c₁.rest.length < c.rest.length → parseSubs c₁ = .ok (filters, c₂) →
      Between .many c₁ c₂.val (Filter.conditionsAll filters))
    (h : parseSubs c = .ok (filters, c')) :
  Between .many c c'.val (Filter.conditionsAll filters)
  := by
  unfold parseSubs at h
  split at h
  case isTrue =>
    split at h
    case h_1 => cases h
    case h_2 filter c₁ hc₁ hparse =>
      split at h
      case h_1 => cases h
      case h_2 filters c₂ hc₂ hparse' =>
        cases h
        apply (hone filter _ hparse).cons
        apply hmany _ _ _ hc₁ hparse'
  case isFalse =>
    cases h
    exact ⟨[], [], rfl, .nil, .nil⟩

theorem parse_between (n : ℕ) :
  (∀ (c : Cursor) filter (c' : Within c.rest.length), c.rest.length < n →
      parseFilterInner c = .ok (filter, c') → Between .one c c'.val filter.conditions)
    ∧ ∀ (c : Cursor) filters (c' : Within (c.rest.length + 1)), c.rest.length < n →
      parseSubs c = .ok (filters, c') → Between .many c c'.val (Filter.conditionsAll filters)
  := by
  induction n with
  | zero =>
    constructor
    · intro c filter c' hlt
      exact absurd hlt (Nat.not_lt_zero _)
    · intro c filters c' hlt
      exact absurd hlt (Nat.not_lt_zero _)
  | succ n ih =>
    obtain ⟨ihone, ihmany⟩ := ih
    have hone : ∀ (c : Cursor) filter (c' : Within c.rest.length), c.rest.length < n + 1 →
        parseFilterInner c = .ok (filter, c') → Between .one c c'.val filter.conditions := by
      intro c filter c' hlt hparse
      apply parseFilterInner_between _ _ hparse
      · intro c₁ filters c₂ hlt₁
        apply ihmany c₁ filters c₂ (by omega)
      · intro c₁ filter c₂ hlt₁
        apply ihone c₁ filter c₂ (by omega)
    use hone
    intro c filters c' hlt hparse
    apply parseSubs_between _ _ hparse
    · intro filter c₂
      apply hone c filter c₂ hlt
    · intro c₁ filters c₂ hlt₁
      apply ihmany c₁ filters c₂ (by omega)

theorem forall_isAsciiWhitespace_takeWhile (bytes : Bytes) :
  ∀ b ∈ bytes.takeWhile isAsciiWhitespace, isAsciiWhitespace b = true
  := List.all_eq_true.mp List.all_takeWhile

theorem parseFilter_source (h : parseFilter s = .ok filter) :
  ∃ items, Source s items ∧ List.Forall₂ Denotes items filter.conditions
  := by
  simp only [parseFilter] at h
  split at h
  case h_1 => cases h
  case h_2 filter' c hc hparse =>
    split at h
    case isFalse => cases h
    case isTrue hempty =>
      cases h
      obtain ⟨bytes, items, heq, htext, hdenotes⟩ := (parse_between _).1 _ _ _
        (Nat.lt_succ_self _) hparse
      refine ⟨items, ⟨_, bytes, c.rest, ?_, htext,
        forall_isAsciiWhitespace_takeWhile (asBytes s), ?_⟩, hdenotes⟩
      · rw [← heq]
        exact List.takeWhile_append_dropWhile.symm
      · have hnil : c.rest.dropWhile isAsciiWhitespace = [] := List.isEmpty_iff.mp hempty
        intro b hb
        rw [← List.takeWhile_append_dropWhile (p := isAsciiWhitespace) (l := c.rest), hnil,
          List.append_nil] at hb
        apply forall_isAsciiWhitespace_takeWhile _ b hb

def ReadsLiterally (item : Item) (condition : Filter) : Prop :=
  item.op ≠ .equal →
    hasBareStar item.value = false
      ∧ ∃ attr value, unescape item.value = some value
        ∧ condition = item.op.condition attr value

theorem Denotes.readsLiterally_iff {item : Item} {condition : Filter}
    (h : Denotes item condition) :
  ReadsLiterally item condition ↔ (item.op ≠ .equal → hasBareStar item.value = false)
  := by
  obtain ⟨attr, acc, hread, rfl⟩ := h
  constructor
  · intro hreads hop
    apply (hreads hop).1
  · intro hbare hop
    obtain ⟨hparts, value, hunescape, hcurrent⟩ := hread.literal (hbare hop)
    refine ⟨hbare hop, attr, value, hunescape, ?_⟩
    have htokens : tokensOf acc = .single value := by
      simp [tokensOf, hparts, hcurrent]
    rw [htokens]
    cases hitem : item.op with
    | equal => exact absurd hitem hop
    | greaterOrEqual => rfl
    | lessOrEqual => rfl
    | approx => rfl

theorem forall₂_readsLiterally_iff {conditions : List Filter}
    (h : List.Forall₂ Denotes items conditions) :
  List.Forall₂ ReadsLiterally items conditions
    ↔ ∀ item ∈ items, item.op ≠ .equal → hasBareStar item.value = false
  := by
  induction h with
  | nil => simp
  | cons hitem _ ih => rw [List.forall₂_cons, hitem.readsLiterally_iff, ih, List.forall_mem_cons]

/-- In every string that is accepted, each value after `>=`, `<=` or `~=` is read literally exactly
when there is no bare star in any of them. -/
theorem ordering_literal_iff {s : String} {filter : Filter} (h : parseFilter s = .ok filter) :
  ∃ items, Source s items ∧ (∀ items', Source s items' → items' = items)
    ∧ (List.Forall₂ ReadsLiterally items filter.conditions
      ↔ ∀ item ∈ items, item.op ≠ .equal → hasBareStar item.value = false)
  := by
  obtain ⟨items, hsource, hdenotes⟩ := parseFilter_source h
  exact ⟨items, hsource, fun items' hsource' => hsource'.unique hsource,
    forall₂_readsLiterally_iff hdenotes⟩

def cnAtLeast (value : Bytes) : Item :=
  ⟨[0x63, 0x6E], .greaterOrEqual, value⟩

theorem source_cnAtLeast {value : Bytes}
    (hs : asBytes s = parenthesized (cnAtLeast value).bytes) (hvalue : ∀ b ∈ value, b ≠ 0x29) :
  Source s [cnAtLeast value]
  := by
  refine ⟨[], _, [], ?_, .item _ ⟨?_, ?_, hvalue⟩, by simp, by simp⟩
  · rw [hs, List.append_nil]
    rfl
  · simp [cnAtLeast, endsAttr]
  · rintro b ⟨⟩
    decide

/-- A star that is escaped is read literally. -/
theorem ordering_literal_escaped :
  parseFilter "(cn>=a\\2ab)" = .ok (.greaterOrEqual "cn" [97, 42, 98])
    ∧ Source "(cn>=a\\2ab)" [cnAtLeast [97, 92, 50, 97, 98]]
    ∧ List.Forall₂ ReadsLiterally [cnAtLeast [97, 92, 50, 97, 98]]
      (Filter.greaterOrEqual "cn" [97, 42, 98]).conditions
  := by
  have hparse : parseFilter "(cn>=a\\2ab)" = .ok (.greaterOrEqual "cn" [97, 42, 98]) := by
    have hwf : (Filter.greaterOrEqual "cn" [97, 42, 98]).WellFormed := by
      simpa only [Filter.WellFormed] using isAttrName_cn
    have htext : (Filter.greaterOrEqual "cn" [97, 42, 98]).text = "(cn>=a\\2ab)" := by
      decide +kernel
    rw [← htext, parseFilter_text_eq hwf]
    simp [Filter.reparse]
  have hsource : Source "(cn>=a\\2ab)" [cnAtLeast [97, 92, 50, 97, 98]] :=
    source_cnAtLeast (by decide +kernel) (by simp)
  obtain ⟨items, -, hunique, hiff⟩ := ordering_literal_iff hparse
  obtain rfl := hunique _ hsource
  exact ⟨hparse, hsource, hiff.mpr (by decide)⟩

/-- A value with a star is not refused, and the comparison gets the empty value. -/
theorem ordering_star_dropped :
  parseFilter "(cn>=a*b)" = .ok (.greaterOrEqual "cn" [])
    ∧ Source "(cn>=a*b)" [cnAtLeast [97, 42, 98]]
    ∧ unescape [97, 42, 98] = some [97, 42, 98]
    ∧ ¬ List.Forall₂ ReadsLiterally [cnAtLeast [97, 42, 98]]
      (Filter.greaterOrEqual "cn" []).conditions
  := by
  have hreads : LoopReads ⟨[], []⟩
      (asBytes (escapeByte 97) ++ asBytes "*" ++ asBytes (escapeByte 98)) ⟨[[97]], [98]⟩ :=
    ((LoopReads.escapeByte _ 97).append (.star _)).append (.escapeByte _ 98)
  have hbytes : asBytes "(cn>=a*b)" = [0x28] ++ asBytes "cn" ++ [0x3E] ++ operatorTail 0x3E
      ++ (asBytes (escapeByte 97) ++ asBytes "*" ++ asBytes (escapeByte 98)) ++ [0x29] := by
    decide +kernel
  refine ⟨?_, source_cnAtLeast (by decide +kernel) (by simp), by decide +kernel, ?_⟩
  · apply parseFilter_of_readsAs
    rw [hbytes]
    apply isAttrName_cn.readsAs_simple 0x3E (by simp) hreads
  · intro h
    obtain ⟨hitem, -⟩ := List.forall₂_cons.mp h
    have hbare := (hitem (by decide)).1
    revert hbare
    decide +kernel

end Ldap
