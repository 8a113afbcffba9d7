import Adrian.Ldap.Filter

/-!
# The text of filters

A filter is written as text in parentheses: a combination as its sign and the filters it combines, a
condition as an attribute, an operator and a value.  The parts of a pattern are written with a star
before and after each that is neither the start nor the end, and a value with a star in it is read
as a pattern.
-/

namespace Ldap

open Bytes Utf8

def escapeByte (b : UInt8) : String :=
  if b = 0x2A then "\\2a"
  else if b = 0x28 then "\\28"
  else if b = 0x29 then "\\29"
  else if b = 0x5C then "\\5c"
  else if b = 0x00 then "\\00"
  else if 0x20 ≤ b ∧ b ≤ 0x7E then String.ofList [Char.ofNat b.toNat]
  else "\\" ++ hexText b

def escapeValue : Bytes → String
  | [] => ""
  | b :: bytes => escapeByte b ++ escapeValue bytes

def Substring.text : Substring → String
  | initial v => escapeValue v
  | any v => "*" ++ escapeValue v ++ "*"
  | final v => escapeValue v

def substringsText : List Substring → String
  | [] => ""
  | sub :: subs => sub.text ++ substringsText subs

namespace Filter

mutual

def text : Filter → String
  | and filters => "(&" ++ textAll filters ++ ")"
  | or filters => "(|" ++ textAll filters ++ ")"
  | not filter => "(!" ++ filter.text ++ ")"
  | equality attr value => "(" ++ attr ++ "=" ++ escapeValue value ++ ")"
  | substrings attr subs => "(" ++ attr ++ "=" ++ substringsText subs ++ ")"
  | greaterOrEqual attr value => "(" ++ attr ++ ">=" ++ escapeValue value ++ ")"
  | lessOrEqual attr value => "(" ++ attr ++ "<=" ++ escapeValue value ++ ")"
  | present attr => "(" ++ attr ++ "=*)"
  | approx attr value => "(" ++ attr ++ "~=" ++ escapeValue value ++ ")"

def textAll : List Filter → String
  | [] => ""
  | filter :: filters => filter.text ++ textAll filters

end

end Filter

/-! ### Reading values -/

inductive FilterParseError where
  | expectedOpenParen (pos : ℕ)
  | expectedCloseParen (pos : ℕ)
  | empty (pos : ℕ)
  | unsupportedOperator (op : Char) (pos : ℕ)
  | bareStar (pos : ℕ)
  | unexpectedEof (pos : ℕ)
  | trailingData (pos : ℕ)
  | invalidEscape (pos : ℕ)
deriving DecidableEq

/-- A place in a text: its position, and the bytes from there on. -/
structure Cursor where
  pos : ℕ
  rest : Bytes
deriving DecidableEq

/-- The number that a hexadecimal digit is.  The error has the byte where the others have a
position. -/
def hexDigit (b : UInt8) : Except FilterParseError UInt8 :=
  if 0x30 ≤ b ∧ b ≤ 0x39 then .ok (b - 0x30)
  else if 0x61 ≤ b ∧ b ≤ 0x66 then .ok (b - 0x61 + 10)
  else if 0x41 ≤ b ∧ b ≤ 0x46 then .ok (b - 0x41 + 10)
  else .error (.invalidEscape b.toNat)

/-- The value of a simple filter: a star alone, the parts of a pattern, or one value. -/
inductive ValueTokens where
  | present
  | substrings (subs : List Substring)
  | single (value : Bytes)
deriving DecidableEq

def ValueTokens.intoBytes : ValueTokens → Bytes
  | single v => v
  | present => []
  | substrings _ => []

/-- What the loop over a value has read: the parts before each star, and what follows the
last. -/
structure ValueParts where
  parts : List Bytes
  current : Bytes
deriving DecidableEq

def parseValueLoop (acc : ValueParts) (pos : ℕ) :
    Bytes → Except FilterParseError (ValueParts × Cursor)
  | [] => .ok (acc, ⟨pos, []⟩)
  | b :: rest =>
    if b = 0x29 then
      .ok (acc, ⟨pos, b :: rest⟩)
    else if b = 0x2A then
      parseValueLoop ⟨acc.parts ++ [acc.current], []⟩ (pos + 1) rest
    else if b = 0x5C then
      match rest with
      | c :: d :: rest =>
        match hexDigit c with
        | .error e => .error e
        | .ok h1 =>
          match hexDigit d with
          | .error e => .error e
          | .ok h2 =>
            parseValueLoop { acc with current := acc.current ++ [(h1 <<< 4) ||| h2] }
              (pos + 3) rest
      | _ => .error (.invalidEscape (pos + 1))
    else
      parseValueLoop { acc with current := acc.current ++ [b] } (pos + 1) rest

def substringAt (n : ℕ) (part : Bytes × ℕ) : Option Substring :=
  if part.1.isEmpty then none
  else if part.2 = 0 then some (.initial part.1)
  else if part.2 = n - 1 then some (.final part.1)
  else some (.any part.1)

def tokensOf (acc : ValueParts) : ValueTokens :=
  if acc.parts.isEmpty then
    .single acc.current
  else
    let parts := acc.parts ++ [acc.current]
    let subs := parts.zipIdx.filterMap (substringAt parts.length)
    if subs.isEmpty then .present else .substrings subs

def parseValue (c : Cursor) : Except FilterParseError (ValueTokens × Cursor) :=
  match parseValueLoop ⟨[], []⟩ c.pos c.rest with
  | .error e => .error e
  | .ok (acc, c) => .ok (tokensOf acc, c)

variable {c c' : Cursor}

theorem parseValueLoop_length {acc acc' : ValueParts} {pos : ℕ} {rest : Bytes}
    (h : parseValueLoop acc pos rest = .ok (acc', c)) :
  c.rest.length ≤ rest.length
  := by
  fun_induction parseValueLoop acc pos rest with
  | case1 acc pos =>
    cases h
    simp
  | case2 acc pos rest =>
    cases h
    simp
  | case3 acc pos rest hclose ih =>
    have := ih h
    simp only [List.length_cons]
    omega
  | case4 => cases h
  | case5 => cases h
  | case6 acc pos c d rest h1 hc h2 hd hclose hstar ih =>
    have := ih h
    simp only [List.length_cons]
    omega
  | case7 => cases h
  | case8 acc pos b rest hclose hstar hescape ih =>
    have := ih h
    simp only [List.length_cons]
    omega

theorem parseValue_length {value : ValueTokens} (h : parseValue c = .ok (value, c')) :
  c'.rest.length ≤ c.rest.length
  := by
  simp only [parseValue] at h
  split at h
  case h_1 => cases h
  case h_2 acc c₁ hc₁ =>
    cases h
    apply parseValueLoop_length hc₁

/-! ### Reading filters -/

def isWhitespace (c : Char) : Bool :=
  let n := c.toNat
  (0x09 ≤ n && n ≤ 0x0D) || n = 0x20 || n = 0x85 || n = 0xA0 || n = 0x1680
    || (0x2000 ≤ n && n ≤ 0x200A) || n = 0x2028 || n = 0x2029 || n = 0x202F || n = 0x205F
    || n = 0x3000

def trim (s : String) : String :=
  String.ofList (((s.toList.dropWhile isWhitespace).reverse.dropWhile isWhitespace).reverse)

def endsAttr (b : UInt8) : Bool :=
  b = 0x3D || b = 0x3C || b = 0x3E || b = 0x7E || b = 0x29

/-- The place after an operator that starts with the given byte. -/
def parseOperator (op : UInt8) (c : Cursor) : Except FilterParseError Cursor :=
  if op = 0x3C ∨ op = 0x3E ∨ op = 0x7E then
    match c.rest with
    | b :: rest =>
      if b = 0x3D then
        .ok ⟨c.pos + 1, rest⟩
      else
        .error (.unsupportedOperator (Char.ofNat op.toNat) c.pos)
    | [] => .error (.unsupportedOperator (Char.ofNat op.toNat) c.pos)
  else if op = 0x3D then
    .ok c
  else
    .error (.unsupportedOperator (Char.ofNat op.toNat) c.pos)

def simpleFilter (attr : String) (op : UInt8) (value : ValueTokens) : Filter :=
  if op = 0x3D then
    match value with
    | .present => .present attr
    | .substrings subs => .substrings attr subs
    | .single v => .equality attr v
  else if op = 0x3E then
    .greaterOrEqual attr value.intoBytes
  else if op = 0x3C then
    .lessOrEqual attr value.intoBytes
  else
    .approx attr value.intoBytes

def parseSimpleFilter (c : Cursor) : Except FilterParseError (Filter × Cursor) :=
  let attrBytes := c.rest.takeWhile (!endsAttr ·)
  let pos := c.pos + attrBytes.length
  match c.rest.dropWhile (!endsAttr ·) with
  | [] => .error (.unexpectedEof pos)
  | op :: rest =>
    match fromUtf8 attrBytes with
    | none => .error (.invalidEscape c.pos)
    | some s =>
      let attr := trim s
      if attr.isEmpty then
        .error (.empty c.pos)
      else
        match parseOperator op ⟨pos + 1, rest⟩ with
        | .error e => .error e
        | .ok c =>
          match parseValue c with
          | .error e => .error e
          | .ok (value, c) => .ok (simpleFilter attr op value, c)

theorem parseOperator_length {op : UInt8} (h : parseOperator op c = .ok c') :
  c'.rest.length ≤ c.rest.length
  := by
  unfold parseOperator at h
  split at h
  · split at h
    case h_1 b rest hrest =>
      split at h
      · cases h
        simp [hrest]
      · cases h
    case h_2 => cases h
  · split at h
    · cases h
      apply Nat.le_refl
    · cases h

theorem parseSimpleFilter_length {filter : Filter} (h : parseSimpleFilter c = .ok (filter, c')) :
  c'.rest.length < c.rest.length
  := by
  simp only [parseSimpleFilter] at h
  split at h
  case h_1 => cases h
  case h_2 op rest hop =>
    split at h
    case h_1 => cases h
    case h_2 s hs =>
      split at h
      · cases h
      · have hlen := (List.dropWhile_suffix (!endsAttr ·) (l := c.rest)).length_le
        rw [hop] at hlen
        split at h
        case h_1 => cases h
        case h_2 c₁ hc₁ =>
          have hlen₁ := parseOperator_length hc₁
          split at h
          case h_1 => cases h
          case h_2 value c₂ hc₂ =>
            cases h
            have hlen₂ := parseValue_length hc₂
            simp only [List.length_cons] at hlen hlen₁
            omega

/-- A place with fewer than the given number of bytes left. -/
abbrev Within (n : ℕ) : Type :=
  { c : Cursor // c.rest.length < n }

def expectCloseParen : (c : Cursor) → Except FilterParseError (Within c.rest.length)
  | ⟨pos, []⟩ => .error (.unexpectedEof pos)
  | ⟨pos, b :: rest⟩ =>
    if b = 0x29 then
      .ok ⟨⟨pos + 1, rest⟩, Nat.lt_add_one _⟩
    else
      .error (.expectedCloseParen pos)

mutual

def parseFilterInner : (c : Cursor) → Except FilterParseError (Filter × Within c.rest.length)
  | ⟨pos, []⟩ => .error (.unexpectedEof pos)
  | ⟨pos, [b]⟩ =>
    if b = 0x28 then .error (.unexpectedEof (pos + 1)) else .error (.expectedOpenParen pos)
  | ⟨pos, b :: sign :: rest⟩ =>
    if b ≠ 0x28 then
      .error (.expectedOpenParen pos)
    else if sign = 0x26 ∨ sign = 0x7C then
      match parseSubs ⟨pos + 2, rest⟩ with
      | .error e => .error e
      | .ok (subs, ⟨c, hc⟩) =>
        if subs.isEmpty then
          .error (.empty c.pos)
        else
          match expectCloseParen c with
          | .error e => .error e
          | .ok ⟨c', hc'⟩ =>
            .ok (if sign = 0x26 then .and subs else .or subs,
              ⟨c', by simp only [List.length_cons] at *; omega⟩)
    else if sign = 0x21 then
      match parseFilterInner ⟨pos + 2, rest⟩ with
      | .error e => .error e
      | .ok (inner, ⟨c, hc⟩) =>
        match expectCloseParen c with
        | .error e => .error e
        | .ok ⟨c', hc'⟩ => .ok (.not inner, ⟨c', by simp only [List.length_cons] at *; omega⟩)
    else
      match h : parseSimpleFilter ⟨pos + 1, sign :: rest⟩ with
      | .error e => .error e
      | .ok (filter, c) =>
        have hc := parseSimpleFilter_length h
        match expectCloseParen c with
        | .error e => .error e
        | .ok ⟨c', hc'⟩ => .ok (filter, ⟨c', by simp only [List.length_cons] at *; omega⟩)
termination_by c => (c.rest.length, 0)

def parseSubs (c : Cursor) : Except FilterParseError (List Filter × Within (c.rest.length + 1)) :=
  if c.rest.head? = some 0x28 then
    match parseFilterInner c with
    | .error e => .error e
    | .ok (filter, ⟨c', hc'⟩) =>
      match parseSubs c' with
      | .error e => .error e
      | .ok (filters, ⟨c'', hc''⟩) => .ok (filter :: filters, ⟨c'', by omega⟩)
  else
    .ok ([], ⟨c, Nat.lt_add_one _⟩)
termination_by (c.rest.length, 1)

end

def isAsciiWhitespace (b : UInt8) : Bool :=
  b = 0x20 || b = 0x09 || b = 0x0A || b = 0x0C || b = 0x0D

def skipWhitespace (c : Cursor) : Cursor :=
  ⟨c.pos + (c.rest.takeWhile isAsciiWhitespace).length, c.rest.dropWhile isAsciiWhitespace⟩

def parseFilter (s : String) : Except FilterParseError Filter :=
  match parseFilterInner (skipWhitespace ⟨0, asBytes s⟩) with
  | .error e => .error e
  | .ok (filter, ⟨c, _⟩) =>
    let c := skipWhitespace c
    if c.rest.isEmpty then .ok filter else .error (.trailingData c.pos)

end Ldap
