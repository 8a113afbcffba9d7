import Adrian.Lib.Json
import Mathlib.Data.Option.Basic
import Mathlib.Logic.Equiv.Defs

/-!
# Typed JSON documents

A codec writes the values of a type as documents and reads documents as values.

Where a document reads as `a`, the document that was patched with `b` reads as `patched a b`: a
number, a string or a list of the patch takes the place of the one there was, and a record is
patched field by field.
-/

structure JsonCodec (α : Type) where
  toJson : α → Json
  fromJson : Json → Option α
  /-- What is read where there is nothing. -/
  initial : α
  /-- What a patch makes of a value. -/
  patched : α → α → α
  isNull_toJson : ∀ a, (toJson a).isNull = false
  fromJson_null : fromJson .null = some initial
  fromJson_toJson : ∀ a, fromJson (toJson a) = some a
  fromJson_overlay : ∀ {target a}, fromJson target = some a → ∀ b,
    fromJson (target.overlay (toJson b)) = some (patched a b)

namespace JsonCodec

variable {α β : Type}

theorem fromJson_mergePatch (c : JsonCodec α) {target : Json} {a : α}
    (h : c.fromJson target = some a) (b : α) :
  c.fromJson (target.mergePatch (c.toJson b)) = some (c.patched a b)
  := by
  have hpatched := c.fromJson_overlay h b
  rw [Json.overlay, c.isNull_toJson, if_neg Bool.false_ne_true] at hpatched
  apply hpatched

/-! ### Values that replace each other -/

/-- The document is neither missing nor patched field by field. -/
def IsWhole : Json → Prop
  | .null => False
  | .obj _ => False
  | _ => True

theorem IsWhole.isNull {json : Json} (h : IsWhole json) :
  json.isNull = false
  := by
  cases json with
  | null => cases h
  | _ => rfl

theorem IsWhole.overlay {json : Json} (h : IsWhole json) (target : Json) :
  target.overlay json = json
  := by
  cases json with
  | null => cases h
  | obj fields => cases h
  | _ => rfl

def whole (initial : α) (write : α → Json) (read : Json → Option α)
    (hwrite : ∀ a, IsWhole (write a)) (hread : ∀ a, read (write a) = some a) : JsonCodec α where
  toJson := write
  fromJson json := if json.isNull then some initial else read json
  initial := initial
  patched _ b := b
  isNull_toJson a := (hwrite a).isNull
  fromJson_null := rfl
  fromJson_toJson a := by
    rw [(hwrite a).isNull, if_neg Bool.false_ne_true, hread]
  fromJson_overlay _ b := by
    rw [(hwrite b).overlay, (hwrite b).isNull, if_neg Bool.false_ne_true, hread]

def readString : Json → Option String
  | .str s => some s
  | _ => none

def string : JsonCodec String :=
  whole "" .str readString (fun _ => trivial) (fun _ => rfl)

def readInt32 : Json → Option Int32
  | .num n => if Int32.toInt (Int32.ofInt n) = n then some (Int32.ofInt n) else none
  | _ => none

theorem readInt32_toInt (n : Int32) :
  readInt32 (.num n.toInt) = some n
  := by
  rw [readInt32, Int32.ofInt_toInt, if_pos rfl]

def int32 : JsonCodec Int32 :=
  whole 0 (fun n => .num n.toInt) readInt32 (fun _ => trivial) readInt32_toInt

def readInt64 : Json → Option Int64
  | .num n => if Int64.toInt (Int64.ofInt n) = n then some (Int64.ofInt n) else none
  | _ => none

theorem readInt64_toInt (n : Int64) :
  readInt64 (.num n.toInt) = some n
  := by
  rw [readInt64, Int64.ofInt_toInt, if_pos rfl]

def int64 : JsonCodec Int64 :=
  whole 0 (fun n => .num n.toInt) readInt64 (fun _ => trivial) readInt64_toInt

def readList (c : JsonCodec α) : Json → Option (List α)
  | .arr items => items.mapM fun item => if item.isNull then none else c.fromJson item
  | _ => none

theorem readList_map (c : JsonCodec α) (as : List α) :
  readList c (.arr (as.map c.toJson)) = some as
  := by
  rw [readList]
  induction as with
  | nil => rfl
  | cons a as ih =>
    rw [List.map_cons, List.mapM_cons, c.isNull_toJson, if_neg Bool.false_ne_true,
      c.fromJson_toJson, ih]
    rfl

def list (c : JsonCodec α) : JsonCodec (List α) :=
  whole [] (fun as => .arr (as.map c.toJson)) (readList c) (fun _ => trivial) (readList_map c)

theorem isNull_overlay {patch : Json} (h : patch.isNull = false) (target : Json) :
  (target.overlay patch).isNull = false
  := by
  rw [Json.overlay, h, if_neg Bool.false_ne_true]
  cases patch with
  | null => cases h
  | _ => rfl

def toOptional (c : JsonCodec α) : Option α → Json
  | none => .null
  | some a => c.toJson a

def fromOptional (c : JsonCodec α) (json : Json) : Option (Option α) :=
  if json.isNull then some none else (c.fromJson json).map some

def patchedOptional (c : JsonCodec α) (a : Option α) : Option α → Option α
  | none => a
  | some b => some (c.patched (a.getD c.initial) b)

theorem fromOptional_toOptional (c : JsonCodec α) (a : Option α) :
  c.fromOptional (c.toOptional a) = some a
  := by
  cases a with
  | none => rfl
  | some a =>
    rw [toOptional, fromOptional, c.isNull_toJson, if_neg Bool.false_ne_true, c.fromJson_toJson,
      Option.map_some]

theorem fromOptional_overlay (c : JsonCodec α) {target : Json} {a : Option α}
    (h : c.fromOptional target = some a) (b : Option α) :
  c.fromOptional (target.overlay (c.toOptional b)) = some (c.patchedOptional a b)
  := by
  cases b with
  | none => apply h
  | some b =>
    -- where there was nothing, the patch is one of the initial value
    have hread : c.fromJson target = some (a.getD c.initial) := by
      rw [fromOptional] at h
      split_ifs at h with hnull
      · obtain rfl := Option.some.inj h
        rw [Json.eq_null hnull, c.fromJson_null]
        rfl
      · obtain ⟨a', ha', rfl⟩ := Option.map_eq_some_iff.mp h
        apply ha'
    rw [toOptional, fromOptional, isNull_overlay (c.isNull_toJson b), if_neg Bool.false_ne_true,
      c.fromJson_overlay hread, Option.map_some, patchedOptional]

/-! ### Maps -/

def insertEntry (m : List (String × String)) (e : String × String) : List (String × String) :=
  e :: m.filter fun f => f.1 ≠ e.1

def readEntry (f : String × Json) : Option (String × String) :=
  (readString f.2).map fun s => (f.1, s)

def writeEntry (e : String × String) : String × Json :=
  (e.1, .str e.2)

def readMap : Json → Option (List (String × String))
  | .null => some []
  | .obj fields => fields.mapM readEntry
  | _ => none

theorem mapM_readEntry_write (m : List (String × String)) :
  (m.map writeEntry).mapM readEntry = some m
  := by
  induction m with
  | nil => rfl
  | cons e m ih =>
    rw [List.map_cons, List.mapM_cons, ih]
    rfl

theorem mapM_readEntry_remove {fields : List (String × Json)} {m : List (String × String)}
    (h : fields.mapM readEntry = some m) (name : String) :
  (Json.remove fields name).mapM readEntry = some (m.filter fun e => e.1 ≠ name)
  := by
  induction fields generalizing m with
  | nil =>
    cases h
    rfl
  | cons f fields ih =>
    rw [List.mapM_cons] at h
    obtain ⟨e, he, htail⟩ := Option.bind_eq_some_iff.mp h
    obtain ⟨rest, hrest, hm⟩ := Option.bind_eq_some_iff.mp htail
    obtain rfl := Option.some.inj hm
    obtain ⟨s, -, hes⟩ := Option.map_eq_some_iff.mp he
    have hname : e.1 = f.1 := by rw [← hes]
    have hih := ih hrest
    rw [Json.remove] at hih ⊢
    by_cases hf : f.1 = name
    · rw [List.filter_cons_of_neg (by simpa), List.filter_cons_of_neg (by simpa [hname])]
      apply hih
    · rw [List.filter_cons_of_pos (by simpa), List.filter_cons_of_pos (by simpa [hname]),
        List.mapM_cons, he, hih]
      rfl

theorem mapM_readEntry_mergeFields {fields : List (String × Json)} {m : List (String × String)}
    (h : fields.mapM readEntry = some m) (b : List (String × String)) :
  (Json.mergeFields fields (b.map writeEntry)).mapM readEntry = some (b.foldl insertEntry m)
  := by
  induction b generalizing fields m with
  | nil => apply h
  | cons e b ih =>
    rw [List.map_cons, Json.mergeFields, List.foldl_cons]
    apply ih
    have hrest := mapM_readEntry_remove h e.1
    change List.mapM readEntry ((e.1, .str e.2) :: Json.remove fields e.1) = _
    rw [List.mapM_cons, hrest]
    rfl

def map : JsonCodec (List (String × String)) where
  toJson m := .obj (m.map writeEntry)
  fromJson := readMap
  initial := []
  patched a b := b.foldl insertEntry a
  isNull_toJson _ := rfl
  fromJson_null := rfl
  fromJson_toJson m := mapM_readEntry_write m
  fromJson_overlay {target a} htarget b := by
    cases target with
    | null =>
      cases htarget
      apply mapM_readEntry_mergeFields rfl b
    | obj fields => apply mapM_readEntry_mergeFields htarget b
    | _ => cases htarget

end JsonCodec

structure JsonRecord (α : Type) where
  names : List String
  write : α → List (String × Json)
  read : Json → Option α
  initial : α
  patched : α → α → α
  names_write : ∀ a, (write a).map Prod.fst = names
  read_null : read .null = some initial
  read_write : ∀ {json a}, (∀ f ∈ write a, json.field f.1 = f.2) → read json = some a
  read_over : ∀ {target json a}, read target = some a → ∀ b,
    (∀ f ∈ write b, json.field f.1 = (target.field f.1).overlay f.2) →
      read json = some (patched a b)

namespace JsonRecord

variable {α β : Type}

def field (name : String) (c : JsonCodec α) : JsonRecord α where
  names := [name]
  write a := [(name, c.toJson a)]
  read json := c.fromJson (json.field name)
  initial := c.initial
  patched := c.patched
  names_write _ := rfl
  read_null := c.fromJson_null
  read_write h := by
    rw [h _ (List.mem_singleton_self _), c.fromJson_toJson]
  read_over h b hjson := by
    rw [hjson _ (List.mem_singleton_self _), c.fromJson_overlay h]

def optional (name : String) (c : JsonCodec α) : JsonRecord (Option α) where
  names := [name]
  write a := [(name, c.toOptional a)]
  read json := c.fromOptional (json.field name)
  initial := none
  patched := c.patchedOptional
  names_write _ := rfl
  read_null := rfl
  read_write h := by
    rw [h _ (List.mem_singleton_self _), c.fromOptional_toOptional]
  read_over h b hjson := by
    rw [hjson _ (List.mem_singleton_self _), c.fromOptional_overlay h]

def readConstant (value : String) : Json → Option Unit
  | .null => some ()
  | .str s => if s = value then some () else none
  | _ => none

/-- A field that has the same value in all documents, and that may be missing. -/
def constant (name value : String) : JsonRecord Unit where
  names := [name]
  write _ := [(name, .str value)]
  read json := readConstant value (json.field name)
  initial := ()
  patched _ _ := ()
  names_write _ := rfl
  read_null := rfl
  read_write h := by
    rw [h _ (List.mem_singleton_self _), readConstant, if_pos rfl]
  read_over _ b hjson := by
    rw [hjson (name, .str value) (List.mem_singleton_self _)]
    apply if_pos rfl

def and (r : JsonRecord α) (s : JsonRecord β) : JsonRecord (α × β) where
  names := r.names ++ s.names
  write p := r.write p.1 ++ s.write p.2
  read json := (r.read json).bind fun a => (s.read json).map fun b => (a, b)
  initial := (r.initial, s.initial)
  patched p q := (r.patched p.1 q.1, s.patched p.2 q.2)
  names_write p := by
    rw [List.map_append, r.names_write, s.names_write]
  read_null := by
    rw [r.read_null, s.read_null]
    rfl
  read_write {json p} h := by
    obtain ⟨hr, hs⟩ := List.forall_mem_append.mp h
    rw [r.read_write hr, s.read_write hs]
    rfl
  read_over {target json p} htarget q hjson := by
    obtain ⟨hr, hs⟩ := List.forall_mem_append.mp hjson
    obtain ⟨a, ha, hrest⟩ := Option.bind_eq_some_iff.mp htarget
    obtain ⟨b, hb, rfl⟩ := Option.map_eq_some_iff.mp hrest
    rw [r.read_over ha q.1 hr, s.read_over hb q.2 hs]
    rfl

def equiv (r : JsonRecord α) (e : α ≃ β) : JsonRecord β where
  names := r.names
  write b := r.write (e.symm b)
  read json := (r.read json).map e
  initial := e r.initial
  patched b b' := e (r.patched (e.symm b) (e.symm b'))
  names_write b := r.names_write (e.symm b)
  read_null := by
    rw [r.read_null, Option.map_some]
  read_write h := by
    rw [r.read_write h, Option.map_some, e.apply_symm_apply]
  read_over {target json b} htarget b' hjson := by
    obtain ⟨a, ha, rfl⟩ := Option.map_eq_some_iff.mp htarget
    rw [r.read_over ha _ hjson, Option.map_some, e.symm_apply_apply]

def codec (r : JsonRecord α) (h : r.names.Nodup) : JsonCodec α where
  toJson a := .ofFields (r.write a)
  fromJson
    | .null => some r.initial
    | .obj fields => r.read (.obj fields)
    | _ => none
  initial := r.initial
  patched := r.patched
  isNull_toJson _ := rfl
  fromJson_null := rfl
  fromJson_toJson a := by
    have hnodup : ((r.write a).map Prod.fst).Nodup := by
      rw [r.names_write]
      apply h
    apply r.read_write
    intro f hf
    change (Json.ofFields (r.write a)).field f.1 = f.2
    rw [Json.field_ofFields hnodup, Json.field_of_mem hnodup hf]
  fromJson_overlay {target a} htarget b := by
    have hnodup : ((r.write b).map Prod.fst).Nodup := by
      rw [r.names_write]
      apply h
    have hread : r.read target = some a := by
      cases target with
      | null => rw [r.read_null, ← htarget]
      | obj fields => apply htarget
      | _ => cases htarget
    apply r.read_over hread
    intro f hf
    change (target.mergePatch (.ofFields (r.write b))).field f.1 = _
    rw [Json.field_mergePatch_ofFields hnodup, Json.field_of_mem hnodup hf]

end JsonRecord
