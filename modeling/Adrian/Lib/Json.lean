import Mathlib.Data.Int.Notation
import Mathlib.Data.List.Basic

/-!
# JSON documents and merge patches

An object is a list of fields; a field that is missing reads as `null`.  A merge patch is a document
that says what another one becomes: an object changes the fields that it has, removes those that it
has as `null`, and leaves the others, and everything else takes the place of what was there.
-/

inductive Json where
  | null
  | bool (b : Bool)
  | num (n : ℤ)
  | str (s : String)
  | arr (items : List Json)
  | obj (fields : List (String × Json))

namespace Json

def isNull : Json → Bool
  | .null => true
  | _ => false

theorem eq_null {json : Json} (h : json.isNull = true) :
  json = .null
  := by
  cases json with
  | null => rfl
  | _ => cases h

def fields : Json → List (String × Json)
  | .obj fields => fields
  | _ => []

def field (json : Json) (name : String) : Json :=
  (json.fields.lookup name).getD .null

def remove (fields : List (String × Json)) (name : String) : List (String × Json) :=
  fields.filter fun f => f.1 ≠ name

def set (fields : List (String × Json)) (name : String) (value : Json) : List (String × Json) :=
  (name, value) :: remove fields name

mutual

def mergePatch (target : Json) : Json → Json
  | .obj patch => .obj (mergeFields target.fields patch)
  | patch => patch

def mergeFields (target : List (String × Json)) : List (String × Json) → List (String × Json)
  | [] => target
  | f :: patch => mergeFields (mergeField target f) patch

def mergeField (target : List (String × Json)) : String × Json → List (String × Json)
  | (name, value) =>
    if value.isNull then
      remove target name
    else
      set target name (mergePatch (Json.field (.obj target) name) value)

end

def ofFields (fields : List (String × Json)) : Json :=
  .obj (fields.filter fun f => !f.2.isNull)

def overlay (target patch : Json) : Json :=
  if patch.isNull then target else mergePatch target patch

@[simp]
theorem overlay_null (target : Json) :
  overlay target .null = target
  := rfl

theorem field_cons_self (name : String) (value : Json) (fields : List (String × Json)) :
  (obj ((name, value) :: fields)).field name = value
  := by
  rw [field, Json.fields, List.lookup_cons_self, Option.getD_some]

variable {name : String} {fields : List (String × Json)}

theorem field_cons_of_ne {other : String} (h : name ≠ other) (value : Json)
    (fields : List (String × Json)) :
  (obj ((other, value) :: fields)).field name = (obj fields).field name
  := by
  rw [field, Json.fields, List.lookup_cons, beq_false_of_ne h]
  rfl

theorem field_of_notMem (h : name ∉ fields.map Prod.fst) :
  (obj fields).field name = .null
  := by
  induction fields with
  | nil => rfl
  | cons f fields ih =>
    rw [List.map_cons, List.mem_cons, not_or] at h
    rw [field_cons_of_ne h.1, ih h.2]

theorem field_of_mem (h : (fields.map Prod.fst).Nodup) {f : String × Json} (hf : f ∈ fields) :
  (obj fields).field f.1 = f.2
  := by
  induction fields with
  | nil => cases hf
  | cons g fields ih =>
    obtain ⟨hg, hnodup⟩ := List.nodup_cons.mp h
    obtain rfl | hf := List.mem_cons.mp hf
    · apply field_cons_self
    · have hne : f.1 ≠ g.1 := by
        intro heq
        apply hg
        rw [← heq]
        apply List.mem_map_of_mem hf
      rw [field_cons_of_ne hne, ih hnodup hf]

theorem field_remove_of_ne {other : String} (h : name ≠ other) (fields : List (String × Json)) :
  (obj (remove fields other)).field name = (obj fields).field name
  := by
  rw [remove]
  induction fields with
  | nil => rfl
  | cons f fields ih =>
    obtain ⟨n, v⟩ := f
    by_cases hn : n = other
    · rw [List.filter_cons_of_neg (by simpa), ih, field_cons_of_ne (hn ▸ h)]
    · rw [List.filter_cons_of_pos (by simpa)]
      by_cases hname : name = n
      · rw [hname, field_cons_self, field_cons_self]
      · rw [field_cons_of_ne hname, field_cons_of_ne hname, ih]

theorem field_ofFields (h : (fields.map Prod.fst).Nodup) (name : String) :
  (ofFields fields).field name = (obj fields).field name
  := by
  rw [ofFields]
  induction fields with
  | nil => rfl
  | cons f fields ih =>
    obtain ⟨n, v⟩ := f
    obtain ⟨hn, hnodup⟩ := List.nodup_cons.mp h
    cases hv : v.isNull with
    | true =>
      rw [List.filter_cons_of_neg (by simp [hv]), ih hnodup]
      by_cases hname : name = n
      · rw [hname, field_cons_self, field_of_notMem hn, eq_null hv]
      · rw [field_cons_of_ne hname]
    | false =>
      rw [List.filter_cons_of_pos (by simp [hv])]
      by_cases hname : name = n
      · rw [hname, field_cons_self, field_cons_self]
      · rw [field_cons_of_ne hname, field_cons_of_ne hname, ih hnodup]

theorem field_mergePatch_ofFields (h : (fields.map Prod.fst).Nodup) (target : Json)
    (name : String) :
  (mergePatch target (ofFields fields)).field name
    = overlay (target.field name) ((obj fields).field name)
  := by
  have htarget : target.field name = (obj target.fields).field name := rfl
  rw [ofFields, mergePatch, htarget]
  generalize target.fields = t
  -- the fields of the patch are merged one by one into the target so far
  induction fields generalizing t with
  | nil => rfl
  | cons f fields ih =>
    obtain ⟨n, v⟩ := f
    obtain ⟨hn, hnodup⟩ := List.nodup_cons.mp h
    cases hv : v.isNull with
    | true =>
      rw [List.filter_cons_of_neg (by simp [hv]), ih hnodup]
      by_cases hname : name = n
      · rw [hname, field_cons_self, field_of_notMem hn, eq_null hv]
      · rw [field_cons_of_ne hname]
    | false =>
      rw [List.filter_cons_of_pos (by simp [hv]), mergeFields, ih hnodup, mergeField,
        if_neg (by simp [hv]), set]
      by_cases hname : name = n
      · rw [hname, field_cons_self, field_cons_self, field_of_notMem hn, overlay_null, overlay,
          if_neg (by simp [hv])]
      · rw [field_cons_of_ne hname, field_cons_of_ne hname, field_remove_of_ne hname]

end Json
