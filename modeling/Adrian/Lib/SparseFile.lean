import Adrian.Lib.Splice
import Mathlib.Algebra.Notation.Defs
import Mathlib.Data.List.GetD

/-!
# Sparse files

A sparse file has a size and an entry at every position, which is zero from the size on.  Writing
puts entries in place of those that were there and makes the file large enough for them; what lies
between the end of the file and the first entry written stays zero.

`ofList l` is the file with the entries of a list.
-/

@[ext]
structure SparseFile (α : Type*) [Zero α] where
  size : ℕ
  entry : ℕ → α
  entry_of_size_le : ∀ i, size ≤ i → entry i = 0

namespace SparseFile

variable {α : Type*} [Zero α]

def empty : SparseFile α where
  size := 0
  entry _ := 0
  entry_of_size_le _ _ := rfl

def write (file : SparseFile α) (off : ℕ) (data : List α) : SparseFile α where
  size := max file.size (off + data.length)
  entry i := if off ≤ i ∧ i < off + data.length then data.getD (i - off) 0 else file.entry i
  entry_of_size_le i hi := by
    rw [if_neg (by omega), file.entry_of_size_le i (by omega)]

def read (file : SparseFile α) (off length : ℕ) : List α :=
  (List.range' off (min (off + length) file.size - off)).map file.entry

def ofList (l : List α) : SparseFile α where
  size := l.length
  entry i := l.getD i 0
  entry_of_size_le i hi := by
    rw [List.getD_eq_default l 0 hi]

theorem ofList_nil :
  ofList ([] : List α) = empty
  := rfl

theorem read_ofList (l : List α) (off length : ℕ) :
  (ofList l).read off length = (l.drop off).take length
  := by
  apply List.ext_getElem?
  intro i
  simp only [read, ofList, List.getElem?_map, List.getElem?_take, List.getElem?_drop]
  by_cases hi : i < min (off + length) l.length - off
  · rw [List.getElem?_range' hi, if_pos (by omega), Nat.one_mul]
    rw [List.getElem?_eq_getElem (by omega), Option.map_some, List.getD_eq_getElem l 0 (by omega)]
  · rw [List.getElem?_eq_none (by rw [List.length_range']; omega), Option.map_none]
    split_ifs with hlength
    · rw [List.getElem?_eq_none (by omega)]
    · rfl

theorem write_ofList (l data : List α) (off : ℕ) :
  (ofList l).write off data
    = ofList ((l ++ List.replicate (off + data.length - l.length) 0).splice off data)
  := by
  have hlength : (l ++ List.replicate (off + data.length - l.length) (0 : α)).length
      = max l.length (off + data.length) := by
    rw [List.length_append, List.length_replicate]
    omega
  have hle : off + data.length
      ≤ (l ++ List.replicate (off + data.length - l.length) (0 : α)).length := by
    rw [hlength]
    omega
  apply SparseFile.ext
  · simp only [write, ofList, List.length_splice hle, hlength]
  · funext i
    simp only [write, ofList, List.getD_eq_getElem?_getD]
    split_ifs with hi
    · rw [List.getElem?_splice_of_mem hle hi.1 hi.2]
    · rw [List.getElem?_splice_of_not_mem hle (by omega)]
      by_cases hi : i < l.length
      · rw [List.getElem?_append_left hi]
      · rw [List.getElem?_append_right (by omega), List.getElem?_eq_none (by omega),
          List.getElem?_replicate]
        split_ifs <;> rfl

end SparseFile
