import Adrian.Lib.Bytes
import Adrian.Lib.Splice

/-!
# Cursors

A cursor reads a buffer from a position on, and a writer appends to a buffer.  `Reads w r a` says
that from wherever `w` writes, `r` reads `a` and ends where `w` ended, whatever comes after.

`Decodes buf w r x` is for a cursor that also looks at places of the message that it finds by their
offsets: `x` is what `r` returns where `w` writes after `buf`.
-/

abbrev Cursor (ε α : Type) : Type :=
  ReaderT Bytes (StateT ℕ (Except ε)) α

abbrev ByteWriter : Type :=
  StateM Bytes Unit

namespace ByteWriter

def out (w : ByteWriter) (buf : Bytes) : Bytes :=
  (w.run buf).2

def bytes (w : ByteWriter) : Bytes :=
  w.out []

def put (bs : Bytes) : ByteWriter :=
  modify fun buf => buf ++ bs

@[simp]
theorem out_pure (buf : Bytes) :
  out (pure ()) buf = buf
  := rfl

@[simp]
theorem out_bind (w : ByteWriter) (w' : Unit → ByteWriter) (buf : Bytes) :
  out (w >>= w') buf = (w' ()).out (w.out buf)
  := rfl

@[simp]
theorem out_put (bs buf : Bytes) :
  (put bs).out buf = buf ++ bs
  := rfl

variable {ι : Type} {w : ι → ByteWriter}

theorem out_forM {f : ι → Bytes} (h : ∀ i buf, (w i).out buf = buf ++ f i) (is : List ι)
    (buf : Bytes) :
  out (is.forM w) buf = buf ++ is.flatMap f
  := by
  induction is generalizing buf with
  | nil =>
    rw [List.flatMap_nil, List.append_nil]
    rfl
  | cons i is ih =>
    rw [List.flatMap_cons, ← List.append_assoc, ← h, ← ih]
    rfl

theorem out_forM_congr {w' : ι → ByteWriter} {P : Bytes → Prop}
    (h : ∀ i buf, P buf → (w i).out buf = (w' i).out buf)
    (hnext : ∀ i buf, P buf → P ((w i).out buf)) (is : List ι) {buf : Bytes} (hbuf : P buf) :
  out (is.forM w) buf = out (is.forM w') buf
  := by
  induction is generalizing buf with
  | nil => rfl
  | cons i is ih =>
    change out (is.forM w) ((w i).out buf) = out (is.forM w') ((w' i).out buf)
    rw [← h i buf hbuf]
    apply ih (hnext i buf hbuf)

/-! ### Placeholders -/

def Positional (w : ByteWriter) : Prop :=
  ∃ f : ℕ → Bytes, ∀ buf, w.out buf = buf ++ f buf.length

theorem positional_put (bs : Bytes) :
  Positional (put bs)
  := ⟨fun _ => bs, fun _ => rfl⟩

namespace Positional

theorem bind {w w' : ByteWriter} (h : w.Positional) (h' : w'.Positional) :
  Positional (w >>= fun _ => w')
  := by
  obtain ⟨f, hf⟩ := h
  obtain ⟨f', hf'⟩ := h'
  use fun pos => f pos ++ f' (pos + (f pos).length)
  intro buf
  rw [out_bind, hf', hf, List.length_append, List.append_assoc]

theorem forM (h : ∀ i, (w i).Positional) (is : List ι) :
  Positional (is.forM w)
  := by
  induction is with
  | nil => exact ⟨fun _ => [], fun buf => (List.append_nil buf).symm⟩
  | cons i is ih => apply (h i).bind ih

theorem splice {w : ByteWriter} (h : w.Positional) {pre old new : Bytes}
    (hlength : new.length = old.length) :
  (bytes (put pre >>= fun _ => put old >>= fun _ => w)).splice pre.length new
    = bytes (put pre >>= fun _ => put new >>= fun _ => w)
  := by
  obtain ⟨f, hf⟩ := h
  have hpos : (pre ++ old).length = (pre ++ new).length := by
    rw [List.length_append, List.length_append, hlength]
  simp only [bytes, out_bind, out_put, hf, List.nil_append, List.append_assoc, hpos]
  have hsplice := List.splice_append pre old (f (pre ++ new).length) new (k := 0) (by omega)
  rw [Nat.add_zero] at hsplice
  rw [hsplice, List.splice, List.take_zero, Nat.zero_add, hlength, List.drop_length,
    List.append_nil, List.nil_append]

end Positional

end ByteWriter

namespace Cursor

variable {ε α β : Type}

def fail (e : ε) : Cursor ε α :=
  fun _ _ => .error e

def many (r : Cursor ε α) : ℕ → Cursor ε (List α)
  | 0 => pure []
  | n + 1 => do
    let a ← r
    let as ← many r n
    pure (a :: as)

theorem run_bind (r : Cursor ε α) (f : α → Cursor ε β) (buf : Bytes) (pos : ℕ) :
  (r >>= f) buf pos = r buf pos >>= fun p => f p.1 buf p.2
  := rfl

/-- From wherever `w` writes, `r` reads `a` and ends where `w` ended, whatever comes after. -/
structure Reads (w : ByteWriter) (r : Cursor ε α) (a : α) : Prop where
  grows : ∀ buf, buf <+: w.out buf
  reads : ∀ buf rest, r (w.out buf ++ rest) buf.length = .ok (a, (w.out buf).length)

namespace Reads

variable {w w' : ByteWriter} {r : Cursor ε α} {a : α}

theorem pure (a : α) :
  Reads (Pure.pure ()) (Pure.pure a : Cursor ε α) a
  where
  grows _ := List.prefix_rfl
  reads _ _ := rfl

theorem bind {f : α → Cursor ε β} {b : β} (h : Reads w r a) (h' : Reads w' (f a) b) :
  Reads (w >>= fun _ => w') (r >>= f) b
  where
  grows buf := (h.grows buf).trans (h'.grows _)
  reads buf rest := by
    obtain ⟨more, hmore⟩ := h'.grows (w.out buf)
    have hfirst := h.reads buf (more ++ rest)
    rw [← List.append_assoc, hmore] at hfirst
    rw [ByteWriter.out_bind, run_bind, hfirst]
    apply h'.reads

theorem then_pure {f : α → Cursor ε β} {b : β} (h : Reads w r a) (hf : f a = Pure.pure b) :
  Reads w (r >>= f) b
  where
  grows := h.grows
  reads buf rest := by
    rw [run_bind, h.reads]
    change f a _ _ = _
    rw [hf]
    rfl

theorem map {f : α → β} (h : Reads w r a) :
  Reads w (r >>= fun a => Pure.pure (f a)) (f a)
  := h.then_pure rfl

theorem of_out_eq (h : Reads w r a) (hout : ∀ buf, w'.out buf = w.out buf) :
  Reads w' r a
  where
  grows buf := by
    rw [hout]
    apply h.grows
  reads buf rest := by
    rw [hout]
    apply h.reads

theorem of_put {bs : Bytes}
    (h : ∀ buf rest, r (buf ++ bs ++ rest) buf.length = .ok (a, buf.length + bs.length)) :
  Reads (ByteWriter.put bs) r a
  where
  grows buf := List.prefix_append buf bs
  reads buf rest := by
    rw [ByteWriter.out_put, h, List.length_append]

theorem many {ι : Type} {write : ι → ByteWriter} {item : ι → α} {is : List ι}
    (h : ∀ i ∈ is, Reads (write i) r (item i)) :
  Reads (is.forM write) (r.many is.length) (is.map item)
  := by
  induction is with
  | nil => apply pure
  | cons i is ih =>
    have his : Reads (is.forM write) (r.many is.length) (is.map item) := by
      apply ih
      intro j hj
      apply h j (List.mem_cons_of_mem i hj)
    apply (h i List.mem_cons_self).bind his.map

theorem items {write : α → ByteWriter} {is : List α} {n : ℕ} (hn : n = is.length)
    (h : ∀ i ∈ is, Reads (write i) r i) :
  Reads (is.forM write) (r.many n) is
  := by
  have hmany := many h
  rw [List.map_id'] at hmany
  rw [hn]
  apply hmany

end Reads

/-- Where `w` writes after `buf` and nothing comes after that, `r` returns `x`. -/
structure Decodes (buf : Bytes) (w : ByteWriter) (r : Cursor ε α) (x : Except ε α) :
    Prop where
  grows : buf <+: w.out buf
  decodes : (r (w.out buf) buf.length).map Prod.fst = x

theorem Reads.decodes {w w' : ByteWriter} {r : Cursor ε α} {a : α} {f : α → Cursor ε β}
    {x : Except ε β} {buf : Bytes} (h : Reads w r a)
    (h' : Decodes (w.out buf) w' (f a) x) :
  Decodes buf (w >>= fun _ => w') (r >>= f) x
  where
  grows := (h.grows buf).trans h'.grows
  decodes := by
    obtain ⟨more, hmore⟩ := h'.grows
    have hfirst := h.reads buf more
    rw [hmore] at hfirst
    rw [ByteWriter.out_bind, run_bind, hfirst]
    apply h'.decodes

theorem Reads.decodes_last {w : ByteWriter} {r : Cursor ε α} {a : α} {f : α → Cursor ε β}
    {x : Except ε β} {buf : Bytes} (h : Reads w r a)
    (h' : (f a (w.out buf) (w.out buf).length).map Prod.fst = x) :
  Decodes buf w (r >>= f) x
  where
  grows := h.grows buf
  decodes := by
    have hread := h.reads buf []
    rw [List.append_nil] at hread
    rw [run_bind, hread]
    apply h'

namespace Decodes

variable {buf : Bytes} {w w' : ByteWriter} {r : Cursor ε α} {x : Except ε α}

theorem pure (h : buf <+: w.out buf) (a : α) :
  Decodes buf w (Pure.pure a : Cursor ε α) (.ok a)
  where
  grows := h
  decodes := rfl

theorem of_out_eq (h : Decodes buf w r x) (hout : w'.out buf = w.out buf) :
  Decodes buf w' r x
  where
  grows := by
    rw [hout]
    apply h.grows
  decodes := by
    rw [hout]
    apply h.decodes

end Decodes

end Cursor
