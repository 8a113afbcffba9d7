import Adrian.Storage.Counter

/-!
# The two backends of a store

A store is kept in memory or in FoundationDB.  The backends differ in what an addition does to
a counter when its transaction is committed: the in-memory backend leaves the sum, the other
one does if the carries of the addition agree from both sides.
-/

namespace Storage

open Std Overlay

/-- The backend of a store.  That of FoundationDB has the `ADD` mutation of the database. -/
inductive Backend where
  | inMemory
  | real (add : Option Value → Value → Value) (spec : LittleEndianAdd add)

namespace Backend

/-- The store after a transaction that began on it is committed, and whether the commit
succeeded.  The transaction has put no value under a key after it added to it. -/
def commit : Backend → InMemoryWriteTxn → Kv × Except StorageError Unit
  | inMemory, t => t.commit t.snapshot
  | real add _, t =>
    (t.atomicAdds.foldl (fun kv a => realAtomicAdd add a.1 kv a.2) (overlay t.snapshot t.writes),
      .ok ())

/-- The addition of a number to a counter with the given value leaves the sum. -/
def AddsExactly : Backend → Int64 → Int64 → Prop
  | inMemory, _, _ => True
  | real _ _, x, delta => CarriesMirror [x, delta]

instance (backend : Backend) (x delta : Int64) : Decidable (backend.AddsExactly x delta) :=
  match backend with
  | inMemory => isTrue trivial
  | real _ _ => inferInstanceAs (Decidable (CarriesMirror _))

variable {t : InMemoryWriteTxn} {k key : Key} {x : Int64}

theorem commit_of_nil (backend : Backend) (h : t.atomicAdds = []) :
  backend.commit t = (t.view, .ok ())
  := by
  cases backend with
  | inMemory =>
    rw [commit, InMemoryWriteTxn.commit, h, InMemoryWriteTxn.applyAdds, InMemoryWriteTxn.view]
  | real add spec => rw [commit, h, List.foldl_nil, InMemoryWriteTxn.view]

theorem getElem?_applyAdds {adds : List (Key × Int64)} (h : ∀ a ∈ adds, k ≠ a.1) (kv : Kv) :
  (InMemoryWriteTxn.applyAdds kv adds).1[k]? = kv[k]?
  := by
  induction adds generalizing kv with
  | nil => rfl
  | cons a adds ih =>
    obtain ⟨ha, hadds⟩ := List.forall_mem_cons.mp h
    simp only [InMemoryWriteTxn.applyAdds]
    split
    · rfl
    · rw [ih hadds, getElem?_insert_of_ne ha]

theorem getElem?_foldl_realAtomicAdd {add : Option Value → Value → Value}
    {adds : List (Key × Int64)} (h : ∀ a ∈ adds, k ≠ a.1) (kv : Kv) :
  (adds.foldl (fun kv a => realAtomicAdd add a.1 kv a.2) kv)[k]? = kv[k]?
  := by
  induction adds generalizing kv with
  | nil => rfl
  | cons a adds ih =>
    obtain ⟨ha, hadds⟩ := List.forall_mem_cons.mp h
    rw [List.foldl_cons, ih hadds, realAtomicAdd, getElem?_insert_of_ne ha]

theorem getElem?_commit_eq_view (backend : Backend) (hadds : ∀ a ∈ t.atomicAdds, k ≠ a.1) :
  (backend.commit t).1[k]? = t.view[k]?
  := by
  cases backend with
  | inMemory => apply getElem?_applyAdds hadds
  | real add spec => apply getElem?_foldl_realAtomicAdd hadds

theorem getElem?_commit (backend : Backend) (hview : t.view[k]? = t.snapshot[k]?)
    (hadds : ∀ a ∈ t.atomicAdds, k ≠ a.1) :
  (backend.commit t).1[k]? = t.snapshot[k]?
  := by
  rw [backend.getElem?_commit_eq_view hadds, hview]

theorem holdsColumns_singleton {kv : Kv} (h : kv[key]? = some (toBeBytes x)) :
  HoldsColumns kv key [x]
  := by
  have hcolumns := value_reverse_columns [] x
  have hself := Bytes.leBytes_ofLe (toBeBytes x)
  have hzero : Columns.value (columns []).reverse = 0 := rfl
  rw [length_toBeBytes] at hself
  rw [List.nil_append, hzero, zero_add] at hcolumns
  rw [HoldsColumns, h, hcolumns, hself]
  simp

theorem realAtomicAdd_eq {add : Option Value → Value → Value} (hadd : LittleEndianAdd add) {kv : Kv}
    {delta z : Int64} (hx : kv[key]? = some (toBeBytes x)) (hz : z.toInt = x.toInt + delta.toInt)
    (hmirror : CarriesMirror [x, delta]) :
  realAtomicAdd add key kv delta = kv.insert key (toBeBytes z)
  := by
  have hsum : sum [x, delta] = z.toInt := by simp [sum, hz]
  have hfit : -2 ^ 63 ≤ sum [x, delta] ∧ sum [x, delta] < 2 ^ 63 := by
    rw [hsum]
    exact ⟨z.le_toInt, z.toInt_lt⟩
  have hholds := (holdsColumns_singleton hx).realAtomicAdd hadd delta
  have hreads := (readsSum_iff_of_holdsColumns hholds hfit).mpr hmirror
  rw [ReadsSum, realAtomicAdd, ExtTreeMap.getElem?_insert_self] at hreads
  obtain ⟨y, hy, hysum⟩ := Option.map_eq_some_iff.mp hreads
  obtain rfl : y = z := Int64.toInt_inj.mp (hysum.trans hsum)
  rw [realAtomicAdd, toBeBytes_of_decode hy]

theorem commit_of_singleton {backend : Backend} {delta z : Int64}
    (h : t.atomicAdds = [(key, delta)]) (hx : t.view[key]? = some (toBeBytes x))
    (hz : z.toInt = x.toInt + delta.toInt) (hexact : backend.AddsExactly x delta) :
  backend.commit t = (t.view.insert key (toBeBytes z), .ok ())
  := by
  cases backend with
  | inMemory =>
    have hfit : -2 ^ 63 ≤ x.toInt + delta.toInt ∧ x.toInt + delta.toInt < 2 ^ 63 := by
      rw [← hz]
      exact ⟨z.le_toInt, z.toInt_lt⟩
    obtain ⟨y, hy, hysum⟩ := checkedAdd_of_fits hfit
    obtain rfl : y = z := Int64.toInt_inj.mp (hysum.trans hz.symm)
    rw [InMemoryWriteTxn.view] at hx
    rw [commit, InMemoryWriteTxn.commit, h, InMemoryWriteTxn.applyAdds, hx]
    simp [decodeI64Be_toBeBytes, hy, InMemoryWriteTxn.applyAdds, InMemoryWriteTxn.view]
  | real add spec =>
    have hadd := realAtomicAdd_eq spec hx hz hexact
    rw [commit, h, List.foldl_cons, List.foldl_nil]
    apply congrArg (fun kv => (kv, Except.ok ()))
    apply hadd

end Backend

end Storage
