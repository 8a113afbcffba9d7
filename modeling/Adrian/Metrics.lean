import Adrian.Lib.Decimal
import Adrian.Lib.Delimited
import Adrian.Lib.Table
import Adrian.Lib.Utf8

/-!
# Metrics in the Prometheus text format

The metrics are written with one sample in a line, and labels in quotes, without escapes.  A label
with a quote can therefore look like the end of its line and other lines after it.  Without quotes
in labels, the counters can be read back from the text.
-/

namespace Monitor

/-- Floating point numbers, as far as they are shown. -/
structure Floats where
  Float : Type
  zero : Float
  display : Float → String
  newline_notMem : ∀ x, '\n' ∉ (display x).toList

section

variable (floats : Floats)

structure HistogramState where
  bucketCounts : List UInt64
  count : UInt64
  sum : floats.Float

structure MetricsInner where
  asReqTotal : Table (String × String) UInt64
  asReqDurationSeconds : HistogramState floats
  ldapQueryDurationSeconds : Table String (HistogramState floats)
  fdbOperationsTotal : Table String UInt64
  replicationLagSeconds : Table (String × String) floats.Float
  ridPoolRemaining : Table String floats.Float
  krbtgtKeyAgeSeconds : floats.Float

def MetricsInner.new : MetricsInner floats where
  asReqTotal := ∅
  asReqDurationSeconds := ⟨[], 0, floats.zero⟩
  ldapQueryDurationSeconds := ∅
  fdbOperationsTotal := ∅
  replicationLagSeconds := ∅
  ridPoolRemaining := ∅
  krbtgtKeyAgeSeconds := floats.zero

end

def increment {κ : Type} [DecidableEq κ] (counters : Table κ UInt64) (k : κ) : Table κ UInt64 :=
  counters.insert k ((counters.lookup k).getD 0 + 1)

inductive Increment where
  | asReq (realm etype : String)
  | fdbOperation (opType : String)

variable {floats : Floats}

namespace MetricsInner

def incAsReq (self : MetricsInner floats) (realm etype : String) : MetricsInner floats :=
  { self with asReqTotal := increment self.asReqTotal (realm, etype) }

def incFdbOperation (self : MetricsInner floats) (opType : String) : MetricsInner floats :=
  { self with fdbOperationsTotal := increment self.fdbOperationsTotal opType }

def inc (self : MetricsInner floats) : Increment → MetricsInner floats
  | .asReq realm etype => self.incAsReq realm etype
  | .fdbOperation opType => self.incFdbOperation opType

def ProducedBy (self : MetricsInner floats) (incs : List Increment) : Prop :=
  incs.foldl inc { self with asReqTotal := ∅, fdbOperationsTotal := ∅ } = self

end MetricsInner

/-! ### The text -/

structure Sample where
  name : String
  labels : List (String × String)
  value : String

def labelText (sep : Char) : List (String × String) → List Char
  | [] => []
  | (k, v) :: labels => sep :: k.toList ++ '=' :: '"' :: v.toList ++ '"' :: labelText ',' labels

def Sample.text (self : Sample) : List Char :=
  self.name.toList ++ labelText '{' self.labels ++ (if self.labels = [] then [] else ['}'])
    ++ ' ' :: self.value.toList ++ ['\n']

def header (name help kind : String) : List Char :=
  "# HELP ".toList ++ (name.toList ++ ' ' :: help.toList ++ "\n# TYPE ".toList ++ name.toList
    ++ ' ' :: kind.toList ++ ['\n'])

def sorted {κ β : Type} (le : κ → κ → Bool) (t : Table κ β) : List (Sigma fun _ : κ => β) :=
  t.entries.mergeSort fun a b => le a.1 b.1

/-- The order of strings, by their bytes. -/
def bytesLe : Bytes → Bytes → Bool
  | [], _ => true
  | _ :: _, [] => false
  | a :: as, b :: bs => a < b || a == b && bytesLe as bs

def stringLe (a b : String) : Bool :=
  bytesLe (Utf8.asBytes a) (Utf8.asBytes b)

def pairLe (a b : String × String) : Bool :=
  if a.1 = b.1 then stringLe a.2 b.2 else stringLe a.1 b.1

def defaultBuckets : List String :=
  ["0.001", "0.005", "0.01", "0.05", "0.1", "0.5", "1", "5"]

def bucketSamples (name : String) (extraLabels : List (String × String)) :
    List String → List UInt64 → UInt64 → List Sample
  | [], _, _ => []
  | bound :: bounds, counts, cumulative =>
    let cumulative := cumulative + counts.headD 0
    ⟨name ++ "_bucket", extraLabels ++ [("le", bound)], toString cumulative.toNat⟩
      :: bucketSamples name extraLabels bounds counts.tail cumulative

def histogramSamples (name : String) (extraLabels : List (String × String))
    (state : HistogramState floats) : List Sample :=
  bucketSamples name extraLabels defaultBuckets state.bucketCounts 0 ++ [
    ⟨name ++ "_bucket", extraLabels ++ [("le", "+Inf")], toString state.count.toNat⟩,
    ⟨name ++ "_sum", extraLabels, floats.display state.sum⟩,
    ⟨name ++ "_count", extraLabels, toString state.count.toNat⟩]

def renderHistogram (name : String) (extraLabels : List (String × String))
    (state : HistogramState floats) : List Char :=
  (histogramSamples name extraLabels state).flatMap Sample.text

def asReqSample (e : Sigma fun _ : String × String => UInt64) : Sample :=
  ⟨"adrian_as_req_total", [("realm", e.1.1), ("etype", e.1.2)], toString e.2.toNat⟩

def fdbSample (e : Sigma fun _ : String => UInt64) : Sample :=
  ⟨"adrian_fdb_operations_total", [("op_type", e.1)], toString e.2.toNat⟩

def renderLdap (e : Sigma fun _ : String => HistogramState floats) : List Char :=
  renderHistogram "adrian_ldap_query_duration_seconds" [("scope", e.1)] e.2

namespace MetricsInner

variable (self : MetricsInner floats)

def renderGauges : List Char :=
  header "adrian_replication_lag_seconds" "Replication lag between DCs (seconds)." "gauge"
    ++ (sorted pairLe self.replicationLagSeconds).flatMap (fun e => Sample.text
      ⟨"adrian_replication_lag_seconds", [("source_dc", e.1.1), ("target_dc", e.1.2)],
        floats.display e.2⟩)
    ++ header "adrian_rid_pool_remaining" "Remaining RIDs in the pool (per domain SID)." "gauge"
    ++ (sorted stringLe self.ridPoolRemaining).flatMap (fun e => Sample.text
      ⟨"adrian_rid_pool_remaining", [("domain_sid", e.1)], floats.display e.2⟩)
    ++ header "adrian_krbtgt_key_age_seconds" "Age of the krbtgt account key (seconds)." "gauge"
    ++ Sample.text ⟨"adrian_krbtgt_key_age_seconds", [], floats.display self.krbtgtKeyAgeSeconds⟩

def renderPrometheus : List Char :=
  header "adrian_as_req_total" "Total Kerberos AS-REQs received." "counter"
    ++ (sorted pairLe self.asReqTotal).flatMap (fun e => (asReqSample e).text)
    ++ header "adrian_as_req_duration_seconds" "Latency of Kerberos AS-REQ handling." "histogram"
    ++ renderHistogram "adrian_as_req_duration_seconds" [] self.asReqDurationSeconds
    ++ header "adrian_ldap_query_duration_seconds" "Latency of LDAP query handling." "histogram"
    ++ (sorted stringLe self.ldapQueryDurationSeconds).flatMap renderLdap
    ++ header "adrian_fdb_operations_total" "Total FoundationDB operations." "counter"
    ++ (sorted stringLe self.fdbOperationsTotal).flatMap (fun e => (fdbSample e).text)
    ++ self.renderGauges

def labels : List String :=
  self.asReqTotal.keys.flatMap (fun k => [k.1, k.2]) ++ self.ldapQueryDurationSeconds.keys
    ++ self.fdbOperationsTotal.keys

def LabelsOver (A : Char → Prop) : Prop :=
  ∀ label ∈ self.labels, ∀ c ∈ label.toList, A c

/-- The same series of counters, with the same values. -/
def SameCounters (other : MetricsInner floats) : Prop :=
  (∀ k, self.asReqTotal.lookup k = other.asReqTotal.lookup k)
    ∧ ∀ k, self.fdbOperationsTotal.lookup k = other.fdbOperationsTotal.lookup k

end MetricsInner

/-- Metrics with labels of the allowed characters have the same counters when they have the same
text. -/
def Unforgeable (floats : Floats) (A : Char → Prop) : Prop :=
  ∀ (m m' : MetricsInner floats) (incs incs' : List Increment), m.ProducedBy incs →
    m'.ProducedBy incs' → m.LabelsOver A → m'.LabelsOver A →
      m.renderPrometheus = m'.renderPrometheus → m.SameCounters m'

/-! ### Reading the text back -/

open Delimited

section

variable {labels labels' : List (String × String)} {s s' : Sample} {r r' : List Char}

theorem labelText_inj {sep : Char} (hkeys : labels.map Prod.fst = labels'.map Prod.fst)
    (h : ∀ l ∈ labels, '"' ∉ l.2.toList) (h' : ∀ l ∈ labels', '"' ∉ l.2.toList)
    (heq : labelText sep labels ++ r = labelText sep labels' ++ r') :
  labels = labels' ∧ r = r'
  := by
  induction labels generalizing labels' sep with
  | nil =>
    obtain rfl := List.map_eq_nil_iff.mp hkeys.symm
    exact ⟨rfl, heq⟩
  | cons l labels ih =>
    obtain ⟨k, v⟩ := l
    obtain ⟨⟨k', v'⟩, labels', rfl, hk, htail⟩ := List.map_eq_cons_iff.mp hkeys.symm
    obtain rfl : k' = k := hk
    simp only [labelText, List.append_assoc, List.cons_append, List.cons.injEq, true_and,
      List.append_cancel_left_eq] at heq
    obtain ⟨hv, hrest⟩ := append_cons_inj (h _ List.mem_cons_self) (h' _ List.mem_cons_self) heq
    obtain rfl : v = v' := String.toList_inj.mp hv
    obtain ⟨rfl, rfl⟩ := ih htail.symm (fun l hl => h l (List.mem_cons_of_mem _ hl))
      (fun l hl => h' l (List.mem_cons_of_mem _ hl)) hrest
    exact ⟨rfl, rfl⟩

namespace Sample

structure Clean (s : Sample) : Prop where
  labels : ∀ l ∈ s.labels, '"' ∉ l.2.toList
  value : '\n' ∉ s.value.toList

def SameShape (self other : Sample) : Prop :=
  self.name = other.name ∧ self.labels.map Prod.fst = other.labels.map Prod.fst

theorem text_inj (hs : s.Clean) (hs' : s'.Clean) (hshape : s.SameShape s')
    (h : s.text ++ r = s'.text ++ r') :
  s = s' ∧ r = r'
  := by
  obtain ⟨name, labels, value⟩ := s
  obtain ⟨name', labels', value'⟩ := s'
  obtain ⟨rfl, hkeys⟩ : name = name' ∧ labels.map Prod.fst = labels'.map Prod.fst := hshape
  simp only [text, List.append_assoc, List.append_cancel_left_eq] at h
  obtain ⟨rfl, h⟩ := labelText_inj hkeys hs.labels hs'.labels h
  simp only [List.append_cancel_left_eq, List.cons_append, List.cons.injEq, true_and,
    List.nil_append] at h
  obtain ⟨hvalue, rfl⟩ := append_cons_inj hs.value hs'.value h
  obtain rfl : value = value' := String.toList_inj.mp hvalue
  exact ⟨rfl, rfl⟩

theorem head?_text {c : Char} (h : s.name.toList.head? = some c) :
  s.text.head? = some c
  := by
  simp [text, h]

theorem texts_inj {l l' : List Sample} (hl : ∀ s ∈ l, s.Clean) (hl' : ∀ s ∈ l', s.Clean)
    (hshape : List.Forall₂ SameShape l l') (h : l.flatMap text ++ r = l'.flatMap text ++ r') :
  r = r'
  := by
  induction hshape with
  | nil => exact h
  | @cons s s' l l' hss _ ih =>
    rw [List.forall_mem_cons] at hl hl'
    simp only [List.flatMap_cons, List.append_assoc] at h
    obtain ⟨-, h⟩ := text_inj hl.1 hl'.1 hss h
    apply ih hl.2 hl'.2 h

end Sample

theorem newline_notMem_toString (n : ℕ) :
  '\n' ∉ (toString n).toList
  := by
  rw [Nat.toString_eq_ofList_toDigits, String.toList_ofList]
  intro hmem
  cases Nat.isDigit_of_mem_toDigits (by decide) (by decide) hmem

theorem clean_bucketSamples {name : String} {bounds : List String}
    (hlabels : ∀ l ∈ labels, '"' ∉ l.2.toList) (hbounds : ∀ b ∈ bounds, '"' ∉ b.toList)
    (counts : List UInt64) (cumulative : UInt64) :
  ∀ s ∈ bucketSamples name labels bounds counts cumulative, s.Clean
  := by
  induction bounds generalizing counts cumulative with
  | nil => simp [bucketSamples]
  | cons bound bounds ih =>
    rw [List.forall_mem_cons] at hbounds
    rw [bucketSamples, List.forall_mem_cons]
    constructor
    · use by simpa [or_imp, forall_and] using ⟨fun k v => hlabels (k, v), hbounds.1⟩
      apply newline_notMem_toString
    · apply ih hbounds.2

theorem clean_histogramSamples {name : String} (hlabels : ∀ l ∈ labels, '"' ∉ l.2.toList)
    (state : HistogramState floats) :
  ∀ s ∈ histogramSamples name labels state, s.Clean
  := by
  have hlabels' : ∀ l ∈ labels ++ [("le", "+Inf")], '"' ∉ l.2.toList := by
    simpa [or_imp, forall_and] using fun k v => hlabels (k, v)
  rw [histogramSamples, List.forall_mem_append]
  use clean_bucketSamples hlabels (by decide) _ _
  simp only [List.forall_mem_cons, List.not_mem_nil, false_implies, implies_true, and_true]
  exact ⟨⟨hlabels', newline_notMem_toString _⟩, ⟨hlabels, floats.newline_notMem _⟩,
    hlabels, newline_notMem_toString _⟩

theorem sameShape_histogramSamples (name : String)
    (hkeys : labels.map Prod.fst = labels'.map Prod.fst) (state state' : HistogramState floats) :
  List.Forall₂ Sample.SameShape (histogramSamples name labels state)
    (histogramSamples name labels' state')
  := by
  have hbuckets : ∀ bounds counts counts' cumulative cumulative',
      List.Forall₂ Sample.SameShape (bucketSamples name labels bounds counts cumulative)
        (bucketSamples name labels' bounds counts' cumulative') := by
    intro bounds
    induction bounds with
    | nil => exact fun _ _ _ _ => .nil
    | cons bound bounds ih =>
      intro counts counts' cumulative cumulative'
      exact .cons ⟨rfl, by simp [hkeys]⟩ (ih _ _ _ _)
  apply List.rel_append (hbuckets _ _ _ _ _)
  exact .cons ⟨rfl, by simp [hkeys]⟩ (.cons ⟨rfl, hkeys⟩ (.cons ⟨rfl, hkeys⟩ .nil))

theorem renderHistogram_inj {name : String} (hkeys : labels.map Prod.fst = labels'.map Prod.fst)
    (hlabels : ∀ l ∈ labels, '"' ∉ l.2.toList) (hlabels' : ∀ l ∈ labels', '"' ∉ l.2.toList)
    {state state' : HistogramState floats}
    (h : renderHistogram name labels state ++ r = renderHistogram name labels' state' ++ r') :
  r = r'
  := Sample.texts_inj (clean_histogramSamples hlabels state)
    (clean_histogramSamples hlabels' state') (sameShape_histogramSamples name hkeys state state') h

theorem toString_toNat_inj {v v' : UInt64} (h : toString v.toNat = toString v'.toNat) :
  v = v'
  := by
  have hparse := Decimal.parse_toString v.toNat_lt
  rw [h, Decimal.parse_toString v'.toNat_lt] at hparse
  apply UInt64.toNat_inj.mp (Except.ok.inj hparse).symm

theorem lookup_eq_of_sorted_eq {κ β : Type} [DecidableEq κ] {le : κ → κ → Bool} {t t' : Table κ β}
    (h : sorted le t = sorted le t') (k : κ) :
  t.lookup k = t'.lookup k
  := by
  apply AList.perm_lookup
  apply (List.mergeSort_perm _ _).symm.trans
  rw [← sorted, h]
  apply List.mergeSort_perm

theorem asReqSample_inj {e e' : Sigma fun _ : String × String => UInt64}
    (he : '"' ∉ e.1.1.toList ∧ '"' ∉ e.1.2.toList) (he' : '"' ∉ e'.1.1.toList ∧ '"' ∉ e'.1.2.toList)
    (h : (asReqSample e).text ++ r = (asReqSample e').text ++ r') :
  e = e' ∧ r = r'
  := by
  have hclean : ∀ e : Sigma fun _ : String × String => UInt64,
      '"' ∉ e.1.1.toList ∧ '"' ∉ e.1.2.toList → (asReqSample e).Clean := by
    intro e he
    constructor
    · simpa [asReqSample] using he
    · apply newline_notMem_toString
  have hshape : (asReqSample e).SameShape (asReqSample e') := by
    simp [Sample.SameShape, asReqSample]
  obtain ⟨heq, rfl⟩ := Sample.text_inj (hclean e he) (hclean e' he') hshape h
  obtain ⟨⟨realm, etype⟩, v⟩ := e
  obtain ⟨⟨realm', etype'⟩, v'⟩ := e'
  simp only [asReqSample, Sample.mk.injEq, List.cons.injEq, Prod.mk.injEq, true_and, and_true]
    at heq
  obtain ⟨⟨rfl, rfl⟩, hv⟩ := heq
  rw [toString_toNat_inj hv]
  exact ⟨rfl, rfl⟩

theorem fdbSample_inj {e e' : Sigma fun _ : String => UInt64} (he : '"' ∉ e.1.toList)
    (he' : '"' ∉ e'.1.toList) (h : (fdbSample e).text ++ r = (fdbSample e').text ++ r') :
  e = e' ∧ r = r'
  := by
  have hclean : ∀ e : Sigma fun _ : String => UInt64,
      '"' ∉ e.1.toList → (fdbSample e).Clean := by
    intro e he
    constructor
    · simpa [fdbSample] using he
    · apply newline_notMem_toString
  have hshape : (fdbSample e).SameShape (fdbSample e') := by
    simp [Sample.SameShape, fdbSample]
  obtain ⟨heq, rfl⟩ := Sample.text_inj (hclean e he) (hclean e' he') hshape h
  obtain ⟨opType, v⟩ := e
  obtain ⟨opType', v'⟩ := e'
  simp only [fdbSample, Sample.mk.injEq, List.cons.injEq, Prod.mk.injEq, true_and, and_true] at heq
  obtain ⟨rfl, hv⟩ := heq
  rw [toString_toNat_inj hv]
  exact ⟨rfl, rfl⟩

theorem key_mem_of_mem_sorted {κ β : Type} {le : κ → κ → Bool} {t : Table κ β}
    {e : Sigma fun _ : κ => β} (h : e ∈ sorted le t) :
  e.1 ∈ t.keys
  := by
  rw [sorted, List.mem_mergeSort] at h
  apply List.mem_keys_of_mem h

end

theorem head?_asReqSample (e : Sigma fun _ : String × String => UInt64) :
  (asReqSample e).text.head? = some 'a'
  := by
  apply Sample.head?_text
  simp [asReqSample]

theorem head?_fdbSample (e : Sigma fun _ : String => UInt64) :
  (fdbSample e).text.head? = some 'a'
  := by
  apply Sample.head?_text
  simp [fdbSample]

theorem head?_header (name help kind : String) (rest : List Char) :
  (header name help kind ++ rest).head? ≠ some 'a'
  := by
  have hhead : ∀ l l' : List Char, ("# HELP ".toList ++ l ++ l').head? ≠ some 'a' := by simp
  apply hhead

theorem head?_renderLdap (e : Sigma fun _ : String => HistogramState floats) :
  (renderLdap e).head? = some 'a'
  := by
  have hname : ("adrian_ldap_query_duration_seconds" ++ "_bucket").toList.head? = some 'a' := by
    simp
  simp only [renderLdap, renderHistogram, histogramSamples, defaultBuckets, bucketSamples,
    List.cons_append, List.flatMap_cons, List.head?_append]
  rw [Sample.head?_text hname, Option.some_or]

theorem renderLdap_inj {e e' : Sigma fun _ : String => HistogramState floats} {r r' : List Char}
    (he : '"' ∉ e.1.toList) (he' : '"' ∉ e'.1.toList)
    (h : renderLdap e ++ r = renderLdap e' ++ r') :
  r = r'
  := by
  have hkeys : [("scope", e.1)].map Prod.fst = [("scope", e'.1)].map Prod.fst := rfl
  apply renderHistogram_inj hkeys _ _ h
  · simpa using he
  · simpa using he'

namespace MetricsInner

variable {m m' : MetricsInner floats}

def Unquoted (self : MetricsInner floats) : Prop :=
  ∀ label ∈ self.labels, '"' ∉ label.toList

theorem Unquoted.asReq (h : m.Unquoted) :
  ∀ e ∈ sorted pairLe m.asReqTotal, '"' ∉ e.1.1.toList ∧ '"' ∉ e.1.2.toList
  := by
  intro e he
  have hkey := key_mem_of_mem_sorted he
  constructor
  · apply h
    simp only [labels, List.mem_append, List.mem_flatMap]
    exact .inl (.inl ⟨e.1, hkey, List.mem_cons_self⟩)
  · apply h
    simp only [labels, List.mem_append, List.mem_flatMap]
    exact .inl (.inl ⟨e.1, hkey, List.mem_cons_of_mem _ List.mem_cons_self⟩)

theorem Unquoted.ldap (h : m.Unquoted) :
  ∀ e ∈ sorted stringLe m.ldapQueryDurationSeconds, '"' ∉ e.1.toList
  := by
  intro e he
  apply h
  simp [labels, key_mem_of_mem_sorted he]

theorem Unquoted.fdb (h : m.Unquoted) :
  ∀ e ∈ sorted stringLe m.fdbOperationsTotal, '"' ∉ e.1.toList
  := by
  intro e he
  apply h
  simp [labels, key_mem_of_mem_sorted he]

theorem sameCounters_of_unquoted (hm : m.Unquoted) (hm' : m'.Unquoted)
    (h : m.renderPrometheus = m'.renderPrometheus) :
  m.SameCounters m'
  := by
  have hgauges : ∀ m : MetricsInner floats, m.renderGauges.head? ≠ some 'a' := by
    intro m
    simp only [renderGauges, List.append_assoc]
    apply head?_header
  simp only [renderPrometheus, List.append_assoc, List.append_cancel_left_eq] at h
  obtain ⟨hasReq, h⟩ := forall₂_of_flatMap_append (b := 'a') (R := Eq) head?_asReqSample
    (fun e he e' he' {_ _} heq => asReqSample_inj (hm.asReq e he) (hm'.asReq e' he') heq)
    (head?_header _ _ _ _) (head?_header _ _ _ _) h
  rw [List.append_cancel_left_eq] at h
  have h := renderHistogram_inj rfl (by simp) (by simp) h
  rw [List.append_cancel_left_eq] at h
  obtain ⟨-, h⟩ := forall₂_of_flatMap_append (b := 'a') (R := fun _ _ => True) head?_renderLdap
    (fun e he e' he' {_ _} heq => ⟨trivial, renderLdap_inj (hm.ldap e he) (hm'.ldap e' he') heq⟩)
    (head?_header _ _ _ _) (head?_header _ _ _ _) h
  rw [List.append_cancel_left_eq] at h
  obtain ⟨hfdb, -⟩ := forall₂_of_flatMap_append (b := 'a') (R := Eq) head?_fdbSample
    (fun e he e' he' {_ _} heq => fdbSample_inj (hm.fdb e he) (hm'.fdb e' he') heq)
    (hgauges m) (hgauges m') h
  rw [List.forall₂_eq_eq_eq] at hasReq hfdb
  exact ⟨lookup_eq_of_sorted_eq hasReq, lookup_eq_of_sorted_eq hfdb⟩

end MetricsInner

/-- The text between the labels of a counter of requests, with the quotes around it. -/
def between : String :=
  "\",etype=\""

theorem sorted_increment (k : String × String) :
  sorted pairLe (increment ∅ k) = [⟨k, 1⟩]
  := by
  simp [sorted, increment]

theorem render_moved (floats : Floats) :
  ((MetricsInner.new floats).incAsReq between "").renderPrometheus
    = ((MetricsInner.new floats).incAsReq "" between).renderPrometheus
  := by
  have htext : (asReqSample ⟨(between, ""), 1⟩).text = (asReqSample ⟨("", between), 1⟩).text := by
    simp [asReqSample, Sample.text, labelText, between]
  simp only [MetricsInner.renderPrometheus, MetricsInner.incAsReq, MetricsInner.new,
    sorted_increment, List.flatMap_singleton, htext, MetricsInner.renderGauges]

/-- With labels over an alphabet that has the characters between two labels, the counters are
determined by the text exactly when it has no quote. -/
theorem unforgeable_iff (floats : Floats) (A : Char → Prop) (hA : ∀ c ∈ ",etype=".toList, A c) :
  Unforgeable floats A ↔ ¬ A '"'
  := by
  constructor
  · intro h hquote
    have hover : ∀ c ∈ between.toList, A c := by
      intro c hc
      simp only [between] at hc
      obtain rfl | hc : c = '"' ∨ c ∈ ",etype=".toList := by
        simp at hc ⊢
        tauto
      · apply hquote
      · apply hA c hc
    have hlabels : ∀ k : String × String, (∀ c ∈ k.1.toList, A c) → (∀ c ∈ k.2.toList, A c) →
        ((MetricsInner.new floats).incAsReq k.1 k.2).LabelsOver A := by
      intro k h₁ h₂ label hlabel
      obtain rfl | rfl : label = k.1 ∨ label = k.2 := by
        simpa [MetricsInner.labels, MetricsInner.incAsReq, MetricsInner.new, increment] using hlabel
      · apply h₁
      · apply h₂
    have hsame := (h ((MetricsInner.new floats).incAsReq between "")
      ((MetricsInner.new floats).incAsReq "" between) [.asReq between ""] [.asReq "" between] rfl
      rfl (hlabels (between, "") hover (by simp)) (hlabels ("", between) (by simp) hover)
      (render_moved floats)).1 (between, "")
    simp only [MetricsInner.incAsReq, MetricsInner.new, increment, Table.lookup_insert] at hsame
    simp [between] at hsame
  · intro hquote m m' incs incs' _ _ hm hm' h
    apply MetricsInner.sameCounters_of_unquoted _ _ h
    · exact fun label hlabel hmem => hquote (hm label hlabel _ hmem)
    · exact fun label hlabel hmem => hquote (hm' label hlabel _ hmem)

def zeros : Floats :=
  ⟨Unit, (), fun _ => "0", fun _ => by decide⟩

theorem unforgeable_without_quotes :
  Unforgeable zeros (· ≠ '"')
  :=
  (unforgeable_iff zeros (· ≠ '"') (by simp)).mpr (by simp)

def twoLines : String :=
  "a\",etype=\"e\"\x7d 1\nadrian_as_req_total\x7brealm=\"b"

/-- One request with such a realm looks like two requests. -/
theorem series_forged :
  ((MetricsInner.new zeros).incAsReq twoLines "e").renderPrometheus
      = (((MetricsInner.new zeros).incAsReq "a" "e").incAsReq "b" "e").renderPrometheus
    ∧ ¬ ((MetricsInner.new zeros).incAsReq twoLines "e").SameCounters
      (((MetricsInner.new zeros).incAsReq "a" "e").incAsReq "b" "e")
  := by
  constructor
  · have hlookup : ((increment ∅ ("a", "e")).lookup ("b", "e")).getD 0 = 0 := by decide
    have htwo : sorted pairLe (increment (increment ∅ ("a", "e")) ("b", "e"))
        = [⟨("a", "e"), 1⟩, ⟨("b", "e"), 1⟩] := by
      have hle : pairLe ("b", "e") ("a", "e") = false := by decide +kernel
      rw [increment, hlookup]
      simp [sorted, increment, List.mergeSort, hle]
    have htext : (asReqSample ⟨(twoLines, "e"), 1⟩).text
        = (asReqSample ⟨("a", "e"), 1⟩).text ++ (asReqSample ⟨("b", "e"), 1⟩).text := by
      decide +kernel
    simp only [MetricsInner.renderPrometheus, MetricsInner.incAsReq, MetricsInner.new,
      sorted_increment, htwo, List.flatMap_cons, List.flatMap_nil, List.append_nil, htext,
      MetricsInner.renderGauges]
  · rintro ⟨hasReq, -⟩
    have hlookup := hasReq (twoLines, "e")
    simp only [MetricsInner.incAsReq, MetricsInner.new, increment, Table.lookup_insert] at hlookup
    simp [twoLines] at hlookup

end Monitor
