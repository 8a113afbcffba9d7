import Adrian.Acme.AntiReplay
import Adrian.Acme.Orders

/-!
# Readiness of orders and issuance

An order should be ready for finalization when all its identifiers have valid authorizations, and
a certificate should be issued only for such an order, to the account that placed it, and for names
among its identifiers.  The server sees to neither.  What is proved says for which requests the two
hold all the same.
-/

namespace Acme

open History (Throughout)
open Routine (calls)
open Ca (CertificationRequest)

/-- Before it is finalized, an order is ready exactly when its identifiers are covered by valid
authorizations. -/
def StatusExact (site : Site) (s : AcmeState) : Prop :=
  ∀ orderId order, s.orders.lookup orderId = some order → order.certificate = none →
    (order.status = .ready ↔ Covered site s order)

/-- In every state that is reached, the status of orders is exact when each order that has been
placed for a single identifier, and whose challenge has been answered, has been finalized. -/
theorem statusExact_iff
    {lib : Platform} (huuid : Function.Injective lib.uuid) {site : Site} {ca : Ca.CaService}
    {es : List (Routine.Event Request)} {server : Server}
    (h : Run.exec (Server.step lib site) (Server.new ca) es = some server) :
  StatusExact site server.shared ↔
    ∀ e chalId authzId orderId, Placed server.past e chalId authzId orderId →
      Uniform (e.request.identifiers lib) → Answered site server.past authzId chalId →
      Finalized server.past orderId
  := by
  have hr := exec_record h
  have horders := Record.orderTable huuid hr
  have hauthz := Record.authzTable huuid hr
  constructor
  · intro hexact e chalId authzId orderId hplaced huniform hanswered
    obtain ⟨order, hof⟩ := hplaced.orderOf horders
    by_contra hfinalized
    apply hof.not_ready
    apply (hexact orderId order hof.lookup_eq (hof.certificate_eq_none_iff.mpr hfinalized)).mpr
    apply (hof.covered_iff hauthz).mpr ⟨huniform, hanswered⟩
  · intro hfinalized orderId order hlookup hnone
    obtain ⟨e, chalId, authzId, hplaced, hof⟩ := horders.placed_of_lookup hlookup
    constructor
    · intro hready
      exact absurd hready hof.not_ready
    · intro hcovered
      obtain ⟨huniform, hanswered⟩ := (hof.covered_iff hauthz).mp hcovered
      exact absurd (hfinalized e chalId authzId orderId hplaced huniform hanswered)
        (hof.certificate_eq_none_iff.mp hnone)

/-- A client that has placed an order, and not answered its challenge. -/
theorem statusExact_placed :
  ∃ server, Sample.run (Sample.enrolment.take 3) = some server
    ∧ server.shared.orders.keys = ["u"] ∧ StatusExact Sample.site server.shared
  := by
  have hrun : (Sample.run (Sample.enrolment.take 3)).map
      (fun server => (server.shared.orders.keys,
        server.past.all fun e => match e.op with
          | .validateAuthz _ => false
          | _ => true)) = some (["u"], true) := by
    decide +kernel
  obtain ⟨server, hserver, heq⟩ := Option.map_eq_some_iff.mp hrun
  obtain ⟨hkeys, hall⟩ := Prod.mk.inj heq
  use server, hserver, hkeys
  apply (statusExact_iff (Sample.numbered_injective 'u') hserver).mpr
  rintro e chalId authzId orderId - - ⟨newer, v, oldest, hpast, hop, -⟩
  have hv := List.all_eq_true.mp hall v (by simp [hpast])
  simp [hop] at hv

/-- A client has answered the challenge of its order: all is authorized, but the order is still
pending. -/
theorem answered_order_pending :
  ∃ server, Sample.run (Sample.enrolment.take 4) = some server
    ∧ ¬ StatusExact Sample.site server.shared
  := by
  have hrun : (Sample.run (Sample.enrolment.take 4)).map
      (fun server => (server.shared.orders.lookup "u", server.shared.authz.lookup "uu"))
        = some (some {
            status := .pending, expires := "", identifiers := [⟨"dns", "a"⟩]
            authorizations := [Sample.site.authzUrl "uu"]
            finalize := Sample.site.url "order/u/finalize", certificate := none
          }, some {
            identifier := ⟨"dns", "a"⟩, status := .valid, expires := ""
            challenges := [⟨"http-01", Sample.site.challengeUrl "uuu", .pending, "nnn"⟩]
          }) := by
    decide +kernel
  obtain ⟨server, hserver, heq⟩ := Option.map_eq_some_iff.mp hrun
  obtain ⟨horder, hauthz⟩ := Prod.mk.inj heq
  use server, hserver
  intro hexact
  have hready := (hexact "u" _ horder rfl).mpr
  apply OrderStatus.noConfusion (hready _)
  constructor
  · intro identifier hmem
    obtain rfl := List.mem_singleton.mp hmem
    exact ⟨"uu", _, List.mem_singleton_self _, hauthz, rfl⟩
  · intro authzId authz hmem hlookup
    obtain rfl := Sample.site.authzUrl_inj.mp (List.mem_singleton.mp hmem)
    obtain rfl := Option.some.inj (hlookup.symm.trans hauthz)
    rfl

/-! ### Issuance -/

def Issues (e : Entry) (orderId : String) : Prop :=
  (∃ body, e.request = .finalize orderId body)
    ∧ ((∃ cert, e.op = .recordIssued cert) ∨ ∃ der, e.op = .insertCert orderId der)

def Owns (lib : Platform) (past : List Entry) (acctId orderId : String) : Prop :=
  ∃ e ∈ past, (∃ order, e.op = .insertOrder orderId order) ∧ e.request.account lib = some acctId

section

variable (lib : Platform) (site : Site) (names : CertificationRequest → List String)

def Names (request : Request) (identifiers : List Identifier) : Prop :=
  ∀ csr, request.csr lib = some csr → ∀ name ∈ names csr,
    ∃ identifier ∈ identifiers, identifier.value = name

/-- The order exists, belongs to the account that signed the request and is covered by valid
authorizations, and the names in the CSR are among its identifiers. -/
def Authorized (e : Entry) (older : List Entry) (orderId : String) : Prop :=
  ∃ acctId order, Signed lib site e.request (calls e.task older) acctId
    ∧ e.before.orders.lookup orderId = some order ∧ Owns lib older acctId orderId
    ∧ Covered site e.before order ∧ Names lib names e.request order.identifiers

def Proper (e : Entry) (older : List Entry) (orderId : String) : Prop :=
  ∃ p chalId authzId, Placed older p chalId authzId orderId
    ∧ p.request.account lib = e.request.account lib
    ∧ Uniform (p.request.identifiers lib) ∧ Answered site older authzId chalId
    ∧ Names lib names e.request (p.request.identifiers lib)

end

theorem Placed.owns_iff
    {lib : Platform} {site : Site} {past : List Entry} {s : AcmeState} {p : Entry}
    {chalId authzId orderId acctId : String} (h : Placed past p chalId authzId orderId)
    (htable : OrderTable lib site past s) :
  Owns lib past acctId orderId ↔ p.request.account lib = some acctId
  := by
  constructor
  · rintro ⟨e, he, ⟨order, hop⟩, haccount⟩
    obtain ⟨order', hop'⟩ := h.op_eq
    rw [htable.placed_once p h.mem e he orderId order' order hop' hop, haccount]
  · intro haccount
    exact ⟨p, h.mem, h.op_eq, haccount⟩

theorem Issues.signed
    {lib : Platform} {site : Site} {request : Request} {op : Op} {i : ℕ} {reply : op.Reply}
    {s : AcmeState} {older : List Entry} {orderId : String}
    (h : Issues ⟨i, request, op, reply, s⟩ orderId)
    (hallowed : Allowed lib site request (calls i older) op) :
  ∃ acctId, Signed lib site request (calls i older) acctId
  := by
  obtain ⟨-, ⟨cert, rfl⟩ | ⟨der, rfl⟩⟩ := h
  · apply hallowed.2.2
  · apply hallowed.2.2

/-- Whenever a certificate is issued for an order or stored under its id, this is authorized exactly
when the order was placed by the account that asks for it, for a single identifier which is all that
the CSR names, and its challenge has been answered. -/
theorem issuance_authorized_iff
    {lib : Platform} (huuid : Function.Injective lib.uuid) {site : Site} {ca : Ca.CaService}
    {es : List (Routine.Event Request)} {server : Server}
    (h : Run.exec (Server.step lib site) (Server.new ca) es = some server)
    (names : CertificationRequest → List String) :
  Throughout (fun e older => ∀ orderId, Issues e orderId →
    (Authorized lib site names e older orderId ↔ Proper lib site names e older orderId))
    server.past
  := by
  apply Routine.Record.throughout (exec_record h)
  intro i request op s older hr hallowed orderId hissues
  have horders := Record.orderTable huuid hr
  have hauthz := Record.authzTable huuid hr
  constructor
  · rintro ⟨acctId, order, hsigned, hlookup, howns, hcovered, hnames⟩
    obtain ⟨p, chalId, authzId, hplaced, hof⟩ := horders.placed_of_lookup hlookup
    obtain ⟨huniform, hanswered⟩ := (hof.covered_iff hauthz).mp hcovered
    use p, chalId, authzId, hplaced
    refine ⟨?_, huniform, hanswered, ?_⟩
    · rw [(hplaced.owns_iff horders).mp howns, hsigned.1]
    · rw [← hof.identifiers_eq]
      apply hnames
  · rintro ⟨p, chalId, authzId, hplaced, haccount, huniform, hanswered, hnames⟩
    obtain ⟨acctId, hsigned⟩ := hissues.signed hallowed
    obtain ⟨order, hof⟩ := hplaced.orderOf horders
    use acctId, order, hsigned, hof.lookup_eq
    refine ⟨?_, (hof.covered_iff hauthz).mpr ⟨huniform, hanswered⟩, ?_⟩
    · apply (hplaced.owns_iff horders).mpr
      rw [haccount, hsigned.1]
    · rw [hof.identifiers_eq]
      apply hnames

def issuingRun : List (Request × ℕ) :=
  Sample.enrolment.take 4 ++ [(.finalize "u" (.ok [3, 4]), 7)]

/-- A client that has enrolled for the name in its CSR. -/
theorem issuance_authorized_enrolment :
  ∃ server e older, Sample.run issuingRun = some server ∧ server.past = e :: older
    ∧ Issues e "u"
    ∧ Authorized Sample.lib Sample.site (fun csr => (csr.subjectCn Sample.lib.toPlatform).toList)
      e older "u"
  := by
  have hrun : (Sample.run issuingRun).map (fun server =>
      (server.past.head?.map fun e => (e.op, e.request),
        server.past.tail.any fun p => (p.op matches .insertOrder "u" _)
          ∧ p.request = .newOrder (.ok [1, 1])
          ∧ ids (calls p.task server.past.tail) = ["uuu", "uu", "u"],
        decide (History.Since (fun e => e.op = .validateAuthz (Sample.site.challengeUrl "uuu"))
          (fun e => e.op matches .insertAuthz _ _) server.past.tail)))
      = some (some (.insertCert "u" [0x30], .finalize "u" (.ok [3, 4])), true, true) := by
    decide +kernel
  obtain ⟨server, hserver, hdata⟩ := Option.map_eq_some_iff.mp hrun
  simp only [Prod.mk.injEq] at hdata
  obtain ⟨hhead, hplaced, hanswered⟩ := hdata
  obtain ⟨e, he, heq⟩ := Option.map_eq_some_iff.mp hhead
  obtain ⟨hop, hrequest⟩ := Prod.mk.inj heq
  obtain ⟨older, hpast⟩ := List.head?_eq_some_iff.mp he
  rw [hpast, List.tail_cons] at hplaced hanswered
  obtain ⟨p, hp, hdata⟩ := List.any_eq_true.mp hplaced
  obtain ⟨horder, hplacing, hids⟩ := of_decide_eq_true hdata
  obtain ⟨newer, v, oldest, hsplit, hv, hnewer⟩ := of_decide_eq_true hanswered
  have hissues : Issues e "u" := ⟨⟨_, hrequest⟩, .inr ⟨_, hop⟩⟩
  have hall := issuance_authorized_iff (Sample.numbered_injective 'u') hserver
    fun csr => (csr.subjectCn Sample.lib.toPlatform).toList
  rw [hpast] at hall
  refine ⟨server, e, older, hserver, hpast, hissues, (hall.1 "u" hissues).mpr ?_⟩
  refine ⟨p, "uuu", "uu", ⟨hp, ?_, hids⟩, ?_, ?_, ?_, ?_⟩
  · split at horder
    · exact ⟨_, by assumption⟩
    · cases horder
  · rw [hplacing, hrequest]
    decide +kernel
  · rw [hplacing]
    unfold Uniform
    decide +kernel
  · refine ⟨newer, v, oldest, hsplit, hv, fun e' he' => ?_⟩
    rintro ⟨authz, hauthz⟩
    apply hnewer e' he'
    rw [hauthz]
  · rw [hrequest, hplacing]
    unfold Names
    rintro csr ⟨⟩
    decide +kernel

/-- A client asks to finalize an order that does not exist: a certificate is stored under its id. -/
theorem unplaced_order_certificate :
  ∃ server e older, Sample.run [(.newNonce, 1), (.newAccount (.ok [0, 0]), 3),
      (.finalize "other" (.ok [4, 1]), 7)] = some server
    ∧ server.past = e :: older ∧ Issues e "other"
    ∧ ¬ Authorized Sample.lib Sample.site
      (fun csr => (csr.subjectCn Sample.lib.toPlatform).toList) e older "other"
  := by
  have hrun : (Sample.run [(.newNonce, 1), (.newAccount (.ok [0, 0]), 3),
      (.finalize "other" (.ok [4, 1]), 7)]).map
        (fun server => server.past.head?.map fun e =>
          (e.op, e.request, e.before.orders.lookup "other"))
      = some (some (.insertCert "other" [0x30], .finalize "other" (.ok [4, 1]), none)) := by
    decide +kernel
  obtain ⟨server, hserver, hhead⟩ := Option.map_eq_some_iff.mp hrun
  obtain ⟨e, he, heq⟩ := Option.map_eq_some_iff.mp hhead
  simp only [Prod.mk.injEq] at heq
  obtain ⟨hop, hrequest, hlookup⟩ := heq
  obtain ⟨older, hpast⟩ := List.head?_eq_some_iff.mp he
  use server, e, older, hserver, hpast, ⟨⟨_, hrequest⟩, .inr ⟨_, hop⟩⟩
  rintro ⟨acctId, order, -, horder, -⟩
  rw [hlookup] at horder
  cases horder

end Acme
