import Adrian.Acme.Conduct

/-!
# The orders of the ACME server

An order has a certificate when it has been finalized, and is never ready: answering a challenge
looks for orders under the URL of an authorization, but with the id of the challenge.
-/

namespace Acme

open History (Since)
open Routine (calls)

variable {lib : Platform} {site : Site} {ca : Ca.CaService} {past : List Entry} {s : AcmeState}

/-! ### Ids -/

theorem Op.uuids_apply_of_ne {op : Op} (h : op ≠ .nowV7) (src : Sources) (s : AcmeState) :
  (op.apply src s).2.uuids = s.uuids
  := by
  cases op <;> first | rfl | exact absurd rfl h

theorem ids_calls_cons (i j : ℕ) (request : Request) (op : Op) (reply : op.Reply) (s : AcmeState)
    (past : List Entry) :
  ids (calls j (⟨i, request, op, reply, s⟩ :: past))
    = if i = j then ids (⟨op, reply⟩ :: calls j past) else ids (calls j past)
  := by
  rw [Routine.calls_cons]
  split_ifs <;> rfl

structure DistinctIds (past : List Entry) : Prop where
  disjoint : ∀ i j id, id ∈ ids (calls i past) → id ∈ ids (calls j past) → i = j
  nodup : ∀ i, (ids (calls i past)).Nodup
  length_le : ∀ i, (ids (calls i past)).length ≤ 3

theorem Record.ids_lt (h : Record lib site ca past s) {i : ℕ} {id : String}
    (hid : id ∈ ids (calls i past)) :
  ∃ n < s.uuids, lib.uuid n = id
  := by
  induction h generalizing i with
  | nil => cases hid
  | @cons past s j request op older allowed ih =>
    rw [ids_calls_cons] at hid
    by_cases hop : op = .nowV7
    · subst hop
      split_ifs at hid with hij
      · obtain rfl | hid := List.mem_cons.mp hid
        · exact ⟨s.uuids, Nat.lt_succ_self _, rfl⟩
        · obtain ⟨n, hn, rfl⟩ := ih hid
          exact ⟨n, Nat.lt_succ_of_lt hn, rfl⟩
      · obtain ⟨n, hn, rfl⟩ := ih hid
        exact ⟨n, Nat.lt_succ_of_lt hn, rfl⟩
    · rw [ids_cons_of_ne hop, ite_self] at hid
      rw [Op.uuids_apply_of_ne hop]
      apply ih hid

theorem Record.distinctIds (huuid : Function.Injective lib.uuid) (h : Record lib site ca past s) :
  DistinctIds past
  := by
  induction h with
  | nil => exact ⟨by rintro i j id ⟨⟩, fun i => List.nodup_nil, fun i => Nat.zero_le 3⟩
  | @cons past s k request op older allowed ih =>
    by_cases hop : op = .nowV7
    · subst hop
      have hfresh : ∀ i, lib.uuid s.uuids ∉ ids (calls i past) := by
        intro i hid
        obtain ⟨n, hn, heq⟩ := Record.ids_lt older hid
        apply Nat.ne_of_lt hn (huuid heq)
      have hmem : ∀ i id, id ∈ ids (calls i (⟨k, request, .nowV7, lib.uuid s.uuids, s⟩ :: past))
          → (k = i ∧ id = lib.uuid s.uuids) ∨ id ∈ ids (calls i past) := by
        intro i id hid
        rw [ids_calls_cons] at hid
        split_ifs at hid with hki
        · obtain rfl | hid := List.mem_cons.mp hid
          · exact .inl ⟨hki, rfl⟩
          · exact .inr hid
        · exact .inr hid
      constructor
      · intro i j id hi hj
        obtain ⟨rfl, rfl⟩ | hi := hmem i id hi
        · obtain ⟨rfl, -⟩ | hj := hmem j _ hj
          · rfl
          · exact absurd hj (hfresh j)
        · obtain ⟨rfl, rfl⟩ | hj := hmem j id hj
          · exact absurd hi (hfresh i)
          · apply ih.disjoint i j id hi hj
      · intro i
        rw [ids_calls_cons]
        split_ifs
        · apply List.nodup_cons.mpr ⟨hfresh i, ih.nodup i⟩
        · apply ih.nodup i
      · intro i
        rw [ids_calls_cons]
        split_ifs with hki
        · subst hki
          apply Nat.succ_le_of_lt allowed
        · apply ih.length_le i
    · have hids : ∀ i reply, ids (calls i (⟨k, request, op, reply, s⟩ :: past))
          = ids (calls i past) := by
        intro i reply
        rw [ids_calls_cons, ids_cons_of_ne hop, ite_self]
      constructor
      · intro i j id
        rw [hids, hids]
        apply ih.disjoint
      · intro i
        rw [hids]
        apply ih.nodup
      · intro i
        rw [hids]
        apply ih.length_le

theorem DistinctIds.eq_of_mem (h : DistinctIds past) {i j : ℕ} {x : String} {l m : List String}
    (hi : ids (calls i past) = l) (hj : ids (calls j past) = m) (hl : x ∈ l) (hm : x ∈ m) :
  i = j ∧ l = m
  := by
  subst hi hj
  obtain rfl := h.disjoint i j x hl hm
  exact ⟨rfl, rfl⟩

theorem ids_calls_cons_eq {request : Request} {op : Op} {i j : ℕ} {x y z : String}
    (hallowed : Allowed lib site request (calls i past) op)
    (hids : ids (calls j past) = [x, y, z]) (reply : op.Reply) :
  ids (calls j (⟨i, request, op, reply, s⟩ :: past)) = [x, y, z]
  := by
  rw [ids_calls_cons]
  by_cases hop : op = .nowV7
  · subst hop
    split_ifs with hij
    · subst hij
      have hlt : (ids (calls i past)).length < 3 := hallowed
      rw [hids] at hlt
      exact absurd hlt (Nat.lt_irrefl 3)
    · apply hids
  · rw [ids_cons_of_ne hop, ite_self, hids]

def IsChallenge (past : List Entry) (chalId : String) : Prop :=
  ∃ i authzId orderId, ids (calls i past) = [chalId, authzId, orderId]

theorem Record.isChallenge (h : Record lib site ca past s) :
  (∀ chalId challenge, s.challenges.lookup chalId = some challenge → IsChallenge past chalId)
    ∧ ∀ e ∈ past, ∀ chalId challenge,
      e.toCall = ⟨.validateChallenge chalId, some challenge⟩ → IsChallenge past chalId
  := by
  induction h with
  | nil => exact ⟨by rintro chalId challenge ⟨⟩, by rintro e ⟨⟩⟩
  | @cons past s i request op older allowed ih =>
    obtain ⟨htable, hpast⟩ := ih
    have hkeep : ∀ chalId, IsChallenge past chalId →
        IsChallenge (⟨i, request, op, (op.apply lib.toSources s).1, s⟩ :: past) chalId := by
      rintro chalId ⟨j, authzId, orderId, hids⟩
      exact ⟨j, authzId, orderId, ids_calls_cons_eq allowed hids _⟩
    constructor
    · intro chalId challenge hlookup
      apply hkeep
      cases op with
      | insertChallenge chalId' challenge' =>
        change (AList.insert chalId' challenge' s.challenges).lookup chalId = _ at hlookup
        rw [Table.lookup_insert] at hlookup
        split_ifs at hlookup with heq
        · subst heq
          obtain ⟨-, -, authzId, orderId, hids⟩ := allowed
          exact ⟨i, authzId, orderId, hids⟩
        · apply htable chalId challenge hlookup
      | validateChallenge chalId' =>
        change (Table.modify chalId' Challenge.validate s.challenges).lookup chalId = _
          at hlookup
        rw [Table.lookup_modify] at hlookup
        obtain ⟨challenge', hlookup', -⟩ := Option.map_eq_some_iff.mp hlookup
        apply htable chalId challenge' hlookup'
      | _ => apply htable chalId challenge hlookup
    · intro e he chalId challenge hcall
      apply hkeep
      obtain rfl | he := List.mem_cons.mp he
      · obtain ⟨rfl, hreply⟩ := Sigma.mk.inj hcall
        have hsome : (s.challenges.lookup chalId).map Challenge.validate = some challenge :=
          eq_of_heq hreply
        obtain ⟨challenge', hlookup, -⟩ := Option.map_eq_some_iff.mp hsome
        apply htable chalId challenge' hlookup
      · apply hpast e he chalId challenge hcall

def Answered (site : Site) (past : List Entry) (authzId chalId : String) : Prop :=
  Since (fun e => e.op = .validateAuthz (site.challengeUrl chalId))
    (fun e => ∃ authz, e.op = .insertAuthz authzId authz) past

structure AuthzOf (site : Site) (past : List Entry) (s : AcmeState) (e : Entry)
    (chalId authzId : String) (identifier : Identifier) (authz : AcmeAuthz) : Prop where
  ids_eq : ∃ orderId, ids (calls e.task past) = [chalId, authzId, orderId]
  lookup_eq : s.authz.lookup authzId = some authz
  identifier_eq : authz.identifier = identifier
  hasChallenge_iff : ∀ url, authz.hasChallenge url = true ↔ url = site.challengeUrl chalId
  valid_iff : authz.status = .valid ↔ Answered site past authzId chalId

structure AuthzTable (site : Site) (past : List Entry) (s : AcmeState) : Prop where
  made : ∀ e ∈ past, ∀ authzId authz₀, e.op = .insertAuthz authzId authz₀ →
    ∃ chalId authz, AuthzOf site past s e chalId authzId authz₀.identifier authz
  of_lookup : ∀ authzId authz, s.authz.lookup authzId = some authz →
    ∃ e ∈ past, ∃ authz₀, e.op = .insertAuthz authzId authz₀

section

variable {request : Request} {op : Op} {i : ℕ} {reply : op.Reply} {s' : AcmeState}

theorem AuthzTable.cons (h : AuthzTable site past s)
    (hallowed : Allowed lib site request (calls i past) op) (hs : s'.authz = s.authz)
    (hinsert : ∀ authzId authz, op ≠ .insertAuthz authzId authz)
    (hvalidate : ∀ url, op ≠ .validateAuthz url) :
  AuthzTable site (⟨i, request, op, reply, s⟩ :: past) s'
  := by
  constructor
  · intro e he authzId authz₀ heq
    obtain rfl | he := List.mem_cons.mp he
    · exact absurd heq (hinsert authzId authz₀)
    · obtain ⟨chalId, authz, hof⟩ := h.made e he authzId authz₀ heq
      obtain ⟨orderId, hids⟩ := hof.ids_eq
      use chalId, authz
      constructor
      · exact ⟨orderId, ids_calls_cons_eq hallowed hids reply⟩
      · rw [hs, hof.lookup_eq]
      · apply hof.identifier_eq
      · apply hof.hasChallenge_iff
      · rw [hof.valid_iff, Answered, Answered, History.since_cons]
        simp [hinsert, hvalidate]
  · intro authzId authz hlookup
    rw [hs] at hlookup
    apply List.exists_mem_cons_of_exists (h.of_lookup authzId authz hlookup)

theorem AuthzTable.insertAuthz (h : AuthzTable site past s) (hdistinct : DistinctIds past)
    {authzId : String} {authz : AcmeAuthz} {reply : Unit}
    (hallowed : Allowed lib site request (calls i past) (.insertAuthz authzId authz)) :
  AuthzTable site (⟨i, request, .insertAuthz authzId authz, reply, s⟩ :: past)
    { s with authz := s.authz.insert authzId authz }
  := by
  obtain ⟨-, hpending, ⟨chalId, orderId, challenge, hids, hchallenges, hurl⟩, hnot⟩ := hallowed
  have hkeep : ∀ j x y z, ids (calls j past) = [x, y, z] →
      ids (calls j (⟨i, request, .insertAuthz authzId authz, reply, s⟩ :: past)) = [x, y, z] := by
    intro j x y z hj
    rw [ids_calls_cons, ids_cons_of_ne (by rintro ⟨⟩), ite_self, hj]
  constructor
  · intro e he authzId' authz₀ heq
    obtain rfl | hold := List.mem_cons.mp he
    · obtain ⟨rfl, rfl⟩ := Op.insertAuthz.inj heq
      use chalId, authz
      constructor
      · exact ⟨orderId, hkeep i _ _ _ hids⟩
      · simp
      · rfl
      · simp [AcmeAuthz.hasChallenge, hchallenges, hurl, eq_comm]
      · simp [hpending, Answered, History.since_cons]
    · obtain ⟨chalId', authz', hof⟩ := h.made e hold authzId' authz₀ heq
      obtain ⟨orderId', hids'⟩ := hof.ids_eq
      have hne : authzId' ≠ authzId := by
        rintro rfl
        obtain ⟨rfl, -⟩ := hdistinct.eq_of_mem hids' hids (x := authzId') (by simp) (by simp)
        apply hnot authzId' authz₀ ()
        apply Routine.mem_calls.mpr
        use e, hold, rfl
        obtain ⟨_, _, op, _, _⟩ := e
        subst heq
        rfl
      use chalId', authz'
      constructor
      · exact ⟨orderId', hkeep _ _ _ _ hids'⟩
      · rw [← hof.lookup_eq]
        simp [hne]
      · apply hof.identifier_eq
      · apply hof.hasChallenge_iff
      · rw [hof.valid_iff, Answered, Answered, History.since_cons]
        simp [Ne.symm hne]
  · intro authzId' authz' hlookup
    change (AList.insert authzId authz s.authz).lookup authzId' = _ at hlookup
    rw [Table.lookup_insert] at hlookup
    split_ifs at hlookup with heq
    · subst heq
      exact ⟨_, List.mem_cons_self, authz, rfl⟩
    · apply List.exists_mem_cons_of_exists (h.of_lookup authzId' authz' hlookup)

theorem AuthzTable.validateAuthz (h : AuthzTable site past s) (hdistinct : DistinctIds past)
    {url : String} {reply : Unit} :
  AuthzTable site (⟨i, request, .validateAuthz url, reply, s⟩ :: past)
    { s with
      authz := s.authz.modifyFirst (fun _ a => a.hasChallenge url) AcmeAuthz.validate }
  := by
  have huniq : ∀ k v k' v', s.authz.lookup k = some v → s.authz.lookup k' = some v' →
      v.hasChallenge url = true → v'.hasChallenge url = true → k = k' := by
    intro k v k' v' hk hk' hv hv'
    obtain ⟨e, he, authz₀, heq⟩ := h.of_lookup k v hk
    obtain ⟨e', he', authz₀', heq'⟩ := h.of_lookup k' v' hk'
    obtain ⟨c, w, hof⟩ := h.made e he k authz₀ heq
    obtain ⟨c', w', hof'⟩ := h.made e' he' k' authz₀' heq'
    obtain rfl : w = v := Option.some.inj (hof.lookup_eq.symm.trans hk)
    obtain rfl : w' = v' := Option.some.inj (hof'.lookup_eq.symm.trans hk')
    obtain ⟨orderId, hids⟩ := hof.ids_eq
    obtain ⟨orderId', hids'⟩ := hof'.ids_eq
    have hc : site.challengeUrl c = site.challengeUrl c' := by
      rw [← (hof.hasChallenge_iff url).mp hv, ← (hof'.hasChallenge_iff url).mp hv']
    rw [site.challengeUrl_inj] at hc
    subst hc
    obtain ⟨-, hlist⟩ := hdistinct.eq_of_mem hids hids' (x := c) (by simp) (by simp)
    apply (List.cons.inj (List.cons.inj hlist).2).1
  have hlookup := Table.lookup_modifyFirst huniq AcmeAuthz.validate
  constructor
  · intro e he authzId authz₀ heq
    obtain rfl | he := List.mem_cons.mp he
    · cases heq
    · obtain ⟨chalId, authz, hof⟩ := h.made e he authzId authz₀ heq
      obtain ⟨orderId, hids⟩ := hof.ids_eq
      use chalId, if authz.hasChallenge url then authz.validate else authz
      constructor
      · use orderId
        rw [ids_calls_cons, ids_cons_of_ne (by rintro ⟨⟩), ite_self, hids]
      · change (Table.modifyFirst _ _ s.authz).lookup authzId = _
        rw [hlookup, hof.lookup_eq]
        rfl
      · split_ifs <;> apply hof.identifier_eq
      · split_ifs <;> apply hof.hasChallenge_iff
      · rw [Answered, History.since_cons]
        split_ifs with hhas
        · simp [AcmeAuthz.validate, (hof.hasChallenge_iff url).mp hhas]
        · have hurl := mt (hof.hasChallenge_iff url).mpr hhas
          rw [hof.valid_iff, Answered]
          simp [hurl]
  · intro authzId authz hsome
    change (Table.modifyFirst _ _ s.authz).lookup authzId = _ at hsome
    rw [hlookup] at hsome
    obtain ⟨authz', hlookup', -⟩ := Option.map_eq_some_iff.mp hsome
    apply List.exists_mem_cons_of_exists (h.of_lookup authzId authz' hlookup')

end

theorem Record.authzTable (huuid : Function.Injective lib.uuid) (h : Record lib site ca past s) :
  AuthzTable site past s
  := by
  induction h with
  | nil => exact ⟨by rintro e ⟨⟩, by rintro authzId authz ⟨⟩⟩
  | @cons past s i request op older allowed ih =>
    have hdistinct := Record.distinctIds huuid older
    cases op with
    | insertAuthz authzId authz => apply ih.insertAuthz hdistinct allowed
    | validateAuthz url => apply ih.validateAuthz hdistinct
    | _ => exact ih.cons allowed rfl (by rintro _ _ ⟨⟩) (by rintro _ ⟨⟩)

/-! ### Orders -/

def Finalized (past : List Entry) (orderId : String) : Prop :=
  ∃ e ∈ past, ∃ certUrl order, e.toCall = ⟨.validateOrder orderId certUrl, some order⟩

structure OrderOf (lib : Platform) (site : Site) (past : List Entry) (s : AcmeState) (e : Entry)
    (chalId authzId orderId : String) (order : AcmeOrder) : Prop where
  ids_eq : ids (calls e.task past) = [chalId, authzId, orderId]
  lookup_eq : s.orders.lookup orderId = some order
  identifiers_eq : order.identifiers = e.request.identifiers lib
  authorizations_eq : order.authorizations = [site.authzUrl authzId]
  not_ready : order.status ≠ .ready
  certificate_eq_none_iff : order.certificate = none ↔ ¬ Finalized past orderId
  authz_made : ∃ e' ∈ past, ∃ authz₀, e'.task = e.task ∧ e'.op = .insertAuthz authzId authz₀
    ∧ order.identifiers.head? = some authz₀.identifier

structure OrderTable (lib : Platform) (site : Site) (past : List Entry) (s : AcmeState) : Prop where
  placed : ∀ e ∈ past, ∀ orderId order₀, e.op = .insertOrder orderId order₀ →
    ∃ chalId authzId order, OrderOf lib site past s e chalId authzId orderId order
  of_lookup : ∀ orderId order, s.orders.lookup orderId = some order →
    ∃ e ∈ past, ∃ order₀, e.op = .insertOrder orderId order₀
  of_finalized : ∀ orderId, Finalized past orderId →
    ∃ e ∈ past, ∃ order₀, e.op = .insertOrder orderId order₀
  placed_once : ∀ e ∈ past, ∀ e' ∈ past, ∀ orderId order₀ order₀',
    e.op = .insertOrder orderId order₀ → e'.op = .insertOrder orderId order₀' → e = e'

theorem finalized_cons {e : Entry} {orderId : String} :
  Finalized (e :: past) orderId
    ↔ (∃ certUrl order, e.toCall = ⟨.validateOrder orderId certUrl, some order⟩)
      ∨ Finalized past orderId
  := by
  simp [Finalized]

section

variable {request : Request} {op : Op} {i : ℕ} {reply : op.Reply} {s' : AcmeState}

theorem finalized_cons_of_ne (h : ∀ orderId certUrl, op ≠ .validateOrder orderId certUrl)
    (orderId : String) :
  Finalized (⟨i, request, op, reply, s⟩ :: past) orderId ↔ Finalized past orderId
  := by
  rw [finalized_cons]
  apply or_iff_right
  rintro ⟨certUrl, order, hcall⟩
  apply h orderId certUrl (Sigma.mk.inj hcall).1

theorem OrderOf.cons
    {e : Entry} {chalId authzId orderId : String} {order order' : AcmeOrder}
    (h : OrderOf lib site past s e chalId authzId orderId order)
    (hallowed : Allowed lib site request (calls i past) op)
    (hlookup : s'.orders.lookup orderId = some order')
    (hidentifiers : order'.identifiers = order.identifiers)
    (hauthorizations : order'.authorizations = order.authorizations)
    (hready : order'.status ≠ .ready)
    (hcertificate : order'.certificate = none
      ↔ ¬ Finalized (⟨i, request, op, reply, s⟩ :: past) orderId) :
  OrderOf lib site (⟨i, request, op, reply, s⟩ :: past) s' e chalId authzId orderId order'
  := by
  constructor
  · apply ids_calls_cons_eq hallowed h.ids_eq
  · apply hlookup
  · rw [hidentifiers, h.identifiers_eq]
  · rw [hauthorizations, h.authorizations_eq]
  · apply hready
  · apply hcertificate
  · obtain ⟨e', he', authz₀, htask, hop, hhead⟩ := h.authz_made
    rw [hidentifiers]
    exact ⟨e', List.mem_cons_of_mem _ he', authz₀, htask, hop, hhead⟩

theorem OrderTable.placed_once_cons (h : OrderTable lib site past s)
    (hinsert : ∀ orderId order, op ≠ .insertOrder orderId order) :
  ∀ e ∈ ⟨i, request, op, reply, s'⟩ :: past, ∀ e' ∈ ⟨i, request, op, reply, s'⟩ :: past,
    ∀ orderId order₀ order₀', e.op = .insertOrder orderId order₀ →
      e'.op = .insertOrder orderId order₀' → e = e'
  := by
  intro e he e' he' orderId order₀ order₀' hop hop'
  obtain rfl | he := List.mem_cons.mp he
  · exact absurd hop (hinsert orderId order₀)
  · obtain rfl | he' := List.mem_cons.mp he'
    · exact absurd hop' (hinsert orderId order₀')
    · apply h.placed_once e he e' he' orderId order₀ order₀' hop hop'

theorem OrderTable.cons (h : OrderTable lib site past s)
    (hallowed : Allowed lib site request (calls i past) op)
    (hs : ∀ orderId, s'.orders.lookup orderId = s.orders.lookup orderId)
    (hinsert : ∀ orderId order, op ≠ .insertOrder orderId order)
    (hvalidate : ∀ orderId certUrl, op ≠ .validateOrder orderId certUrl) :
  OrderTable lib site (⟨i, request, op, reply, s⟩ :: past) s'
  := by
  constructor
  · intro e he orderId order₀ heq
    obtain rfl | he := List.mem_cons.mp he
    · exact absurd heq (hinsert orderId order₀)
    · obtain ⟨chalId, authzId, order, hof⟩ := h.placed e he orderId order₀ heq
      use chalId, authzId, order
      apply hof.cons hallowed _ rfl rfl hof.not_ready
      · rw [finalized_cons_of_ne hvalidate, hof.certificate_eq_none_iff]
      · rw [hs, hof.lookup_eq]
  · intro orderId order hlookup
    rw [hs] at hlookup
    apply List.exists_mem_cons_of_exists (h.of_lookup orderId order hlookup)
  · intro orderId hfin
    apply List.exists_mem_cons_of_exists (h.of_finalized orderId _)
    apply (finalized_cons_of_ne hvalidate orderId).mp hfin
  · apply h.placed_once_cons hinsert

theorem OrderTable.insertOrder (h : OrderTable lib site past s) (hdistinct : DistinctIds past)
    {orderId : String} {order : AcmeOrder} {reply : Unit}
    (hallowed : Allowed lib site request (calls i past) (.insertOrder orderId order)) :
  OrderTable lib site (⟨i, request, .insertOrder orderId order, reply, s⟩ :: past)
    { s with orders := s.orders.insert orderId order }
  := by
  obtain ⟨-, hpending, hnone, hidentifiers, ⟨chalId, authzId, authz, _, hids, hauthorizations,
    hmem, hhead⟩, hnot⟩ := id hallowed
  have hfresh : ∀ e ∈ past, ∀ order₀, e.op ≠ .insertOrder orderId order₀ := by
    intro e he order₀ heq
    obtain ⟨chalId', authzId', order', hof⟩ := h.placed e he orderId order₀ heq
    obtain ⟨rfl, -⟩ := hdistinct.eq_of_mem hof.ids_eq hids (x := orderId) (by simp) (by simp)
    apply hnot orderId order₀ ()
    apply Routine.mem_calls.mpr
    use e, he, rfl
    obtain ⟨_, _, op, _, _⟩ := e
    subst heq
    rfl
  have hfinalized := @finalized_cons_of_ne past s request (.insertOrder orderId order) i reply
    (by rintro _ _ ⟨⟩)
  constructor
  · intro e he orderId' order₀ heq
    obtain rfl | hold := List.mem_cons.mp he
    · obtain ⟨rfl, rfl⟩ := Op.insertOrder.inj heq
      use chalId, authzId, order
      constructor
      · apply ids_calls_cons_eq hallowed hids
      · simp
      · apply hidentifiers
      · apply hauthorizations
      · simp [hpending]
      · rw [hfinalized, hnone]
        simp only [true_iff]
        intro hfin
        obtain ⟨e, he, order₀, heq⟩ := h.of_finalized orderId hfin
        apply hfresh e he order₀ heq
      · obtain ⟨e', he', htask, hcall⟩ := Routine.mem_calls.mp hmem
        exact ⟨e', List.mem_cons_of_mem _ he', authz, htask, (Sigma.mk.inj hcall).1, hhead⟩
    · obtain ⟨chalId', authzId', order', hof⟩ := h.placed e hold orderId' order₀ heq
      have hne : orderId' ≠ orderId := by
        rintro rfl
        apply hfresh e hold order₀ heq
      use chalId', authzId', order'
      apply hof.cons hallowed _ rfl rfl hof.not_ready
      · rw [hfinalized, hof.certificate_eq_none_iff]
      · rw [← hof.lookup_eq]
        simp [hne]
  · intro orderId' order' hlookup
    change (AList.insert orderId order s.orders).lookup orderId' = _ at hlookup
    rw [Table.lookup_insert] at hlookup
    split_ifs at hlookup with heq
    · subst heq
      exact ⟨_, List.mem_cons_self, order, rfl⟩
    · apply List.exists_mem_cons_of_exists (h.of_lookup orderId' order' hlookup)
  · intro orderId' hfin
    apply List.exists_mem_cons_of_exists (h.of_finalized orderId' ((hfinalized orderId').mp hfin))
  · intro e he e' he' orderId' order₀ order₀' hop hop'
    obtain rfl | hold := List.mem_cons.mp he
    · obtain rfl | hold' := List.mem_cons.mp he'
      · rfl
      · obtain ⟨rfl, -⟩ := Op.insertOrder.inj hop
        exact absurd hop' (hfresh e' hold' order₀')
    · obtain rfl | hold' := List.mem_cons.mp he'
      · obtain ⟨rfl, -⟩ := Op.insertOrder.inj hop'
        exact absurd hop (hfresh e hold order₀)
      · apply h.placed_once e hold e' hold' orderId' order₀ order₀' hop hop'

theorem OrderTable.readyOrders (h : OrderTable lib site past s) (hdistinct : DistinctIds past)
    {chalId : String} (hchal : IsChallenge past chalId) {reply : Unit}
    (hallowed : Allowed lib site request (calls i past) (.readyOrders (site.authzUrl chalId))) :
  OrderTable lib site (⟨i, request, .readyOrders (site.authzUrl chalId), reply, s⟩ :: past)
    { s with
      orders := s.orders.modifyAll
        (fun _ o => o.authorizations.contains (site.authzUrl chalId)) AcmeOrder.ready }
  := by
  apply h.cons hallowed _ (by rintro _ _ ⟨⟩) (by rintro _ _ ⟨⟩)
  intro orderId
  change (Table.modifyAll _ _ s.orders).lookup orderId = _
  rw [Table.lookup_modifyAll]
  cases hlookup : s.orders.lookup orderId with
  | none => rfl
  | some order =>
    obtain ⟨e, he, order₀, heq⟩ := h.of_lookup orderId order hlookup
    obtain ⟨chalId', authzId', order', hof⟩ := h.placed e he orderId order₀ heq
    obtain rfl : order' = order := Option.some.inj (hof.lookup_eq.symm.trans hlookup)
    have hne : chalId ≠ authzId' := by
      rintro rfl
      obtain ⟨j, authzId, orderId', hids⟩ := hchal
      obtain ⟨-, hlist⟩ := hdistinct.eq_of_mem hids hof.ids_eq (x := chalId) (by simp) (by simp)
      have hnodup := hdistinct.nodup e.task
      rw [hof.ids_eq, ← (List.cons.inj hlist).1] at hnodup
      simp at hnodup
    simp [hof.authorizations_eq, site.authzUrl_inj, hne]

theorem OrderTable.validateOrder (h : OrderTable lib site past s) {orderId certUrl : String}
    (hallowed : Allowed lib site request (calls i past) (.validateOrder orderId certUrl)) :
  OrderTable lib site
    (⟨i, request, .validateOrder orderId certUrl,
      (s.orders.lookup orderId).map (·.complete certUrl), s⟩ :: past)
    { s with orders := s.orders.modify orderId (·.complete certUrl) }
  := by
  have hlookup := Table.lookup_modify orderId (·.complete certUrl) s.orders
  have hfinalized : ∀ orderId',
      Finalized (⟨i, request, .validateOrder orderId certUrl,
          (s.orders.lookup orderId).map (·.complete certUrl), s⟩ :: past) orderId'
        ↔ (orderId' = orderId ∧ (s.orders.lookup orderId).isSome = true)
          ∨ Finalized past orderId' := by
    intro orderId'
    rw [finalized_cons]
    apply or_congr_left
    constructor
    · rintro ⟨certUrl', order, hcall⟩
      obtain ⟨hop, hreply⟩ := Sigma.mk.inj hcall
      obtain ⟨rfl, rfl⟩ := Op.validateOrder.inj hop
      obtain ⟨order', hsome, -⟩ := Option.map_eq_some_iff.mp (eq_of_heq hreply)
      exact ⟨rfl, Option.isSome_iff_exists.mpr ⟨order', hsome⟩⟩
    · rintro ⟨rfl, hsome⟩
      obtain ⟨order, hsome⟩ := Option.isSome_iff_exists.mp hsome
      use certUrl, order.complete certUrl
      rw [Routine.Entry.toCall, hsome]
      rfl
  constructor
  · intro e he orderId' order₀ heq
    obtain rfl | he := List.mem_cons.mp he
    · cases heq
    · obtain ⟨chalId, authzId, order, hof⟩ := h.placed e he orderId' order₀ heq
      use chalId, authzId, if orderId' = orderId then order.complete certUrl else order
      apply hof.cons hallowed
      · change (Table.modify _ _ s.orders).lookup orderId' = _
        rw [hlookup, hof.lookup_eq]
        rfl
      · split_ifs <;> rfl
      · split_ifs <;> rfl
      · split_ifs
        · simp [AcmeOrder.complete]
        · apply hof.not_ready
      · rw [hfinalized]
        split_ifs with heq
        · subst heq
          simp [AcmeOrder.complete, hof.lookup_eq]
        · rw [hof.certificate_eq_none_iff]
          simp [heq]
  · intro orderId' order hsome
    change (Table.modify _ _ s.orders).lookup orderId' = _ at hsome
    rw [hlookup] at hsome
    obtain ⟨order', hsome', -⟩ := Option.map_eq_some_iff.mp hsome
    apply List.exists_mem_cons_of_exists (h.of_lookup orderId' order' hsome')
  · intro orderId' hfin
    have hplaced : ∃ e ∈ past, ∃ order₀, e.op = .insertOrder orderId' order₀ := by
      obtain ⟨rfl, hsome⟩ | hfin := (hfinalized orderId').mp hfin
      · obtain ⟨order, hsome⟩ := Option.isSome_iff_exists.mp hsome
        apply h.of_lookup orderId' order hsome
      · apply h.of_finalized orderId' hfin
    apply List.exists_mem_cons_of_exists hplaced
  · apply h.placed_once_cons (by rintro _ _ ⟨⟩)

end

theorem Record.orderTable (huuid : Function.Injective lib.uuid) (h : Record lib site ca past s) :
  OrderTable lib site past s
  := by
  induction h with
  | nil =>
    exact ⟨by rintro e ⟨⟩, by rintro orderId order ⟨⟩, by rintro orderId ⟨e, ⟨⟩, -⟩,
      by rintro e ⟨⟩⟩
  | @cons past s i request op older allowed ih =>
    have hdistinct := Record.distinctIds huuid older
    cases op with
    | insertOrder orderId order => apply ih.insertOrder hdistinct allowed
    | validateOrder orderId certUrl => apply ih.validateOrder allowed
    | readyOrders authzUrl =>
      obtain ⟨-, chalId, challenge, hmem, rfl⟩ := id allowed
      obtain ⟨e, he, -, hcall⟩ := Routine.mem_calls.mp hmem
      have hchal := (Record.isChallenge older).2 e he chalId challenge hcall
      apply ih.readyOrders hdistinct hchal allowed
    | _ => exact ih.cons allowed (fun _ => rfl) (by rintro _ _ ⟨⟩) (by rintro _ _ ⟨⟩)

def Covered (site : Site) (s : AcmeState) (order : AcmeOrder) : Prop :=
  (∀ identifier ∈ order.identifiers, ∃ authzId authz,
      site.authzUrl authzId ∈ order.authorizations ∧ s.authz.lookup authzId = some authz
        ∧ authz.identifier = identifier)
    ∧ ∀ authzId authz, site.authzUrl authzId ∈ order.authorizations →
      s.authz.lookup authzId = some authz → authz.status = .valid

def Uniform (identifiers : List Identifier) : Prop :=
  ∀ identifier ∈ identifiers, some identifier = identifiers.head?

structure Placed (past : List Entry) (e : Entry) (chalId authzId orderId : String) : Prop where
  mem : e ∈ past
  op_eq : ∃ order, e.op = .insertOrder orderId order
  ids_eq : ids (calls e.task past) = [chalId, authzId, orderId]

section

variable {e : Entry} {chalId authzId orderId : String} {order : AcmeOrder}

theorem Placed.orderOf (h : Placed past e chalId authzId orderId)
    (htable : OrderTable lib site past s) :
  ∃ order, OrderOf lib site past s e chalId authzId orderId order
  := by
  obtain ⟨order₀, hop⟩ := h.op_eq
  obtain ⟨chalId', authzId', order, hof⟩ := htable.placed e h.mem orderId order₀ hop
  have hids := hof.ids_eq
  rw [h.ids_eq] at hids
  obtain ⟨rfl, rfl⟩ : chalId = chalId' ∧ authzId = authzId' := by simpa using hids
  exact ⟨order, hof⟩

theorem OrderTable.placed_of_lookup (h : OrderTable lib site past s)
    (hlookup : s.orders.lookup orderId = some order) :
  ∃ e chalId authzId, Placed past e chalId authzId orderId
    ∧ OrderOf lib site past s e chalId authzId orderId order
  := by
  obtain ⟨e, he, order₀, hop⟩ := h.of_lookup orderId order hlookup
  obtain ⟨chalId, authzId, order', hof⟩ := h.placed e he orderId order₀ hop
  obtain rfl : order' = order := Option.some.inj (hof.lookup_eq.symm.trans hlookup)
  exact ⟨e, chalId, authzId, ⟨he, ⟨order₀, hop⟩, hof.ids_eq⟩, hof⟩

theorem OrderOf.covered_iff (hof : OrderOf lib site past s e chalId authzId orderId order)
    (htable : AuthzTable site past s) :
  Covered site s order
    ↔ Uniform (e.request.identifiers lib) ∧ Answered site past authzId chalId
  := by
  obtain ⟨e', he', authz₀, htask, hop, hhead⟩ := hof.authz_made
  obtain ⟨chalId', authz, hauthz⟩ := htable.made e' he' authzId authz₀ hop
  obtain ⟨orderId', hids⟩ := hauthz.ids_eq
  rw [htask, hof.ids_eq] at hids
  obtain ⟨rfl, -⟩ : chalId = chalId' ∧ _ := by simpa using hids
  rw [← hof.identifiers_eq, Covered, Uniform, hof.authorizations_eq, hhead]
  apply and_congr
  · apply forall₂_congr
    intro identifier _
    constructor
    · rintro ⟨authzId', authz', hmem, hlookup, hidentifier⟩
      obtain rfl := site.authzUrl_inj.mp (List.mem_singleton.mp hmem)
      obtain rfl := Option.some.inj (hlookup.symm.trans hauthz.lookup_eq)
      rw [← hidentifier, hauthz.identifier_eq]
    · intro hidentifier
      use authzId, authz, List.mem_singleton_self _, hauthz.lookup_eq
      rw [hauthz.identifier_eq, Option.some.inj hidentifier]
  · rw [← hauthz.valid_iff]
    constructor
    · intro hvalid
      apply hvalid authzId authz (List.mem_singleton_self _) hauthz.lookup_eq
    · intro hvalid authzId' authz' hmem hlookup
      obtain rfl := site.authzUrl_inj.mp (List.mem_singleton.mp hmem)
      obtain rfl := Option.some.inj (hlookup.symm.trans hauthz.lookup_eq)
      apply hvalid

end

end Acme
