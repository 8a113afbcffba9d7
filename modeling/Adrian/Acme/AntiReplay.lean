import Adrian.Acme.Conduct

/-!
# Nonces of the ACME server

A nonce is recorded when it is minted, and removed when it is consumed: whether it was recorded is
decided in the step that removes it.  A nonce that is minted once is consumed at most once, and
every change of the other tables is made for a request that has consumed a nonce before.
-/

namespace Acme

open History (Throughout)

/-- The operation changes what the server has recorded besides nonces. -/
def Op.writes : Op → Bool
  | insertAccount _ _ => true
  | insertChallenge _ _ => true
  | insertAuthz _ _ => true
  | insertOrder _ _ => true
  | validateChallenge _ => true
  | validateAuthz _ => true
  | readyOrders _ => true
  | insertCert _ _ => true
  | validateOrder _ _ => true
  | nextSerial => true
  | recordIssued _ => true
  | _ => false

theorem Allowed.consumed
    {lib : Platform} {site : Site} {request : Request} {own : List Call} {op : Op}
    (h : Allowed lib site request own op) (hop : op.writes = true) :
  Consumed own
  := by
  cases op <;> first | exact h.1 | exact h | cases hop

def minted (past : List Entry) : List String :=
  past.filterMap fun e =>
    match e.toCall with
    | ⟨.mintNonce, nonce⟩ => some nonce
    | _ => none

def consumed (past : List Entry) : List String :=
  past.filterMap fun e =>
    match e.toCall with
    | ⟨.consumeNonce nonce, true⟩ => some nonce
    | _ => none

theorem consumed_cons_consumeNonce
    (i : ℕ) (request : Request) (nonce : String) (found : Bool) (s : AcmeState)
    (past : List Entry) :
  consumed (⟨i, request, .consumeNonce nonce, found, s⟩ :: past)
    = if found then nonce :: consumed past else consumed past
  := by
  cases found <;> rfl

section

variable {lib : Platform} {site : Site} {ca : Ca.CaService} {past : List Entry} {s : AcmeState}

theorem Record.mem_minted (h : Record lib site ca past s) {nonce : String}
    (hmem : nonce ∈ s.nonces) :
  nonce ∈ minted past
  := by
  induction h with
  | nil => cases hmem
  | @cons past s i request op older allowed ih =>
    cases op with
    | mintNonce =>
      obtain rfl | hmem := (AList.mem_insert _).mp hmem
      · apply List.mem_cons_self
      · apply List.mem_cons_of_mem _ (ih hmem)
    | consumeNonce nonce' => apply ih (AList.mem_erase.mp hmem).2
    | _ => apply ih hmem

theorem Record.consumed_minted (h : Record lib site ca past s) :
  Throughout (fun e older => ∀ nonce, e.toCall = ⟨.consumeNonce nonce, true⟩ →
    nonce ∈ minted older) past
  := by
  apply Routine.Record.throughout h
  rintro i request op s older hr - nonce hcall
  obtain ⟨rfl, hreply⟩ := Sigma.mk.inj hcall
  have hfound : (s.nonces.lookup nonce).isSome = true := eq_of_heq hreply
  apply Record.mem_minted hr (AList.lookup_isSome.mp hfound)

theorem Record.consumed_nodup (h : Record lib site ca past s) (hminted : (minted past).Nodup) :
  (∀ nonce ∈ s.nonces, nonce ∉ consumed past) ∧ (∀ nonce ∈ consumed past, nonce ∈ minted past)
    ∧ (consumed past).Nodup
  := by
  induction h with
  | nil => simp [consumed, minted, AcmeState.withCa]
  | @cons past s i request op older allowed ih =>
    cases op with
    | mintNonce =>
      obtain ⟨hfresh, hminted⟩ := List.nodup_cons.mp hminted
      obtain ⟨hlive, hsub, hnodup⟩ := ih hminted
      refine ⟨?_, fun nonce hmem => List.mem_cons_of_mem _ (hsub nonce hmem), hnodup⟩
      intro nonce hmem
      obtain rfl | hmem := (AList.mem_insert _).mp hmem
      · intro hconsumed
        apply hfresh (hsub _ hconsumed)
      · apply hlive nonce hmem
    | consumeNonce nonce =>
      obtain ⟨hlive, hsub, hnodup⟩ := ih hminted
      change (∀ n ∈ s.nonces.erase nonce, n ∉ consumed (⟨i, request, _, _, s⟩ :: past))
        ∧ (∀ n ∈ consumed (⟨i, request, _, _, s⟩ :: past), n ∈ minted past)
        ∧ (consumed (⟨i, request, _, _, s⟩ :: past)).Nodup
      rw [consumed_cons_consumeNonce]
      split_ifs with hfound
      · have hmem : nonce ∈ s.nonces := AList.lookup_isSome.mp hfound
        refine ⟨?_, ?_, List.nodup_cons.mpr ⟨hlive nonce hmem, hnodup⟩⟩
        · intro n hn
          obtain ⟨hne, hn⟩ := AList.mem_erase.mp hn
          simp only [List.mem_cons, not_or]
          exact ⟨hne, hlive n hn⟩
        · intro n hn
          obtain rfl | hn := List.mem_cons.mp hn
          · apply Record.mem_minted older hmem
          · apply hsub n hn
      · refine ⟨?_, hsub, hnodup⟩
        intro n hn
        apply hlive n (AList.mem_erase.mp hn).2
    | _ => apply ih hminted

theorem Record.writes_consumed (h : Record lib site ca past s) :
  Throughout (fun e older => e.op.writes = true →
    ∃ nonce newer c oldest, older = newer ++ c :: oldest ∧ c.task = e.task
      ∧ c.toCall = ⟨.consumeNonce nonce, true⟩ ∧ nonce ∈ minted oldest) past
  := by
  apply Routine.Record.throughout h
  intro i request op s older hr hallowed hop
  obtain ⟨nonce, hmem⟩ := hallowed.consumed hop
  obtain ⟨c, hc, htask, hcall⟩ := Routine.mem_calls.mp hmem
  obtain ⟨newer, oldest, rfl⟩ := List.append_of_mem hc
  exact ⟨nonce, newer, c, oldest, rfl, htask, hcall,
    (Record.consumed_minted hr).of_append nonce hcall⟩

end

/-- In every interleaving of requests, each change of what the server has recorded besides nonces
is made for a request that has consumed a nonce that the server had minted before.  When no nonce
is minted twice, none is consumed twice. -/
theorem no_replay
    {lib : Platform} {site : Site} {ca : Ca.CaService} {es : List (Routine.Event Request)}
    {server : Server} (h : Run.exec (Server.step lib site) (Server.new ca) es = some server)
    (hminted : (minted server.past).Nodup) :
  Throughout (fun e older => e.op.writes = true →
      ∃ nonce newer c oldest, older = newer ++ c :: oldest ∧ c.task = e.task
        ∧ c.toCall = ⟨.consumeNonce nonce, true⟩ ∧ nonce ∈ minted oldest) server.past
    ∧ (consumed server.past).Nodup
  := by
  have hr := exec_record h
  exact ⟨Record.writes_consumed hr, (Record.consumed_nodup hr hminted).2.2⟩

/-! ### A server with one client -/

namespace Sample

def site : Site :=
  ⟨""⟩

def jwk : Jwk where
  kty := "EC"
  crv := "P-256"
  x := "xxxxxxxxxxxxxxxxxxxxxxxxxxxxxxxx"
  y := "yyyyyyyyyyyyyyyyyyyyyyyyyyyyyyyy"

def numbered (c : Char) (n : ℕ) : String :=
  String.ofList (List.replicate (n + 1) c)

theorem numbered_injective (c : Char) :
  Function.Injective (numbered c)
  := by
  intro m n h
  have hlist := String.ofList_injective h
  simpa using congrArg List.length hlist

def url : UInt8 → String
  | 0 => site.url "new-account"
  | 1 => site.url "new-order"
  | 2 => site.challengeUrl (numbered 'u' 2)
  | 3 => site.url "order/u/finalize"
  | _ => site.url "order/other/finalize"

def parseHeader : Bytes → Except String JwsProtectedHeader
  | [kind, nonce] => .ok {
      alg := "ES256"
      jwk := if kind = 0 then some jwk else none
      kid := if kind = 0 then none else some "/acct/t"
      nonce := numbered 'n' nonce.toNat
      url := url kind
    }
  | _ => .error ""

def lib : Platform where
  clock _ := 0
  nonce := numbered 'n'
  uuid := numbered 'u'
  decodeRequest _ := .ok {
    subject := [[⟨Ca.oidCommonName, Utf8.asBytes "a"⟩]]
    algorithm := Ca.oidEcPublicKey
    parameters := some []
    subjectPublicKey := []
    attributes := []
    signature := []
  }
  encodeInfo _ := .ok []
  decodeOid _ := some Ca.oidSecp256r1
  decodePrintableString value := some value
  verify _ _ _ := true
  encode _ := .ok [0x30]
  sign _ := .ok []
  sha1 bytes := bytes
  newOid arcs := some arcs
  ia5String text := .ok (Utf8.asBytes text)
  publicSec1 := []
  issuer := []
  parseJws bytes :=
    let text := String.ofList (bytes.map fun b => Char.ofNat b.toNat)
    .ok ⟨text, text, ""⟩
  parseHeader
  parseNewAccount _ := .ok ⟨[], true⟩
  parseNewOrder _ := .ok ⟨[⟨"dns", "a"⟩]⟩
  parseFinalize _ := .ok ⟨""⟩
  decodeBase64 text := .ok (Utf8.asBytes text)
  encodeBase64 _ := "t"
  sha256 bytes := bytes
  toRfc3339 _ := ""

/-- Each request is received when the one before it has been served, in the given number of
steps. -/
def inTurn (i : ℕ) : List (Request × ℕ) → List (Routine.Event Request)
  | [] => []
  | (request, n) :: requests => .receive request :: List.replicate n (.run i)
      ++ inTurn (i + 1) requests

def run (requests : List (Request × ℕ)) : Option Server :=
  Run.exec (Server.step lib site) (Server.new .new) (inTurn 0 requests)

def enrolment : List (Request × ℕ) :=
  [(.newNonce, 1), (.newAccount (.ok [0, 0]), 3), (.newOrder (.ok [1, 1]), 11),
    (.challenge (numbered 'u' 2) (.ok [2, 3]), 6), (.finalize "u" (.ok [3, 4]), 9)]

end Sample

/-- A client that enrols consumes four nonces. -/
theorem no_replay_enrolment :
  ∃ server, Sample.run Sample.enrolment = some server
    ∧ (consumed server.past).length = 4 ∧ (consumed server.past).Nodup
  := by
  have hrun : (Sample.run Sample.enrolment).map
      (fun server => (decide (minted server.past).Nodup, (consumed server.past).length))
        = some (true, 4) := by
    decide +kernel
  obtain ⟨server, hserver, heq⟩ := Option.map_eq_some_iff.mp hrun
  obtain ⟨hminted, hlength⟩ := Prod.mk.inj heq
  exact ⟨server, hserver, hlength, (no_replay hserver (of_decide_eq_true hminted)).2⟩

end Acme
