import Adrian.Acme.Handlers

/-!
# What the handlers of the ACME server do

`Allowed` says of each operation after which calls a handler may perform it.  So every run of the
server leaves a record of allowed operations, and what holds in every run follows from `Allowed`
alone.
-/

namespace Acme

open Ca (CertificationRequest)

abbrev Call := Sigma Op.Reply

namespace Request

variable (lib : Platform)

def jws : Request → Option JwsBody
  | newAccount body => (parseBody lib body).toOption
  | newOrder body => (parseBody lib body).toOption
  | authz _ body => (parseBody lib body).toOption
  | challenge _ body => (parseBody lib body).toOption
  | finalize _ body => (parseBody lib body).toOption
  | _ => none

def account (request : Request) : Option String := do
  let jws ← request.jws lib
  let header ← (jws.decodedHeader lib).toOption
  header.kid.map lastSegment

def identifiers (request : Request) : List Identifier :=
  ((request.jws lib).bind fun jws => (orderIdentifiers lib jws).toOption).getD []

def csr (request : Request) : Option CertificationRequest := do
  let jws ← request.jws lib
  let der ← (finalizeCsr lib jws).toOption
  (CertificationRequest.fromDer lib.toPlatform der).toOption

def url (site : Site) : Request → String
  | newOrder _ => site.url "new-order"
  | authz id _ => site.authzUrl id
  | challenge id _ => site.challengeUrl id
  | finalize id _ => site.url ("order/" ++ id ++ "/finalize")
  | _ => ""

end Request

def Consumed (own : List Call) : Prop :=
  ∃ nonce, (⟨.consumeNonce nonce, true⟩ : Call) ∈ own

def Signed (lib : Platform) (site : Site) (request : Request) (own : List Call)
    (acctId : String) : Prop :=
  request.account lib = some acctId ∧
    ∃ jws account, request.jws lib = some jws
      ∧ (⟨.findAccount acctId, some account⟩ : Call) ∈ own
      ∧ verifyJwsWithKid lib jws (request.url site) account.jwk = .ok ()

def ids (own : List Call) : List String :=
  own.filterMap fun
    | ⟨.nowV7, id⟩ => some id
    | _ => none

theorem Consumed.cons {own : List Call} (h : Consumed own) (c : Call) :
  Consumed (c :: own)
  := by
  obtain ⟨nonce, hmem⟩ := h
  exact ⟨nonce, List.mem_cons_of_mem c hmem⟩

theorem Signed.cons
    {lib : Platform} {site : Site} {request : Request} {own : List Call} {acctId : String}
    (h : Signed lib site request own acctId) (c : Call) :
  Signed lib site request (c :: own) acctId
  := by
  obtain ⟨hacct, jws, account, hjws, hmem, hverify⟩ := h
  exact ⟨hacct, jws, account, hjws, List.mem_cons_of_mem c hmem, hverify⟩

@[simp]
theorem ids_cons_nowV7 (id : String) (own : List Call) :
  ids (⟨.nowV7, id⟩ :: own) = id :: ids own
  := rfl

theorem ids_cons_of_ne {op : Op} (h : op ≠ .nowV7) (reply : op.Reply) (own : List Call) :
  ids (⟨op, reply⟩ :: own) = ids own
  := by
  cases op <;> first | rfl | exact absurd rfl h

/-- The operation may be performed for the request after the calls `own`.  A handler draws the ids
of an order, its authorization and its challenge, in this order, and makes an authorization for the
first identifier only, before the order. -/
def Allowed (lib : Platform) (site : Site) (request : Request) (own : List Call) : Op → Prop
  | .nowV7 => (ids own).length < 3
  | .insertAccount _ _ => Consumed own
  | .insertChallenge chalId challenge =>
    Consumed own ∧ challenge.url = site.challengeUrl chalId
      ∧ ∃ authzId orderId, ids own = [chalId, authzId, orderId]
  | .insertAuthz authzId authz =>
    Consumed own ∧ authz.status = .pending
      ∧ (∃ chalId orderId challenge, ids own = [chalId, authzId, orderId]
        ∧ authz.challenges = [challenge] ∧ challenge.url = site.challengeUrl chalId)
      ∧ ∀ authzId' authz' r, (⟨.insertAuthz authzId' authz', r⟩ : Call) ∉ own
  | .insertOrder orderId order =>
    Consumed own ∧ order.status = .pending ∧ order.certificate = none
      ∧ order.identifiers = request.identifiers lib
      ∧ (∃ chalId authzId authz r, ids own = [chalId, authzId, orderId]
        ∧ order.authorizations = [site.authzUrl authzId]
        ∧ (⟨.insertAuthz authzId authz, r⟩ : Call) ∈ own
        ∧ order.identifiers.head? = some authz.identifier)
      ∧ ∀ orderId' order' r, (⟨.insertOrder orderId' order', r⟩ : Call) ∉ own
  | .validateChallenge _ => Consumed own
  | .validateAuthz _ => Consumed own
  | .readyOrders authzUrl =>
    Consumed own ∧ ∃ chalId challenge,
      (⟨.validateChallenge chalId, some challenge⟩ : Call) ∈ own
        ∧ authzUrl = site.authzUrl chalId
  | .nextSerial => Consumed own
  | .recordIssued _ =>
    Consumed own ∧ (∃ id body, request = .finalize id body)
      ∧ ∃ acctId, Signed lib site request own acctId
  | .insertCert id _ =>
    Consumed own ∧ (∃ body, request = .finalize id body)
      ∧ ∃ acctId, Signed lib site request own acctId
  | .validateOrder _ _ => Consumed own
  | _ => True

/-! ### The handlers do nothing else -/

section

variable {lib : Platform} {site : Site} {request : Request}

structure Authenticated (lib : Platform) (site : Site) (request : Request) (jws : JwsBody)
    (own : List Call) : Prop where
  jws_eq : request.jws lib = some jws
  consumed : Consumed own
  signed : ∃ acctId, Signed lib site request own acctId
  ids_eq : ids own = []
  not_insertAuthz : ∀ authzId authz r, (⟨.insertAuthz authzId authz, r⟩ : Call) ∉ own
  not_insertOrder : ∀ orderId order r, (⟨.insertOrder orderId order, r⟩ : Call) ∉ own

theorem follows_authenticate
    {body : Except String Bytes} {kidMissing expectedUrl : String}
    (hjws : request.jws lib = (parseBody lib body).toOption)
    (hurl : request.url site = expectedUrl) {post : JwsBody → List Call → Prop}
    (hpost : ∀ jws own, Authenticated lib site request jws own → post jws own) :
  (authenticate lib body kidMissing expectedUrl).Follows (Allowed lib site request) [] post
  := by
  simp only [authenticate, Routine.follows_bind, Routine.follows_ofExcept,
    Routine.follows_perform, Routine.follows_ofOption, Routine.follows_ensure,
    Routine.follows_pure]
  intro jws hbody header hheader acctId hacct
  use trivial
  intro found account hfound _ hverify
  use trivial
  intro known hknown
  subst hfound hknown
  have hjws' : request.jws lib = some jws := by rw [hjws, hbody]; rfl
  apply hpost
  constructor
  · apply hjws'
  · exact ⟨header.nonce, List.mem_cons_self⟩
  · use acctId
    constructor
    · rw [kidAccount] at hacct
      split at hacct
      · cases hacct
      · rename_i kid hkid
        cases hacct
        simp [Request.account, hjws', hheader, hkid, Except.toOption]
    · rw [hurl]
      exact ⟨jws, account, hjws', by simp, hverify⟩
  · rfl
  · simp
  · simp

theorem follows_newAccount (body : Except String Bytes) :
  (newAccount lib site body).Follows (Allowed lib site (.newAccount body)) [] fun _ _ => True
  := by
  simp only [newAccount, Routine.follows_bind, Routine.follows_ofExcept,
    Routine.follows_perform, Routine.follows_ensure, Routine.follows_pure]
  intro jws _ jwk _ header _
  use trivial
  intro known hknown _ _ req _ _
  subst hknown
  use ⟨header.nonce, List.mem_cons_self⟩
  intro _
  exact ⟨trivial, fun _ => trivial⟩

theorem follows_newOrder (body : Except String Bytes) :
  (newOrder lib site body).Follows (Allowed lib site (.newOrder body)) [] fun _ _ => True
  := by
  simp only [newOrder, Routine.follows_bind]
  apply follows_authenticate rfl rfl
  intro jws own h
  simp only [Routine.follows_ofExcept, Routine.follows_perform, Routine.follows_ofOption,
    Routine.follows_pure]
  intro identifiers hidents identifier hhead
  have hidents' : Request.identifiers lib (.newOrder body) = identifiers := by
    simp [Request.identifiers, h.jws_eq, hidents, Except.toOption]
  -- the three ids, the time and the token
  use by simp [Allowed, h.ids_eq]
  intro orderId
  use by simp [Allowed, h.ids_eq]
  intro authzId
  use by simp [Allowed, h.ids_eq]
  intro chalId
  use trivial
  intro now
  use trivial
  intro token
  have hids : ids (⟨.newNonce, token⟩ :: ⟨.now, now⟩ :: ⟨.nowV7, chalId⟩ :: ⟨.nowV7, authzId⟩
      :: ⟨.nowV7, orderId⟩ :: own) = [chalId, authzId, orderId] := by
    change chalId :: authzId :: orderId :: ids own = _
    rw [h.ids_eq]
  have hconsumed := ((((h.consumed.cons ⟨.nowV7, orderId⟩).cons ⟨.nowV7, authzId⟩).cons
    ⟨.nowV7, chalId⟩).cons ⟨.now, now⟩).cons ⟨.newNonce, token⟩
  -- the challenge, the authorization and the order
  use ⟨hconsumed, rfl, authzId, orderId, hids⟩
  intro _
  use ⟨hconsumed.cons _, rfl, ⟨chalId, orderId, _, hids, rfl, rfl⟩,
    by simp [h.not_insertAuthz]⟩
  intro _
  use ⟨(hconsumed.cons _).cons _, rfl, rfl, hidents'.symm,
    ⟨chalId, authzId, _, _, hids, rfl, List.mem_cons_self, hhead⟩,
    by simp [h.not_insertOrder]⟩
  intro _
  exact ⟨trivial, fun _ => trivial⟩

theorem follows_authzHandler (id : String) (body : Except String Bytes) :
  (authzHandler lib site id body).Follows (Allowed lib site (.authz id body)) [] fun _ _ => True
  := by
  simp only [authzHandler, Routine.follows_bind]
  apply follows_authenticate rfl rfl
  intro jws own h
  simp only [Routine.follows_perform, Routine.follows_ofOption, Routine.follows_pure]
  use trivial
  intro _ _ _
  exact ⟨trivial, fun _ => trivial⟩

theorem follows_challengeHandler (id : String) (body : Except String Bytes) :
  (challengeHandler lib site id body).Follows (Allowed lib site (.challenge id body)) []
    fun _ _ => True
  := by
  simp only [challengeHandler, Routine.follows_bind]
  apply follows_authenticate rfl rfl
  intro jws own h
  simp only [Routine.follows_perform, Routine.follows_ofOption, Routine.follows_pure]
  use h.consumed
  intro found challenge hfound
  subst hfound
  use h.consumed.cons _
  intro _
  use ⟨(h.consumed.cons _).cons _, id, challenge, by simp, rfl⟩
  intro _
  exact ⟨trivial, fun _ => trivial⟩

theorem follows_finalizeOrder (id : String) (body : Except String Bytes) :
  (finalizeOrder lib site id body).Follows (Allowed lib site (.finalize id body)) []
    fun _ _ => True
  := by
  simp only [finalizeOrder, Routine.follows_bind]
  apply follows_authenticate rfl rfl
  intro jws own h
  obtain ⟨acctId, hsigned⟩ := h.signed
  simp only [Ca.issue, caAccess, Routine.follows_bind, Routine.follows_mapError,
    Routine.follows_perform, Routine.follows_ofExcept, Routine.follows_ofOption,
    Routine.follows_pure]
  intro csrDer _
  use trivial
  intro found profile _ csr _ _ _ pubSec1 _
  -- the authority issues the certificate
  use h.consumed.cons _
  intro serial
  use trivial
  intro now der _
  have hconsumed := ((h.consumed.cons ⟨.findProfile Acme.profile, found⟩).cons
    ⟨.nextSerial, serial⟩).cons ⟨.now, now⟩
  have hsigned' := ((hsigned.cons ⟨.findProfile Acme.profile, found⟩).cons
    ⟨.nextSerial, serial⟩).cons ⟨.now, now⟩
  use ⟨hconsumed, ⟨id, body, rfl⟩, acctId, hsigned'⟩
  intro _
  -- it is stored, and then the order is looked for
  use ⟨hconsumed.cons _, ⟨body, rfl⟩, acctId, hsigned'.cons _⟩
  intro _
  use (hconsumed.cons _).cons _
  intro _ _ _
  exact ⟨trivial, fun _ => trivial⟩

theorem follows_serve (request : Request) :
  (serve lib site request).Follows (Allowed lib site request) [] fun _ _ => True
  := by
  apply Routine.Follows.recover
  cases request with
  | directory => trivial
  | newNonce => exact ⟨trivial, fun _ => trivial⟩
  | newAccount body => apply follows_newAccount
  | newOrder body => apply follows_newOrder
  | authz id body => apply follows_authzHandler
  | challenge id body => apply follows_challengeHandler
  | finalize id body => apply follows_finalizeOrder
  | cert id =>
    simp only [router, getCert, Routine.follows_bind, Routine.follows_perform,
      Routine.follows_ofOption, Routine.follows_pure]
    exact ⟨trivial, fun _ _ _ => trivial⟩

end

/-- The operations `past`, each allowed when it was performed, lead from the empty tables to the
given state. -/
abbrev Record (lib : Platform) (site : Site) (ca : Ca.CaService) :
    List Entry → AcmeState → Prop :=
  Routine.Record (Op.apply lib.toSources) (Allowed lib site) (AcmeState.withCa ca)

theorem exec_record
    {lib : Platform} {site : Site} {ca : Ca.CaService} {es : List (Routine.Event Request)}
    {server : Server} (h : Run.exec (Server.step lib site) (Server.new ca) es = some server) :
  Record lib site ca server.past server.shared
  := Routine.exec_record follows_serve h

end Acme
