import Adrian.Kdc.Exchange

/-!
# The lifetime of tickets

A ticket for the ticket-granting service itself is again a ticket-granting ticket, so requests can
be chained.  The service reads neither the times of the ticket it is given nor the time and the
realm of the authenticator, and the ticket it issues ends ten hours after its own clock.  A chain
stays within the life of its first ticket when every request comes at least ten hours before the end
of the ticket it is made with.
-/

namespace Kdc

section

variable {wire : Wire} {prims : Primitives} {krbtgtKey : Aes256Key}

/-- A request that the ticket-granting service answered, with what was encrypted in it and in
the ticket that was issued. -/
structure TgsExchange (wire : Wire) (prims : Primitives) (krbtgtKey : Aes256Key) where
  host : Host
  store : PrincipalStore
  reqBytes : Bytes
  repBytes : Bytes
  req : TgsReq
  rep : TgsRep
  svc : PrincipalRecord
  tgt : EncTicketPart
  authenticator : Authenticator
  issued : EncTicketPart
  answered : handleTgsReq wire prims host store krbtgtKey reqBytes = .ok repBytes
  reads : wire.tgsReq.decode reqBytes = .ok req
  presents : Opens prims wire.encTicketPart krbtgtKey keyUsageAsRepTgt req.tgt.encPart tgt
  authenticates : Opens prims wire.authenticator tgt.sessionKey keyUsageTgsReqAuthenticator
    req.authenticatorEnc authenticator
  finds : store req.realm req.sname = .ok (some svc)
  replies : wire.tgsRep.decode repBytes = .ok rep
  issues : Opens prims wire.encTicketPart svc.key keyUsageTgsRepTicket rep.ticket.encPart issued

def TgsExchange.now (x : TgsExchange wire prims krbtgtKey) : Int64 :=
  x.host.clock 0

variable {store : PrincipalStore} {ticket : Ticket} {tgt : EncTicketPart}
    {xs : List (TgsExchange wire prims krbtgtKey)}

theorem exists_tgsExchange {host : Host} {reqBytes repBytes : Bytes}
    (h : handleTgsReq wire prims host store krbtgtKey reqBytes = .ok repBytes) :
  ∃ x : TgsExchange wire prims krbtgtKey,
    x.host = host ∧ x.store = store ∧ x.reqBytes = reqBytes ∧ x.repBytes = repBytes
  := by
  obtain ⟨req, etype, tgt, authenticator, svc, ticketEnc, encPart, hread, -, htgt, hauth, -, hsvc,
    hticket, -, hrep⟩ := handleTgsReq_eq_ok.mp h
  let rep := tgsRep tgt svc etype req.tgt.kvno ticketEnc encPart
  have hreply : wire.tgsRep.decode repBytes = .ok rep := by
    rw [hrep]
    apply wire.tgsRep.decode_encode_eq
  exact ⟨⟨host, store, reqBytes, repBytes, req, rep, svc, tgt, authenticator, _, h, hread, htgt,
    hauth, hsvc, hreply, opens_of_encrypt hticket⟩, rfl, rfl, rfl, rfl⟩

theorem TgsExchange.issued_eq (x : TgsExchange wire prims krbtgtKey) :
  x.issued = svcTicketPart x.now x.tgt
  := by
  obtain ⟨req, etype, tgt, authenticator, svc, ticketEnc, encPart, hread, -, htgt, -, -, hsvc,
    hticket, -, hrep⟩ := handleTgsReq_eq_ok.mp x.answered
  obtain rfl : x.req = req := Except.ok.inj (x.reads.symm.trans hread)
  obtain rfl : x.tgt = tgt := x.presents.unique htgt
  obtain rfl : x.svc = svc := Option.some.inj (Except.ok.inj (x.finds.symm.trans hsvc))
  have hreply := x.replies
  rw [hrep, wire.tgsRep.decode_encode_eq] at hreply
  have hopens := x.issues
  rw [← Except.ok.inj hreply] at hopens
  apply hopens.unique (opens_of_encrypt hticket)

/-- The ticket presented is valid now, and the authenticator was made now and in the realm of
its client. -/
structure TgsExchange.Fresh (x : TgsExchange wire prims krbtgtKey) : Prop where
  started : x.tgt.starttime ≤ x.now
  unexpired : x.now ≤ x.tgt.endtime
  recent : |x.authenticator.ctime.toInt - x.now.toInt| ≤ clockSkewToleranceSecs.toInt
  realm : x.authenticator.crealm = x.tgt.crealm

/-- A fresh request, for which the ticket issued ends with the one presented or before. -/
def TgsExchange.Timely (x : TgsExchange wire prims krbtgtKey) : Prop :=
  x.Fresh ∧ x.issued.endtime ≤ x.tgt.endtime

def TgsExchange.InTime (x : TgsExchange wire prims krbtgtKey) : Prop :=
  x.Fresh ∧ x.now + defaultSvcTicketLifetimeSecs ≤ x.tgt.endtime

theorem TgsExchange.timely_iff (x : TgsExchange wire prims krbtgtKey) :
  x.Timely ↔ x.InTime
  := by
  rw [Timely, InTime, x.issued_eq, svcTicketPart]

/-! ### Chains -/

/-- The first request presents the ticket, and each other request the ticket that was issued by
the one before, for the ticket-granting service itself. -/
def IsChain (ticket : Ticket) : List (TgsExchange wire prims krbtgtKey) → Prop
  | [] => True
  | x :: xs =>
    x.req.tgt = ticket ∧ (xs ≠ [] → x.svc.key = krbtgtKey) ∧ IsChain x.rep.ticket xs

theorem IsChain.tickets {P : EncTicketPart → Prop} (hchain : IsChain ticket xs)
    (htgt : Opens prims wire.encTicketPart krbtgtKey keyUsageAsRepTgt ticket.encPart tgt)
    (hfirst : P tgt) (hstep : ∀ x ∈ xs, P x.tgt → P x.issued) :
  ∀ x ∈ xs, P x.tgt ∧ P x.issued
  := by
  induction xs generalizing ticket tgt with
  | nil =>
    intro x hx
    cases hx
  | cons y ys ih =>
    obtain ⟨hpresents, hkey, hrest⟩ := hchain
    obtain rfl : y.tgt = tgt := y.presents.unique (hpresents ▸ htgt)
    have hissued := hstep y List.mem_cons_self hfirst
    intro x hx
    obtain rfl | hx := List.mem_cons.mp hx
    · exact ⟨hfirst, hissued⟩
    · -- The next request has the ticket issued by this one, for the same key and usage.
      have hopens := y.issues
      rw [hkey (List.ne_nil_of_mem hx)] at hopens
      apply ih hrest hopens hissued (fun z hz => hstep z (List.mem_cons_of_mem y hz)) x hx

theorem IsChain.sameClient (hchain : IsChain ticket xs)
    (htgt : Opens prims wire.encTicketPart krbtgtKey keyUsageAsRepTgt ticket.encPart tgt) :
  ∀ x ∈ xs, SameClient x.tgt tgt ∧ SameClient x.issued tgt
  := by
  apply hchain.tickets htgt (P := fun t => SameClient t tgt)
  · exact ⟨rfl, rfl, rfl⟩
  · intro x _ h
    rw [x.issued_eq]
    apply h

theorem IsChain.endtime_le (hchain : IsChain ticket xs)
    (htgt : Opens prims wire.encTicketPart krbtgtKey keyUsageAsRepTgt ticket.encPart tgt)
    (htimely : ∀ x ∈ xs, x.Timely) :
  ∀ x ∈ xs, x.issued.endtime ≤ tgt.endtime
  := by
  have hall := hchain.tickets htgt (P := fun t => t.endtime ≤ tgt.endtime) (Int64.le_refl _)
    (fun x hx h => Int64.le_trans (htimely x hx).2 h)
  intro x hx
  apply (hall x hx).2

theorem exists_tgsExchange_at {realm : String} {sname : List String} {svc : PrincipalRecord}
    (hsvc : store realm sname = .ok (some svc))
    (htgt : Opens prims wire.encTicketPart krbtgtKey keyUsageAsRepTgt ticket.encPart tgt)
    (crealm : String) (ctime now : Int64) :
  ∃ x : TgsExchange wire prims krbtgtKey,
    x.req.tgt = ticket ∧ x.svc = svc ∧ x.now = now
      ∧ x.authenticator.crealm = crealm ∧ x.authenticator.ctime = ctime
  := by
  let authenticator : Authenticator := ⟨crealm, tgt.cname, none, 0, ctime, 0⟩
  obtain ⟨reqBytes, req, repBytes, hread, hrealm, hsname, hticket, hauth, hanswer⟩ :=
    exists_handleTgsReq (hasRandom_still now) htgt authenticator rfl hsvc 0
  obtain ⟨x, hhost, hstore, hreq, -⟩ := exists_tgsExchange hanswer
  obtain rfl : x.req = req := by
    apply Except.ok.inj (x.reads.symm.trans _)
    rw [hreq, hread]
  obtain rfl : x.tgt = tgt := x.presents.unique (hticket ▸ htgt)
  have hauthenticator : x.authenticator = authenticator := x.authenticates.unique hauth
  have hfinds := x.finds
  rw [hstore, hrealm, hsname, hsvc] at hfinds
  refine ⟨x, hticket, (Option.some.inj (Except.ok.inj hfinds)).symm, ?_, ?_, ?_⟩
  · rw [TgsExchange.now, hhost]
    rfl
  · rw [hauthenticator]
  · rw [hauthenticator]

theorem exists_chain {realm : String} {sname : List String} {svc : PrincipalRecord}
    (hsvc : store realm sname = .ok (some svc)) (hkey : svc.key = krbtgtKey) (crealm : String)
    (ctime : Int64) (times : List Int64)
    (htgt : Opens prims wire.encTicketPart krbtgtKey keyUsageAsRepTgt ticket.encPart tgt) :
  ∃ xs : List (TgsExchange wire prims krbtgtKey),
    IsChain ticket xs ∧ xs.map TgsExchange.now = times
      ∧ ∀ x ∈ xs, x.authenticator.crealm = crealm ∧ x.authenticator.ctime = ctime
  := by
  induction times generalizing ticket tgt with
  | nil =>
    use []
    simp [IsChain]
  | cons now times ih =>
    obtain ⟨x, hticket, rfl, hnow, hauth⟩ := exists_tgsExchange_at hsvc htgt crealm ctime now
    have hopens := x.issues
    rw [hkey] at hopens
    obtain ⟨xs, hchain, htimes, hauths⟩ := ih hopens
    use x :: xs
    refine ⟨⟨hticket, fun _ => hkey, hchain⟩, ?_, ?_⟩
    · rw [List.map_cons, hnow, htimes]
    · intro y hy
      obtain rfl | hy := List.mem_cons.mp hy
      · apply hauth
      · apply hauths y hy

end

/-- A request is timely exactly when it is in time; and when all requests of a chain are in
time, no ticket of the chain is valid after the end of the first. -/
theorem tgs_lifetime_exact (wire : Wire) (prims : Primitives) (krbtgtKey : Aes256Key) :
  (∀ x : TgsExchange wire prims krbtgtKey, x.Timely ↔ x.InTime)
    ∧ ∀ (ticket : Ticket) (tgt : EncTicketPart) (xs : List (TgsExchange wire prims krbtgtKey)),
      Opens prims wire.encTicketPart krbtgtKey keyUsageAsRepTgt ticket.encPart tgt →
      IsChain ticket xs → (∀ x ∈ xs, x.InTime) → ∀ x ∈ xs, x.issued.endtime ≤ tgt.endtime
  := by
  constructor
  · apply TgsExchange.timely_iff
  · intro ticket tgt xs htgt hchain hintime
    apply hchain.endtime_le htgt
    intro x hx
    apply x.timely_iff.mpr (hintime x hx)

/-- Requests in the second in which the first ticket was issued are in time. -/
theorem tgs_lifetime_same_second :
  ∃ (ticket : Ticket) (tgt : EncTicketPart) (xs : List (TgsExchange .unary .plain krbtgt.key)),
    Opens .plain Wire.unary.encTicketPart krbtgt.key keyUsageAsRepTgt ticket.encPart tgt
      ∧ IsChain ticket xs ∧ xs.length = 2 ∧ (∀ x ∈ xs, x.InTime)
      ∧ ∀ x ∈ xs, x.issued.endtime ≤ tgt.endtime
  := by
  obtain ⟨reqBytes, req, rep, sessionKey, -, -, -, -, htgt⟩ :=
    exists_handleAsReq .unary .plain (hasRandom_still 0) realmStore_alice krbtgt.key 7
  obtain ⟨xs, hchain, htimes, hauths⟩ :=
    exists_chain realmStore_krbtgt rfl "EXAMPLE.COM" 0 [0, 0] htgt
  have hnow : ∀ x ∈ xs, x.now = 0 := by
    intro x hx
    have hmem := List.mem_map_of_mem (f := TgsExchange.now) hx
    simpa [htimes] using hmem
  have htickets := hchain.tickets htgt
    (P := fun t => t.starttime = 0 ∧ t.endtime = 36000 ∧ t.crealm = "EXAMPLE.COM")
    ⟨rfl, rfl, rfl⟩ (by
      intro x hx h
      rw [x.issued_eq, hnow x hx]
      exact ⟨rfl, rfl, h.2.2⟩)
  have hintime : ∀ x ∈ xs, x.InTime := by
    intro x hx
    obtain ⟨⟨hstart, hend, hrealm⟩, -⟩ := htickets x hx
    obtain ⟨hcrealm, hctime⟩ := hauths x hx
    refine ⟨⟨?_, ?_, ?_, ?_⟩, ?_⟩
    · rw [hstart, hnow x hx]
      decide
    · rw [hend, hnow x hx]
      decide
    · rw [hctime, hnow x hx]
      decide
    · rw [hcrealm, hrealm]
    · rw [hend, hnow x hx]
      decide
  have hlength : xs.length = 2 := by
    rw [← List.length_map, htimes]
    rfl
  exact ⟨_, _, xs, htgt, hchain, hlength, hintime,
    (tgs_lifetime_exact .unary .plain krbtgt.key).2 _ _ xs htgt hchain hintime⟩

/-- Long after the end of the first ticket a chain goes on, with an authenticator that was made
when the ticket was issued and in another realm. -/
theorem expired_tgt_renewed :
  ∃ (reqBytes : Bytes) (rep : AsRep) (tgt : EncTicketPart)
      (xs : List (TgsExchange .unary .plain krbtgt.key)),
    handleAsReq .unary .plain (.still 0) realmStore krbtgt.key reqBytes
        = .ok (Wire.unary.asRep.encode rep)
      ∧ Opens .plain Wire.unary.encTicketPart krbtgt.key keyUsageAsRepTgt rep.ticket.encPart tgt
      ∧ tgt.endtime = 36000
      ∧ IsChain rep.ticket xs ∧ xs.map TgsExchange.now = [1000000, 2000000]
      ∧ ∀ x ∈ xs, tgt.endtime < x.now
        ∧ clockSkewToleranceSecs.toInt < |x.authenticator.ctime.toInt - x.now.toInt|
        ∧ x.authenticator.crealm ≠ x.tgt.crealm
        ∧ tgt.endtime < x.issued.endtime
  := by
  obtain ⟨reqBytes, req, rep, sessionKey, -, -, -, hanswer, htgt⟩ :=
    exists_handleAsReq .unary .plain (hasRandom_still 0) realmStore_alice krbtgt.key 7
  obtain ⟨xs, hchain, htimes, hauths⟩ :=
    exists_chain realmStore_krbtgt rfl "OTHER.COM" 0 [1000000, 2000000] htgt
  refine ⟨reqBytes, rep, _, xs, hanswer, htgt, rfl, hchain, htimes, ?_⟩
  intro x hx
  have hnow : x.now = 1000000 ∨ x.now = 2000000 := by
    have hmem := List.mem_map_of_mem (f := TgsExchange.now) hx
    simpa [htimes] using hmem
  have hend : (tgtPart ((Host.still 0).clock 1) alice sessionKey).endtime = 36000 := rfl
  have hcrealm : x.tgt.crealm = "EXAMPLE.COM" := (hchain.sameClient htgt x hx).1.1
  have hissued : x.issued.endtime = x.now + defaultSvcTicketLifetimeSecs := by
    rw [x.issued_eq, svcTicketPart]
  rw [hend, (hauths x hx).1, (hauths x hx).2, hcrealm, hissued]
  obtain hnow | hnow := hnow <;> rw [hnow] <;> decide

end Kdc
