import Adrian.Kdc.Handlers

/-!
# From the first ticket to a service

The reply of the authentication service and its ticket show the same session key, client and
times to the client and to the ticket-granting service; and a ticket for a service shows that client
and the session key of its reply to the service.
-/

namespace Kdc

theorem randomBytes_eq_ok {len : ℕ} {fill : Option (Vector UInt8 len)} {buf : Vector UInt8 len} :
  randomBytes fill = .ok buf ↔ fill = some buf
  := by
  cases fill <;> simp [randomBytes]

/-! ### Decryption for a usage -/

theorem constantTimeEq_self (a : Bytes) :
  constantTimeEq a a = true
  := by
  simp [constantTimeEq]

theorem encryptForUsage_spec (prims : Primitives) (confounder : Vector UInt8 16) (key : Aes256Key)
    (keyUsage : UInt32) (plaintext : Bytes) :
  ∃ blob, encryptForUsage prims (some confounder) key keyUsage plaintext = .ok blob
    ∧ blob.length = 16 + plaintext.length + 12
    ∧ decryptForUsage prims key keyUsage blob = .ok plaintext
  := by
  let ke := deriveEncryptionKey prims key keyUsage
  let ki := deriveIntegrityKey prims key keyUsage
  let full := confounder.toList ++ plaintext
  have hfull : 16 ≤ full.length := by
    rw [List.length_append, Vector.length_toList]
    omega
  obtain ⟨ct, hct, hlength, hpt⟩ := aes256CtsEncrypt_spec prims ke hfull
  have htag := length_hmacSha196 prims ki full
  use ct ++ hmacSha196 prims ki full
  refine ⟨?_, ?_, ?_⟩
  · simp only [encryptForUsage, randomBytes]
    apply Except.bind_eq_ok.mpr
    refine ⟨confounder, rfl, Except.bind_eq_ok.mpr ⟨ct, Except.mapError_eq_ok.mpr hct, rfl⟩⟩
  · rw [List.length_append, htag, hlength, List.length_append, Vector.length_toList]
  · have hctLen : (ct ++ hmacSha196 prims ki full).length - hmacSha196Len = ct.length := by
      rw [List.length_append, htag, hmacSha196Len, Nat.add_sub_cancel]
    have hlong : ¬ (ct ++ hmacSha196 prims ki full).length < confounderLen + hmacSha196Len := by
      rw [List.length_append, htag]
      simp only [confounderLen, aesBlockLen, hmacSha196Len]
      omega
    simp only [decryptForUsage, if_neg hlong, hctLen, List.take_left, List.drop_left]
    apply Except.bind_eq_ok.mpr
    refine ⟨full, Except.mapError_eq_ok.mpr hpt, ?_⟩
    rw [if_pos (constantTimeEq_self _)]
    congr 1
    apply List.drop_left' confounder.length_toList

section

variable {prims : Primitives}

variable {key : Aes256Key} {keyUsage : UInt32} {blob : Bytes}

theorem decryptForUsage_encrypt {confounder : Option (Vector UInt8 16)} {plaintext : Bytes}
    (h : encryptForUsage prims confounder key keyUsage plaintext = .ok blob) :
  decryptForUsage prims key keyUsage blob = .ok plaintext
  := by
  cases confounder with
  | none => cases h
  | some confounder =>
    obtain ⟨blob', henc, -, hdec⟩ :=
      encryptForUsage_spec prims confounder key keyUsage plaintext
    obtain rfl : blob = blob' := Except.ok.inj (h.symm.trans henc)
    apply hdec

def Opens (prims : Primitives) {α : Type} (codec : Codec α) (key : Aes256Key) (keyUsage : UInt32)
    (blob : Bytes) (x : α) : Prop :=
  ∃ plaintext, decryptForUsage prims key keyUsage blob = .ok plaintext
    ∧ codec.decode plaintext = .ok x

theorem opens_of_encrypt {α : Type} {codec : Codec α} {confounder : Option (Vector UInt8 16)}
    {x : α} (h : encryptForUsage prims confounder key keyUsage (codec.encode x) = .ok blob) :
  Opens prims codec key keyUsage blob x
  := ⟨codec.encode x, decryptForUsage_encrypt h, codec.decode_encode_eq x⟩

theorem Opens.unique {α : Type} {codec : Codec α} {x y : α}
    (hx : Opens prims codec key keyUsage blob x) (hy : Opens prims codec key keyUsage blob y) :
  x = y
  := by
  obtain ⟨plaintext, hdec, hread⟩ := hx
  obtain ⟨plaintext', hdec', hread'⟩ := hy
  obtain rfl : plaintext = plaintext' := Except.ok.inj (hdec.symm.trans hdec')
  apply Except.ok.inj (hread.symm.trans hread')

end

section

variable {wire : Wire} {prims : Primitives} {host : Host} {store : PrincipalStore}
  {krbtgtKey : Aes256Key} {reqBytes repBytes : Bytes}

theorem decodeWith_eq_ok {α : Type} {codec : Codec α} {bytes : Bytes} {x : α} :
  decodeWith codec bytes = .ok x ↔ codec.decode bytes = .ok x
  := Except.mapError_eq_ok

variable {realm : String}

theorem findPrincipal_eq_ok {what : String} {components : List String} {record : PrincipalRecord} :
  findPrincipal store what realm components = .ok record
    ↔ store realm components = .ok (some record)
  := by
  rw [findPrincipal]
  split <;> rename_i heq <;> rw [heq] <;> simp

theorem handleAsReq_eq_ok :
  handleAsReq wire prims host store krbtgtKey reqBytes = .ok repBytes
    ↔ ∃ req etype client sessionKey ticketEnc encPart,
      wire.asReq.decode reqBytes = .ok req
        ∧ negotiateEtype req.etypes = .ok etype
        ∧ store req.realm req.cname = .ok (some client)
        ∧ verifyPreauth wire prims (host.clock 0) client req.padata = .ok ()
        ∧ host.random 0 32 = some sessionKey
        ∧ encryptForUsage prims (host.random 1 16) krbtgtKey keyUsageAsRepTgt
          (wire.encTicketPart.encode (tgtPart (host.clock 1) client sessionKey)) = .ok ticketEnc
        ∧ encryptForUsage prims (host.random 2 16) client.key keyUsageAsRepEncPart
          (wire.encKdcRepPart.encode (asRepPart (host.clock 1) client sessionKey req.nonce))
            = .ok encPart
        ∧ repBytes = wire.asRep.encode (asRep client etype ticketEnc encPart)
  := by
  simp only [handleAsReq, Except.bind_eq_ok, decodeWith_eq_ok, findPrincipal_eq_ok,
    randomBytes_eq_ok, Except.ok.injEq]
  constructor
  · rintro ⟨req, hreq, etype, hetype, client, hclient, ⟨⟩, hpre, key, hkey, t, ht, p, hp, rfl⟩
    exact ⟨req, etype, client, key, t, p, hreq, hetype, hclient, hpre, hkey, ht, hp, rfl⟩
  · rintro ⟨req, etype, client, key, t, p, hreq, hetype, hclient, hpre, hkey, ht, hp, rfl⟩
    exact ⟨req, hreq, etype, hetype, client, hclient, (), hpre, key, hkey, t, ht, p, hp, rfl⟩

theorem handleTgsReq_eq_ok :
  handleTgsReq wire prims host store krbtgtKey reqBytes = .ok repBytes
    ↔ ∃ req etype tgt authenticator svc ticketEnc encPart,
      wire.tgsReq.decode reqBytes = .ok req
        ∧ negotiateEtype req.etypes = .ok etype
        ∧ Opens prims wire.encTicketPart krbtgtKey keyUsageAsRepTgt req.tgt.encPart tgt
        ∧ Opens prims wire.authenticator tgt.sessionKey keyUsageTgsReqAuthenticator
          req.authenticatorEnc authenticator
        ∧ principalNamesEq authenticator.cname tgt.cname
        ∧ store req.realm req.sname = .ok (some svc)
        ∧ encryptForUsage prims (host.random 0 16) svc.key keyUsageTgsRepTicket
          (wire.encTicketPart.encode (svcTicketPart (host.clock 0) tgt)) = .ok ticketEnc
        ∧ encryptForUsage prims (host.random 1 16) tgt.sessionKey keyUsageTgsRepEncPart
          (wire.encKdcRepPart.encode (tgsRepPart (host.clock 0) tgt svc req.nonce)) = .ok encPart
        ∧ repBytes = wire.tgsRep.encode (tgsRep tgt svc etype req.tgt.kvno ticketEnc encPart)
  := by
  have hverify : ∀ tgt authenticator, verifyAuthenticator tgt authenticator = .ok ()
      ↔ principalNamesEq authenticator.cname tgt.cname := by
    intro tgt authenticator
    rw [verifyAuthenticator]
    split_ifs with h <;> simp [h]
  simp only [handleTgsReq, Except.bind_eq_ok, decodeWith_eq_ok, findPrincipal_eq_ok,
    Except.ok.injEq]
  constructor
  · rintro ⟨req, hreq, etype, hetype, b, hb, tgt, htgt, b', hb', auth, hauth, ⟨⟩, hname, svc, hsvc,
      t, ht, p, hp, rfl⟩
    exact ⟨req, etype, tgt, auth, svc, t, p, hreq, hetype, ⟨b, hb, htgt⟩, ⟨b', hb', hauth⟩,
      (hverify tgt auth).mp hname, hsvc, ht, hp, rfl⟩
  · rintro ⟨req, etype, tgt, auth, svc, t, p, hreq, hetype, ⟨b, hb, htgt⟩, ⟨b', hb', hauth⟩,
      hname, hsvc, ht, hp, rfl⟩
    exact ⟨req, hreq, etype, hetype, b, hb, tgt, htgt, b', hb', auth, hauth, (),
      (hverify tgt auth).mpr hname, svc, hsvc, t, ht, p, hp, rfl⟩

/-! ### Answers -/

def Host.HasRandom (host : Host) : Prop :=
  ∀ i len, ∃ buf, host.random i len = some buf

theorem Host.HasRandom.encrypt (h : host.HasRandom) (prims : Primitives) (i : ℕ) (key : Aes256Key)
    (keyUsage : UInt32) (plaintext : Bytes) :
  ∃ blob, encryptForUsage prims (host.random i 16) key keyUsage plaintext = .ok blob
  := by
  obtain ⟨confounder, hrandom⟩ := h i 16
  obtain ⟨blob, henc, -⟩ := encryptForUsage_spec prims confounder key keyUsage plaintext
  rw [hrandom]
  exact ⟨blob, henc⟩

theorem verifyPreauth_of_opens {now : Int64} {client : PrincipalRecord} {padata : List PaData}
    {blob : Bytes} {ts : PaEncTsEnc} (hfind : findPaEncTimestamp padata = some blob)
    (hopens : Opens prims wire.paEncTsEnc client.key keyUsageAsReqPaEncTimestamp blob ts)
    (hskew : (now - ts.patimestamp).abs ≤ clockSkewToleranceSecs) :
  verifyPreauth wire prims now client padata = .ok ()
  := by
  obtain ⟨plaintext, hdec, hread⟩ := hopens
  have hle : ¬ (now - ts.patimestamp).abs > clockSkewToleranceSecs := Int64.not_lt.mpr hskew
  simp only [verifyPreauth, hfind, verifyPaEncTimestamp]
  apply Except.bind_eq_ok.mpr
  refine ⟨plaintext, Except.mapError_eq_ok.mpr hdec,
    Except.bind_eq_ok.mpr ⟨ts, decodeWith_eq_ok.mpr hread, ?_⟩⟩
  rw [if_neg hle]

theorem principalNamesEq_self (names : List String) :
  principalNamesEq names names = true
  := by
  rw [principalNamesEq, decide_eq_true_iff]
  use rfl
  induction names with
  | nil => rfl
  | cons name names ih =>
    rw [List.zip_cons_cons, List.all_cons, ih]
    simp [Utf8.eqIgnoreAsciiCase]

theorem exists_handleAsReq (wire : Wire) (prims : Primitives) (hhost : host.HasRandom)
    {cname : List String} {client : PrincipalRecord}
    (hclient : store realm cname = .ok (some client)) (krbtgtKey : Aes256Key) (nonce : UInt32) :
  ∃ reqBytes req rep sessionKey,
    wire.asReq.decode reqBytes = .ok req ∧ req.realm = realm ∧ req.cname = cname
      ∧ handleAsReq wire prims host store krbtgtKey reqBytes = .ok (wire.asRep.encode rep)
      ∧ Opens prims wire.encTicketPart krbtgtKey keyUsageAsRepTgt rep.ticket.encPart
        (tgtPart (host.clock 1) client sessionKey)
  := by
  let ts : PaEncTsEnc := ⟨host.clock 0, 0⟩
  obtain ⟨blob, hblob⟩ := hhost.encrypt prims 0 client.key keyUsageAsReqPaEncTimestamp
    (wire.paEncTsEnc.encode ts)
  let req : AsReq :=
    { pvno := pvnoKerberos, msgType := msgTypeAsReq, realm, cname, nonce,
      etypes := [.aes256CtsHmacSha196], padata := [⟨paEncTimestampType, blob⟩], till := 0 }
  have hskew : (host.clock 0 - ts.patimestamp).abs ≤ clockSkewToleranceSecs := by
    rw [Int64.sub_self]
    decide
  have hpre : verifyPreauth wire prims (host.clock 0) client req.padata = .ok () :=
    verifyPreauth_of_opens rfl (opens_of_encrypt hblob) hskew
  obtain ⟨sessionKey, hkey⟩ := hhost 0 32
  obtain ⟨ticketEnc, hticket⟩ := hhost.encrypt prims 1 krbtgtKey keyUsageAsRepTgt
    (wire.encTicketPart.encode (tgtPart (host.clock 1) client sessionKey))
  obtain ⟨encPart, hpart⟩ := hhost.encrypt prims 2 client.key keyUsageAsRepEncPart
    (wire.encKdcRepPart.encode (asRepPart (host.clock 1) client sessionKey req.nonce))
  have hread := wire.asReq.decode_encode_eq req
  refine ⟨wire.asReq.encode req, req, asRep client .aes256CtsHmacSha196 ticketEnc encPart,
    sessionKey, hread, rfl, rfl, handleAsReq_eq_ok.mpr ?_, opens_of_encrypt hticket⟩
  exact ⟨req, .aes256CtsHmacSha196, client, sessionKey, ticketEnc, encPart, hread, rfl, hclient,
    hpre, hkey, hticket, hpart, rfl⟩

/-- With a ticket-granting ticket and any authenticator that names its client one can get a
ticket for a known service. -/
theorem exists_handleTgsReq (hhost : host.HasRandom) {ticket : Ticket} {tgt : EncTicketPart}
    (htgt : Opens prims wire.encTicketPart krbtgtKey keyUsageAsRepTgt ticket.encPart tgt)
    (authenticator : Authenticator) (hname : authenticator.cname = tgt.cname) {sname : List String}
    {svc : PrincipalRecord} (hsvc : store realm sname = .ok (some svc)) (nonce : UInt32) :
  ∃ reqBytes req repBytes,
    wire.tgsReq.decode reqBytes = .ok req ∧ req.realm = realm ∧ req.sname = sname
      ∧ req.tgt = ticket
      ∧ Opens prims wire.authenticator tgt.sessionKey keyUsageTgsReqAuthenticator
        req.authenticatorEnc authenticator
      ∧ handleTgsReq wire prims host store krbtgtKey reqBytes = .ok repBytes
  := by
  obtain ⟨blob, hblob⟩ := hhost.encrypt prims 0 tgt.sessionKey
    keyUsageTgsReqAuthenticator (wire.authenticator.encode authenticator)
  let req : TgsReq :=
    { pvno := pvnoKerberos, msgType := msgTypeTgsReq, realm, sname, nonce,
      etypes := [.aes256CtsHmacSha196], tgt := ticket, authenticatorEnc := blob, till := 0 }
  have hauth := opens_of_encrypt hblob
  have hnames : principalNamesEq authenticator.cname tgt.cname = true := by
    rw [hname]
    apply principalNamesEq_self
  obtain ⟨ticketEnc, hticket⟩ := hhost.encrypt prims 0 svc.key keyUsageTgsRepTicket
    (wire.encTicketPart.encode (svcTicketPart (host.clock 0) tgt))
  obtain ⟨encPart, hpart⟩ := hhost.encrypt prims 1 tgt.sessionKey keyUsageTgsRepEncPart
    (wire.encKdcRepPart.encode (tgsRepPart (host.clock 0) tgt svc req.nonce))
  have hread := wire.tgsReq.decode_encode_eq req
  let rep := tgsRep tgt svc .aes256CtsHmacSha196 ticket.kvno ticketEnc encPart
  refine ⟨wire.tgsReq.encode req, req, wire.tgsRep.encode rep, hread, rfl, rfl, rfl, hauth,
    handleTgsReq_eq_ok.mpr ?_⟩
  exact ⟨req, .aes256CtsHmacSha196, tgt, authenticator, svc, ticketEnc, encPart, hread, rfl, htgt,
    hauth, hnames, hsvc, hticket, hpart, rfl⟩

end

def SameSession (ticket : EncTicketPart) (part : EncKdcRepPart) : Prop :=
  part.sessionKey = ticket.sessionKey
    ∧ part.crealm = ticket.crealm ∧ part.cname = ticket.cname
    ∧ part.authtime = ticket.authtime ∧ part.starttime = ticket.starttime
    ∧ part.endtime = ticket.endtime ∧ part.renewTill = ticket.renewTill

def SameClient (ticket ticket' : EncTicketPart) : Prop :=
  ticket.crealm = ticket'.crealm ∧ ticket.cname = ticket'.cname
    ∧ ticket.clientUuid = ticket'.clientUuid

/-- An answer of the authentication service opens under the key of the client, and its ticket
under the key of the ticket-granting service, as one session of the client, with the nonce of
the request.

When a request with that ticket is answered, its authenticator opened under the session key and
named the client; the new ticket opens under the key of the service as one for the same client,
and the reply opens under the session key, with the session key of the new ticket and the nonce
of the request. -/
theorem exchange_agrees {wire : Wire} {prims : Primitives} {host : Host} {store : PrincipalStore}
    {krbtgtKey : Aes256Key} {reqBytes repBytes : Bytes}
    (h : handleAsReq wire prims host store krbtgtKey reqBytes = .ok repBytes) :
  ∃ req rep client tgt part,
    wire.asReq.decode reqBytes = .ok req
      ∧ store req.realm req.cname = .ok (some client)
      ∧ wire.asRep.decode repBytes = .ok rep
      ∧ Opens prims wire.encKdcRepPart client.key keyUsageAsRepEncPart rep.encPart part
      ∧ Opens prims wire.encTicketPart krbtgtKey keyUsageAsRepTgt rep.ticket.encPart tgt
      ∧ SameSession tgt part
      ∧ tgt.crealm = client.realm ∧ tgt.cname = client.components ∧ tgt.clientUuid = client.uuid
      ∧ part.nonce = req.nonce
      ∧ ∀ (host' : Host) (store' : PrincipalStore) (reqBytes' repBytes' : Bytes)
          (req' : TgsReq), wire.tgsReq.decode reqBytes' = .ok req' → req'.tgt = rep.ticket →
        handleTgsReq wire prims host' store' krbtgtKey reqBytes' = .ok repBytes' →
        ∃ authenticator svc rep' ticket' part',
          Opens prims wire.authenticator tgt.sessionKey keyUsageTgsReqAuthenticator
              req'.authenticatorEnc authenticator
            ∧ principalNamesEq authenticator.cname tgt.cname
            ∧ store' req'.realm req'.sname = .ok (some svc)
            ∧ wire.tgsRep.decode repBytes' = .ok rep'
            ∧ Opens prims wire.encTicketPart svc.key keyUsageTgsRepTicket rep'.ticket.encPart
              ticket'
            ∧ Opens prims wire.encKdcRepPart tgt.sessionKey keyUsageTgsRepEncPart rep'.encPart part'
            ∧ SameClient ticket' tgt
            ∧ ticket'.sessionKey = part'.sessionKey
            ∧ part'.nonce = req'.nonce
  := by
  obtain ⟨req, etype, client, sessionKey, ticketEnc, encPart, hreq, -, hclient, -, -, hticket,
    hpart, rfl⟩ := handleAsReq_eq_ok.mp h
  have htgt := opens_of_encrypt hticket
  refine ⟨req, _, client, tgtPart (host.clock 1) client sessionKey, _, hreq, hclient,
    wire.asRep.decode_encode_eq _, opens_of_encrypt hpart, htgt, ?_, rfl, rfl, rfl, rfl, ?_⟩
  · exact ⟨rfl, rfl, rfl, rfl, rfl, rfl, rfl⟩
  · intro host' store' reqBytes' repBytes' req' hreq' hsame hanswer
    obtain ⟨req'', etype', tgt', authenticator, svc, ticketEnc', encPart', hreq'', -, htgt', hauth,
      hname, hsvc, hticket', hpart', rfl⟩ := handleTgsReq_eq_ok.mp hanswer
    obtain rfl : req' = req'' := Except.ok.inj (hreq'.symm.trans hreq'')
    -- The ticket of the request is the one of the first reply, so it opens the same.
    rw [hsame] at htgt'
    obtain rfl := htgt'.unique htgt
    exact ⟨authenticator, svc, _, _, _, hauth, hname, hsvc, wire.tgsRep.decode_encode_eq _,
      opens_of_encrypt hticket', opens_of_encrypt hpart', ⟨rfl, rfl, rfl⟩, rfl, rfl⟩

/-! ### A realm -/

def Host.still (now : Int64) : Host where
  clock _ := now
  random _ len := some (Vector.replicate len 0)

theorem hasRandom_still (now : Int64) :
  (Host.still now).HasRandom
  := fun _ _ => ⟨_, rfl⟩

def alice : PrincipalRecord where
  uuid := 1
  realm := "EXAMPLE.COM"
  components := ["alice"]
  key := Vector.replicate 32 1
  kvno := 1

def web : PrincipalRecord where
  uuid := 2
  realm := "EXAMPLE.COM"
  components := ["host", "web"]
  key := Vector.replicate 32 2
  kvno := 1

def krbtgt : PrincipalRecord where
  uuid := 3
  realm := "EXAMPLE.COM"
  components := ["krbtgt", "EXAMPLE.COM"]
  key := Vector.replicate 32 3
  kvno := 1

def realmStore : PrincipalStore := fun realm components =>
  .ok ([alice, web, krbtgt].find? fun r => r.realm = realm ∧ r.components = components)

theorem realmStore_alice :
  realmStore "EXAMPLE.COM" ["alice"] = .ok (some alice)
  := by
  decide

theorem realmStore_web :
  realmStore "EXAMPLE.COM" ["host", "web"] = .ok (some web)
  := by
  decide

theorem realmStore_krbtgt :
  realmStore "EXAMPLE.COM" ["krbtgt", "EXAMPLE.COM"] = .ok (some krbtgt)
  := by
  decide

/-- A request for a ticket-granting ticket and one for a ticket are answered, and the service
finds the client in its ticket. -/
theorem exchange_alice_web :
  ∃ reqBytes repBytes reqBytes' repBytes' rep' ticket',
    handleAsReq .unary .plain (.still 100) realmStore krbtgt.key reqBytes = .ok repBytes
      ∧ handleTgsReq .unary .plain (.still 200) realmStore krbtgt.key reqBytes' = .ok repBytes'
      ∧ Wire.unary.tgsRep.decode repBytes' = .ok rep'
      ∧ Opens .plain Wire.unary.encTicketPart web.key keyUsageTgsRepTicket rep'.ticket.encPart
        ticket'
      ∧ ticket'.clientUuid = alice.uuid
  := by
  obtain ⟨reqBytes, req, rep₁, sessionKey, hread, hrealm, hcname, hanswer, -⟩ :=
    exists_handleAsReq .unary .plain (hasRandom_still 100) realmStore_alice krbtgt.key 7
  obtain ⟨req₁, rep, client, tgt, part, hreq, hclient, -, -, htgt, -, -, -, huuid, -, htgs⟩ :=
    exchange_agrees hanswer
  obtain rfl : req = req₁ := Except.ok.inj (hread.symm.trans hreq)
  obtain rfl : alice = client := by
    rw [hrealm, hcname, realmStore_alice] at hclient
    apply Option.some.inj (Except.ok.inj hclient)
  obtain ⟨reqBytes', req', repBytes', hread', hrealm', hsname', htgt', -, hanswer'⟩ :=
    exists_handleTgsReq (hasRandom_still 200) htgt ⟨tgt.crealm, tgt.cname, none, 0, 200, 0⟩ rfl
      realmStore_web 8
  obtain ⟨authenticator, svc, rep', ticket', part', -, -, hsvc, hrep', hticket', -, hsame, -⟩ :=
    htgs _ _ _ _ req' hread' htgt' hanswer'
  obtain rfl : web = svc := by
    rw [hrealm', hsname', realmStore_web] at hsvc
    apply Option.some.inj (Except.ok.inj hsvc)
  exact ⟨reqBytes, _, reqBytes', repBytes', rep', ticket', hanswer, hanswer', hrep',
    hticket', hsame.2.2.trans huuid⟩

end Kdc
