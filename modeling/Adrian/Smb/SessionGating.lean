import Adrian.Lib.History
import Adrian.Lib.Run
import Adrian.Smb.Server

/-!
# Access to files needs a session

A file is opened, read or written only in a session of the connection, and a session is made by a
`SESSION_SETUP`, whose response tells its id, or by a `TREE_CONNECT` that names none.  So when every
`TREE_CONNECT` names a session, files are accessed only in sessions that a `SESSION_SETUP` has
returned and that have not been logged off since.
-/

namespace Smb

open History Run

def LoggedOn (c : ℕ) (sessionId : UInt64) (past : List Exchange) : Prop :=
  Since
    (fun e => e.conn = c ∧ e.request = .sessionSetup ∧ e.response.header.sessionId = sessionId
      ∧ e.response.Succeeded)
    (fun e => e.conn = c ∧ e.request = .logoff ∧ e.header.sessionId = sessionId)
    past

instance (c : ℕ) (sessionId : UInt64) (past : List Exchange) :
    Decidable (LoggedOn c sessionId past) :=
  inferInstanceAs (Decidable (Since _ _ _))

def Request.IsFileAccess : Request → Prop
  | .create _ | .read _ | .write _ => True
  | _ => False

instance : (request : Request) → Decidable request.IsFileAccess
  | .create _ | .read _ | .write _ => isTrue trivial
  | .negotiate | .sessionSetup | .logoff | .treeConnect _ | .treeDisconnect | .close _ | .echo
  | .other => isFalse id

namespace ConnectionState

variable {toLowercase : String → String} {self : ConnectionState} {files : Files}
variable {header : Smb2Header} {s : UInt64}

def Live (self : ConnectionState) (sessionId : UInt64) : Prop :=
  (self.sessions sessionId).isSome

instance (self : ConnectionState) (sessionId : UInt64) : Decidable (self.Live sessionId) :=
  inferInstanceAs (Decidable (_ = true))

def NamesSession (toLowercase : String → String) (self : ConnectionState) (header : Smb2Header) :
    Request → Prop
  | .treeConnect req =>
    self.shares (parseShareName toLowercase req.path) = none ∨ self.Live header.sessionId
  | _ => True

instance : (request : Request) → Decidable (self.NamesSession toLowercase header request)
  | .treeConnect _ => inferInstanceAs (Decidable (_ ∨ _))
  | .negotiate | .sessionSetup | .logoff | .treeDisconnect | .create _ | .read _ | .write _
  | .close _ | .echo | .other => isTrue trivial

theorem live_modifySession {id : UInt64} {f : SessionState → SessionState} :
  (self.modifySession id f).Live s ↔ self.Live s
  := by
  simp only [Live, modifySession, Function.update_apply]
  split_ifs with h
  · rw [h, Option.isSome_map]
  · exact Iff.rfl

theorem live_handleSessionSetup (h : (self.handleSessionSetup header).1.Live s) :
  (self.handleSessionSetup header).2.header.sessionId = s
      ∧ (self.handleSessionSetup header).2.Succeeded
    ∨ self.Live s
  := by
  rw [handleSessionSetup] at h ⊢
  split_ifs at h ⊢
  · simp only [Live, allocSession, Function.update_apply] at h
    split_ifs at h with hs
    · exact .inl ⟨hs.symm, rfl⟩
    · exact .inr h
  · exact .inr h

theorem live_handleLogoff (h : (self.handleLogoff header).1.Live s) :
  header.sessionId ≠ s ∧ self.Live s
  := by
  simp only [Live, handleLogoff, Function.update_apply] at h
  split_ifs at h with hs
  · cases h
  · exact ⟨Ne.symm hs, h⟩

theorem live_handleTreeConnect {req : TreeConnectRequest}
    (hnames : self.NamesSession toLowercase header (.treeConnect req)) :
  (self.handleTreeConnect toLowercase header req).1.Live s ↔ self.Live s
  := by
  rw [handleTreeConnect]
  cases hshare : self.shares (parseShareName toLowercase req.path) with
  | none => exact Iff.rfl
  | some share =>
    have hlive : self.allocTreeId.2.Live header.sessionId := by
      obtain hnone | hlive := hnames
      · rw [hshare] at hnone
        cases hnone
      · apply hlive
    simp only
    rw [if_pos (by apply hlive), live_modifySession]
    exact Iff.rfl

theorem live_handleCreate {req : CreateRequest} :
  (self.handleCreate files header req).1.Live s ↔ self.Live s
  := by
  rw [handleCreate]
  cases self.shareForSession header.sessionId with
  | none => exact Iff.rfl
  | some share =>
    simp only
    cases (files share.fs).resolve req.name req.createDisposition with
    | error status => exact Iff.rfl
    | ok r =>
      rw [live_modifySession]
      exact Iff.rfl

theorem live_dispatchFrame {request : Request} {response : Response}
    (hnames : self.NamesSession toLowercase header request)
    (hresponse : (self.dispatchFrame toLowercase files header request).2.2 = some response)
    (h : (self.dispatchFrame toLowercase files header request).1.Live s) :
  (request = .sessionSetup ∧ response.header.sessionId = s ∧ response.Succeeded)
    ∨ ¬ (request = .logoff ∧ header.sessionId = s) ∧ self.Live s
  := by
  cases request with
  | sessionSetup =>
    obtain rfl := Option.some.inj hresponse
    obtain hs | hs := live_handleSessionSetup h
    · exact .inl ⟨rfl, hs⟩
    · exact .inr ⟨by simp, hs⟩
  | logoff =>
    obtain ⟨hne, hs⟩ := live_handleLogoff h
    exact .inr ⟨fun hlogoff => hne hlogoff.2, hs⟩
  | treeConnect req => exact .inr ⟨by simp, (live_handleTreeConnect hnames).mp h⟩
  | create req => exact .inr ⟨by simp, live_handleCreate.mp h⟩
  | treeDisconnect | close _ => exact .inr ⟨by simp, live_modifySession.mp h⟩
  | negotiate | read _ | write _ | echo | other => exact .inr ⟨by simp, h⟩

theorem live_of_succeeded {request : Request} {response : Response}
    (hresponse : (self.dispatchFrame toLowercase files header request).2.2 = some response)
    (haccess : request.IsFileAccess) (h : response.Succeeded) :
  self.Live header.sessionId
  := by
  by_contra hlive
  have hnone : self.sessions header.sessionId = none := by
    apply Option.not_isSome_iff_eq_none.mp hlive
  cases request with
  | create req =>
    simp only [dispatchFrame, handleCreate, shareForSession, hnone, Option.bind_none] at hresponse
    obtain rfl := Option.some.inj hresponse
    exact absurd h (Response.errorResponse_not_succeeded (by decide))
  | read req =>
    simp only [dispatchFrame, handleRead, lookupOpenFile, hnone, Option.bind_none] at hresponse
    obtain rfl := Option.some.inj hresponse
    exact absurd h (Response.errorResponse_not_succeeded (by decide))
  | write req =>
    simp only [dispatchFrame, handleWrite, lookupOpenFile, hnone, Option.bind_none] at hresponse
    obtain rfl := Option.some.inj hresponse
    exact absurd h (Response.errorResponse_not_succeeded (by decide))
  | negotiate | sessionSetup | logoff | treeConnect _ | treeDisconnect | close _ | echo | other =>
    cases haccess

end ConnectionState

/-! ### Runs of the server -/

namespace Server

def NamesSession (toLowercase : String → String) (server : Server) : Event → Prop
  | .request c header request =>
    ∀ conn ∈ server.conns c, conn.NamesSession toLowercase header request
  | .hangUp _ => True

instance (toLowercase : String → String) (server : Server) :
    (event : Event) → Decidable (server.NamesSession toLowercase event)
  | .request _ _ _ => inferInstanceAs (Decidable (∀ _ ∈ _, _))
  | .hangUp _ => isTrue trivial

def Gated (past : List Exchange) : Prop :=
  Throughout
    (fun e older => e.request.IsFileAccess → e.response.Succeeded →
      LoggedOn e.conn e.header.sessionId older)
    past

instance (past : List Exchange) : Decidable (Gated past) :=
  inferInstanceAs (Decidable (Throughout _ _))

structure Guarded (server : Server) : Prop where
  gated : Gated server.past
  loggedOn : ∀ c, ∀ conn ∈ server.conns c, ∀ s, conn.Live s → LoggedOn c s server.past

variable {toLowercase : String → String} {server server' : Server}

theorem Guarded.ended (h : server.Guarded) (c : ℕ) (files : Files) :
  Guarded { server with conns := Function.update server.conns c none, files }
  := by
  constructor
  · apply h.gated
  · intro c' conn hconn
    apply h.loggedOn c' conn (mem_conns_of_ended hconn)

theorem guarded_step {event : Event} (h : server.Guarded)
    (hnames : server.NamesSession toLowercase event)
    (hstep : server.step toLowercase event = some server') :
  server'.Guarded
  := by
  cases step_cases hstep with
  | hungUp => apply h.ended
  | panicked hconn hdispatch => apply h.ended
  | @answered c header request conn conn' files response hconn hdispatch =>
    have hresponse := congrArg (·.2.2) hdispatch
    constructor
    · refine ⟨?_, h.gated⟩
      intro haccess hsucceeded
      apply h.loggedOn c conn hconn
      apply ConnectionState.live_of_succeeded hresponse haccess hsucceeded
    · intro c' conn₁ hconn₁ s hs
      apply since_cons.mpr
      obtain ⟨rfl, rfl⟩ | ⟨hc, hconn₁⟩ := mem_conns_of_answered hconn₁
      · have hlive : (conn.dispatchFrame toLowercase server.files header request).1.Live s := by
          rw [hdispatch]
          apply hs
        obtain hreturned | ⟨hlogoff, hlive⟩ :=
          ConnectionState.live_dispatchFrame (hnames conn hconn) hresponse hlive
        · exact .inl ⟨rfl, hreturned⟩
        · exact .inr ⟨fun h => hlogoff h.2, h.loggedOn c conn hconn s hlive⟩
      · exact .inr ⟨fun h => hc h.1, h.loggedOn c' conn₁ hconn₁ s hs⟩

theorem guarded_new (serverGuid : Uuid) (serverSalt : Bytes)
    (shares : String → Option Share) (files : Files) :
  (new serverGuid serverSalt shares files).Guarded
  := by
  constructor
  · trivial
  · intro c conn hconn s hs
    obtain rfl := Option.some.inj hconn
    cases hs

/-- Files are accessed only in sessions that a `SESSION_SETUP` on the connection has returned and
that have not been logged off since, in every run in which each `TREE_CONNECT` names a session. -/
theorem session_gating {serverGuid : Uuid} {serverSalt : Bytes}
    {shares : String → Option Share} {files : Files} {events : List Event}
    (hnames : Along (step toLowercase) (NamesSession toLowercase)
      (new serverGuid serverSalt shares files) events)
    (hrun : exec (step toLowercase) (new serverGuid serverSalt shares files) events
      = some server) :
  Gated server.past
  := by
  have hguarded : server.Guarded :=
    exec_invariant (fun _ _ _ => guarded_step) (guarded_new _ _ _ _) hnames hrun
  apply hguarded.gated

end Server

namespace Sysvol

/-- A client sets up a session, connects to the share and opens a file. -/
def polite : List Event :=
  [request 0 .sessionSetup, request 1 (.treeConnect ⟨"\\\\server\\sysvol"⟩),
    request 1 (.create (.new "a"))]

/-- A client connects to the share without a session, and opens a file in the first one. -/
def impolite : List Event :=
  [request 0 (.treeConnect ⟨"\\\\server\\sysvol"⟩), request 1 (.create (.new "a"))]

end Sysvol

namespace Server

/-- The requests of the client that sets up a session succeed, and it is logged on. -/
theorem session_gating_polite :
  Along (step id) (NamesSession id) Sysvol.server Sysvol.polite
    ∧ ∃ server, exec (step id) Sysvol.server Sysvol.polite = some server
      ∧ server.past.map (fun e => decide e.response.Succeeded) = [true, true, true]
      ∧ Gated server.past
  := by
  have hnames : Along (step id) (NamesSession id) Sysvol.server Sysvol.polite := by
    decide +kernel
  have hpast : (exec (step id) Sysvol.server Sysvol.polite).map
      (fun server => server.past.map fun e => decide e.response.Succeeded)
        = some [true, true, true] := by
    decide +kernel
  obtain ⟨server, hrun, hpast⟩ := Option.map_eq_some_iff.mp hpast
  exact ⟨hnames, server, hrun, hpast, session_gating hnames hrun⟩

/-- The other client has opened the file without a session having been set up. -/
theorem impolite_not_gated :
  ∃ server, exec (step id) Sysvol.server Sysvol.impolite = some server ∧ ¬ Gated server.past
  := by
  have hgated : (exec (step id) Sysvol.server Sysvol.impolite).map
      (fun server => decide (Gated server.past)) = some false := by
    decide +kernel
  obtain ⟨server, hrun, hgated⟩ := Option.map_eq_some_iff.mp hgated
  exact ⟨server, hrun, of_decide_eq_false hgated⟩

end Server

end Smb
