import Adrian.Lib.Run
import Adrian.Smb.FileHistory

/-!
# What is read from files

Each file that is open in a session is what its id stands for there, and the files hold what the
requests have made of them; so a `READ` that succeeds is of a file that is open, and returns a part
of it.
-/

namespace Smb

open History Run

def Files.sparse (files : Files) : FileMap :=
  fun p => (files p.1).sparse p.2

theorem Files.sparse_update {files : Files} {fs : ℕ} {vfs : VirtualFs} {path : String}
    {file : Option (SparseFile UInt8)}
    (h : vfs.sparse = Function.update (files fs).sparse path file) :
  Files.sparse (Function.update files fs vfs) = Function.update files.sparse (fs, path) file
  := by
  funext ⟨fs', path'⟩
  simp only [Files.sparse, Function.update_apply, Prod.mk.injEq]
  by_cases hfs : fs' = fs
  · subst hfs
    rw [if_pos rfl, h, Function.update_apply]
    simp only [true_and]
  · rw [if_neg hfs, if_neg fun h => hfs h.1]

/-! ### Requests -/

def Request.WritesBelow : Request → Prop
  | .write req => req.offset.toNat + req.data.length < 2 ^ 64
  | _ => True

instance : (request : Request) → Decidable request.WritesBelow
  | .write _ => inferInstanceAs (Decidable (_ < _))
  | .negotiate | .sessionSetup | .logoff | .treeConnect _ | .treeDisconnect | .create _ | .close _
  | .read _ | .echo | .other => isTrue trivial

namespace ConnectionState

variable {toLowercase : String → String} {self self' : ConnectionState} {files files' : Files}
variable {header : Smb2Header} {s : UInt64} {f : FileId} {o : OpenFile}

theorem lookupOpenFile_modifySession (id : UInt64) (g : SessionState → SessionState) :
  (self.modifySession id g).lookupOpenFile s f
    = if s = id then (self.sessions s).bind (fun session => (g session).openFiles f)
      else self.lookupOpenFile s f
  := by
  simp only [lookupOpenFile, modifySession, Function.update_apply]
  split_ifs with h
  · rw [h, Option.bind_map]
    rfl
  · rfl

theorem lookupOpenFile_allocSession :
  self.allocSession.2.lookupOpenFile s f
    = if self.nextSessionId = s then none else self.lookupOpenFile s f
  := by
  simp only [lookupOpenFile, allocSession, Function.update_apply, eq_comm (a := s)]
  split_ifs <;> rfl

theorem lookupOpenFile_connect {id : UInt64} {g : SessionState → SessionState}
    (hg : ∀ session, (g session).openFiles = session.openFiles) :
  (self.modifySession id g).lookupOpenFile s f = self.lookupOpenFile s f
  := by
  rw [lookupOpenFile_modifySession]
  simp only [hg]
  split_ifs <;> rfl

def madeSession (toLowercase : String → String) (self : ConnectionState) (header : Smb2Header) :
    Request → Option UInt64
  | .sessionSetup => if header.sessionId = 0 then some self.nextSessionId else none
  | .treeConnect req =>
    if (self.shares (parseShareName toLowercase req.path)).isSome
        ∧ ¬ (self.sessions header.sessionId).isSome then
      some self.nextSessionId
    else
      none
  | _ => none

theorem lookupOpenFile_handleTreeConnect {req : TreeConnectRequest} :
  (self.handleTreeConnect toLowercase header req).1.lookupOpenFile s f
    = if self.madeSession toLowercase header (.treeConnect req) = some s then none
      else self.lookupOpenFile s f
  := by
  rw [handleTreeConnect, madeSession]
  cases hshare : self.shares (parseShareName toLowercase req.path) with
  | none => simp
  | some share =>
    have hsessions : self.allocTreeId.2.sessions = self.sessions := rfl
    by_cases hsession : (self.sessions header.sessionId).isSome
    · simp only [hsessions, hsession, if_true, not_true_eq_false, and_false, if_false]
      apply lookupOpenFile_connect (by simp)
    · simp only [hsessions, hsession, Option.isSome_some, Bool.false_eq_true, not_false_eq_true,
        and_self, if_true, if_false, Option.some.injEq]
      rw [lookupOpenFile_connect (by simp), lookupOpenFile_allocSession]
      rfl

theorem lookupOpenFile_handleSessionSetup (toLowercase : String → String) :
  (self.handleSessionSetup header).1.lookupOpenFile s f
    = if self.madeSession toLowercase header .sessionSetup = some s then none
      else self.lookupOpenFile s f
  := by
  rw [handleSessionSetup, madeSession]
  by_cases hid : header.sessionId = 0
  · simp only [hid, if_true, Option.some.injEq]
    apply lookupOpenFile_allocSession
  · simp [hid]

theorem lookupOpenFile_handleLogoff :
  (self.handleLogoff header).1.lookupOpenFile s f
    = if header.sessionId = s then none else self.lookupOpenFile s f
  := by
  simp only [lookupOpenFile, handleLogoff, Function.update_apply, eq_comm (a := s)]
  split_ifs <;> rfl

theorem lookupOpenFile_handleTreeDisconnect :
  (self.handleTreeDisconnect header).1.lookupOpenFile s f
    = if header.sessionId = s then none else self.lookupOpenFile s f
  := by
  rw [handleTreeDisconnect, lookupOpenFile_modifySession, Option.bind_fun_none]
  simp only [eq_comm (a := s)]

theorem lookupOpenFile_handleClose {req : CloseRequest} :
  (self.handleClose header req).1.lookupOpenFile s f
    = if header.sessionId = s ∧ req.fileId = f then none else self.lookupOpenFile s f
  := by
  rw [handleClose, lookupOpenFile_modifySession]
  by_cases hs : header.sessionId = s
  · subst hs
    simp only [if_true, true_and, Function.update_apply, eq_comm (a := f), lookupOpenFile]
    split_ifs
    · apply Option.bind_fun_none
    · rfl
  · rw [if_neg (Ne.symm hs), if_neg fun h => hs h.1]

theorem handleCreate_cases {req : CreateRequest} {response : Response}
    (hcreate : self.handleCreate files header req = (self', files', response)) :
  (∀ s f, self'.lookupOpenFile s f = self.lookupOpenFile s f) ∧ files' = files
      ∧ response.body = .refused
    ∨ ∃ share vfs size resp, self.shareForSession header.sessionId = some share
      ∧ (files share.fs).resolve req.name req.createDisposition = .ok (vfs, size)
      ∧ (∀ s f, self'.lookupOpenFile s f
        = if header.sessionId = s ∧ resp.fileId = f then some { path := req.name, share }
          else self.lookupOpenFile s f)
      ∧ files' = Function.update files share.fs vfs ∧ response.body = .create resp
  := by
  rw [handleCreate] at hcreate
  cases hshare : self.shareForSession header.sessionId with
  | none =>
    rw [hshare] at hcreate
    cases hcreate
    exact .inl ⟨fun _ _ => rfl, rfl, rfl⟩
  | some share =>
    rw [hshare] at hcreate
    simp only at hcreate
    cases hresolve : (files share.fs).resolve req.name req.createDisposition with
    | error status =>
      rw [hresolve] at hcreate
      cases hcreate
      exact .inl ⟨fun _ _ => rfl, rfl, rfl⟩
    | ok r =>
      rw [hresolve] at hcreate
      cases hcreate
      right
      refine ⟨share, r.1, r.2, _, rfl, hresolve, ?_, rfl, rfl⟩
      intro s f
      obtain ⟨session, hsession, -⟩ := Option.bind_eq_some_iff.mp hshare
      rw [lookupOpenFile_modifySession]
      by_cases hs : header.sessionId = s
      · subst hs
        simp only [if_true, true_and, Function.update_apply, lookupOpenFile, allocFileId,
          hsession, Option.bind_some, CreateResponse.new, eq_comm (a := f)]
      · rw [if_neg (Ne.symm hs), if_neg fun h => hs h.1]
        rfl

section

variable {request : Request} {response : Response}

theorem handleCreate_of_dispatchFrame {req : CreateRequest}
    (h : self.dispatchFrame toLowercase files header (.create req)
      = (self', files', some response)) :
  self.handleCreate files header req = (self', files', response)
  := by
  cases h
  rfl

theorem handleWrite_of_dispatchFrame {req : WriteRequest} {result : Option Response}
    (h : self.dispatchFrame toLowercase files header (.write req) = (self', files', result)) :
  self.handleWrite files header req = (files', result)
  := (Prod.mk.inj h).2

theorem lookupOpenFile_dispatchFrame (c : ℕ)
    (hdispatch : self.dispatchFrame toLowercase files header request
      = (self', files', some response)) :
  self'.lookupOpenFile s f
    = if self.madeSession toLowercase header request = some s then none
      else (Exchange.mk c header request (self.shareForSession header.sessionId) response).handle
        s f (self.lookupOpenFile s f)
  := by
  cases request with
  | create req =>
    have hmade : self.madeSession toLowercase header (.create req) ≠ some s := by
      simp [madeSession]
    rw [if_neg hmade]
    obtain ⟨hlookup, -, hbody⟩ | ⟨share, vfs, size, resp, hshare, -, hlookup, -, hbody⟩ :=
      handleCreate_cases (handleCreate_of_dispatchFrame hdispatch)
    · rw [hlookup, Exchange.handle_of_opened_none (Exchange.opened_of_refused hbody),
        if_neg fun h => h.2]
    · rw [hlookup]
      have hopened := Exchange.opened_create c header req hbody hshare
      by_cases hs : header.sessionId = s
      · rw [Exchange.handle_of_opened hs hopened id]
        simp only [hs, true_and]
      · rw [if_neg fun h => hs h.1, Exchange.handle_of_ne hs]
  | sessionSetup =>
    have hself : (self.handleSessionSetup header).1 = self' := congrArg Prod.fst hdispatch
    rw [← hself, lookupOpenFile_handleSessionSetup toLowercase,
      Exchange.handle_of_opened_none rfl]
    simp [Request.Ends]
  | treeConnect req =>
    have hself : (self.handleTreeConnect toLowercase header req).1 = self' :=
      congrArg Prod.fst hdispatch
    rw [← hself, lookupOpenFile_handleTreeConnect, Exchange.handle_of_opened_none rfl]
    simp [Request.Ends]
  | logoff =>
    have hself : (self.handleLogoff header).1 = self' := congrArg Prod.fst hdispatch
    rw [← hself, lookupOpenFile_handleLogoff, Exchange.handle_of_opened_none rfl]
    simp [madeSession, Request.Ends]
  | treeDisconnect =>
    have hself : (self.handleTreeDisconnect header).1 = self' := congrArg Prod.fst hdispatch
    rw [← hself, lookupOpenFile_handleTreeDisconnect, Exchange.handle_of_opened_none rfl]
    simp [madeSession, Request.Ends]
  | close req =>
    have hself : (self.handleClose header req).1 = self' := congrArg Prod.fst hdispatch
    rw [← hself, lookupOpenFile_handleClose, Exchange.handle_of_opened_none rfl]
    simp only [madeSession, reduceCtorEq, if_false]
    rfl
  | negotiate | read _ | write _ | echo | other =>
    obtain ⟨rfl, -⟩ := Prod.mk.inj hdispatch
    rw [Exchange.handle_of_opened_none rfl]
    simp [madeSession, Request.Ends]

theorem handleRead_succeeded {req : ReadRequest}
    (hread : self.handleRead files header req = some response) (h : response.Succeeded) :
  ∃ o file, self.lookupOpenFile header.sessionId req.fileId = some o
    ∧ files.sparse o.sharePath = some file
    ∧ response.body = .read { data := file.read req.offset.toNat req.length.toNat }
  := by
  rw [handleRead] at hread
  cases hlookup : self.lookupOpenFile header.sessionId req.fileId with
  | none =>
    rw [hlookup] at hread
    cases hread
    exact absurd h (Response.errorResponse_not_succeeded (by decide))
  | some o =>
    rw [hlookup] at hread
    simp only at hread
    cases hresult : (files o.share.fs).read o.path req.offset req.length with
    | ok data =>
      rw [hresult] at hread
      cases hread
      obtain ⟨file, hfile, rfl⟩ := VirtualFs.read_eq_ok hresult
      exact ⟨o, file, rfl, hfile, rfl⟩
    | err e =>
      rw [hresult] at hread
      cases hread
      exact absurd h (Response.errorResponse_not_succeeded (by decide))
    | panic =>
      rw [hresult] at hread
      cases hread

theorem handleWrite_cases {req : WriteRequest} {result : Option Response}
    (hbound : req.offset.toNat + req.data.length < 2 ^ 64)
    (hwrite : self.handleWrite files header req = (files', result)) :
  (files' = files ∧ ∀ response ∈ result, ¬ response.Succeeded)
    ∨ ∃ o file response, self.lookupOpenFile header.sessionId req.fileId = some o
      ∧ files.sparse o.sharePath = some file ∧ result = some response ∧ response.Succeeded
      ∧ files'.sparse
        = Function.update files.sparse o.sharePath (some (file.write req.offset.toNat req.data))
  := by
  rw [handleWrite] at hwrite
  cases hlookup : self.lookupOpenFile header.sessionId req.fileId with
  | none =>
    rw [hlookup] at hwrite
    cases hwrite
    left
    use rfl
    rintro _ ⟨⟩ h
    exact absurd h (Response.errorResponse_not_succeeded (by decide))
  | some o =>
    rw [hlookup] at hwrite
    simp only [Prod.mk.injEq] at hwrite
    obtain ⟨rfl, rfl⟩ := hwrite
    obtain ⟨file, n, hfile, hn, hsparse⟩ | ⟨hfailed, hsame⟩ :=
      (files o.share.fs).write_spec o.path hbound
    · right
      rw [hn]
      exact ⟨o, file, _, rfl, hfile, rfl, rfl, Files.sparse_update hsparse⟩
    · left
      rw [hsame]
      use Function.update_eq_self _ _
      intro response hresponse h
      cases hresult : ((files o.share.fs).write o.path req.offset req.data).2 with
      | ok n => exact absurd hresult (hfailed n)
      | err e =>
        rw [hresult] at hresponse
        cases hresponse
        exact absurd h (Response.errorResponse_not_succeeded (by decide))
      | panic =>
        rw [hresult] at hresponse
        cases hresponse

theorem effect_dispatchFrame {c : ℕ} {past : List Exchange} (hbound : request.WritesBelow)
    (hhandle : ∀ f o, self.lookupOpenFile header.sessionId f = some o →
      handleAt c header.sessionId f past = some o)
    (hdispatch : self.dispatchFrame toLowercase files header request
      = (self', files', some response)) :
  files'.sparse
    = (Exchange.mk c header request (self.shareForSession header.sessionId) response).effect past
      files.sparse
  := by
  cases request with
  | create req =>
    obtain ⟨-, rfl, hbody⟩ | ⟨share, vfs, size, resp, hshare, hresolve, -, rfl, hbody⟩ :=
      handleCreate_cases (handleCreate_of_dispatchFrame hdispatch)
    · have hopened : Exchange.opened ⟨c, header, .create req,
          self.shareForSession header.sessionId, response⟩ = none :=
        Exchange.opened_of_refused hbody
      simp only [Exchange.effect, hopened]
    · simp only [Exchange.effect, Exchange.opened_create c header req hbody hshare]
      apply Files.sparse_update (VirtualFs.resolve_eq_ok hresolve)
  | write req =>
    obtain ⟨rfl, hfailed⟩ | ⟨o, file, response', hlookup, hfile, ⟨⟩, hsucceeded, hsparse⟩ :=
      handleWrite_cases hbound (handleWrite_of_dispatchFrame hdispatch)
    · simp only [Exchange.effect, hfailed response rfl, if_false]
    · simp only [Exchange.effect, hsucceeded, if_true, hhandle _ _ hlookup, hfile,
        Option.map_some, hsparse]
  | read req =>
    obtain ⟨-, hfiles⟩ := Prod.mk.inj hdispatch
    obtain ⟨rfl, -⟩ := Prod.mk.inj hfiles
    rfl
  | negotiate | sessionSetup | logoff | treeConnect _ | treeDisconnect | close _ | echo | other =>
    cases hdispatch
    rfl

theorem files_of_panicked (hbound : request.WritesBelow)
    (hdispatch : self.dispatchFrame toLowercase files header request = (self', files', none)) :
  files' = files
  := by
  cases request with
  | write req =>
    obtain ⟨rfl, -⟩ | ⟨o, file, response, -, -, ⟨⟩, -⟩ :=
      handleWrite_cases hbound (handleWrite_of_dispatchFrame hdispatch)
    rfl
  | read req =>
    obtain ⟨-, hfiles⟩ := Prod.mk.inj hdispatch
    apply (Prod.mk.inj hfiles).1.symm
  | negotiate | sessionSetup | logoff | treeConnect _ | treeDisconnect | create _ | close _ | echo
  | other =>
    cases hdispatch

end

end ConnectionState

/-! ### Runs of the server -/

/-- A `READ` that succeeds is of a file that is open, and returns the bytes that the file has from
the offset on, up to the length and to the end of the file. -/
def ReadsFile (initial : FileMap) (e : Exchange) (older : List Exchange) : Prop :=
  ∀ req, e.request = .read req → e.response.Succeeded →
    ∃ openFile file, OpenSince e.conn e.header.sessionId req.fileId openFile older
      ∧ handleAt e.conn e.header.sessionId req.fileId older = some openFile
      ∧ filesAfter initial older openFile.sharePath = some file
      ∧ e.response.body = .read { data := file.read req.offset.toNat req.length.toNat }

def Event.WritesBelow : Event → Prop
  | .request _ _ req => req.WritesBelow
  | .hangUp _ => True

instance : (event : Event) → Decidable event.WritesBelow
  | .request _ _ req => inferInstanceAs (Decidable req.WritesBelow)
  | .hangUp _ => isTrue trivial

namespace Server

structure Refines (initial : FileMap) (server : Server) : Prop where
  handles : ∀ c, ∀ conn ∈ server.conns c, ∀ s f o, conn.lookupOpenFile s f = some o →
    handleAt c s f server.past = some o
  files : server.files.sparse = filesAfter initial server.past
  reads : Throughout (ReadsFile initial) server.past

variable {toLowercase : String → String} {initial : FileMap} {server server' : Server}

theorem Refines.ended (h : server.Refines initial) (c : ℕ) :
  Refines initial { server with conns := Function.update server.conns c none }
  := by
  constructor
  · intro c' conn hconn
    apply h.handles c' conn (mem_conns_of_ended hconn)
  · apply h.files
  · apply h.reads

theorem handles_answered {c : ℕ} {header : Smb2Header} {request : Request}
    {conn conn' : ConnectionState} {files : Files} {response : Response}
    (h : ∀ c, ∀ conn ∈ server.conns c, ∀ s f o, conn.lookupOpenFile s f = some o →
      handleAt c s f server.past = some o)
    (hconn : server.conns c = some conn)
    (hdispatch : conn.dispatchFrame toLowercase server.files header request
      = (conn', files, some response)) :
  ∀ c', ∀ conn₁ ∈ Function.update server.conns c (some conn') c', ∀ s f o,
    conn₁.lookupOpenFile s f = some o →
      handleAt c' s f
        (⟨c, header, request, conn.shareForSession header.sessionId, response⟩ :: server.past)
          = some o
  := by
  intro c' conn₁ hconn₁ s f o ho
  rw [handleAt]
  obtain ⟨rfl, rfl⟩ | ⟨hc, hconn₁⟩ := mem_conns_of_answered hconn₁
  · rw [if_pos rfl]
    apply Exchange.handle_mono (h c conn hconn s f)
    rw [ConnectionState.lookupOpenFile_dispatchFrame c hdispatch] at ho
    split_ifs at ho
    apply ho
  · rw [if_neg hc]
    apply h c' conn₁ hconn₁ s f o ho

theorem Refines.answered (h : server.Refines initial) {c : ℕ} {header : Smb2Header}
    {request : Request} {conn conn' : ConnectionState} {files : Files} {response : Response}
    (hbound : request.WritesBelow) (hconn : server.conns c = some conn)
    (hdispatch : conn.dispatchFrame toLowercase server.files header request
      = (conn', files, some response)) :
  Refines initial
    { conns := Function.update server.conns c (some conn')
      files
      past := ⟨c, header, request, conn.shareForSession header.sessionId, response⟩
        :: server.past }
  := by
  constructor
  · apply handles_answered h.handles hconn hdispatch
  · rw [filesAfter, ← h.files]
    apply ConnectionState.effect_dispatchFrame hbound (h.handles c conn hconn _) hdispatch
  · refine ⟨?_, h.reads⟩
    rintro req hreq hsucceeded
    simp only at hreq
    subst hreq
    have hread : conn.handleRead server.files header req = some response :=
      congrArg (·.2.2) hdispatch
    obtain ⟨o, file, hlookup, hfile, hbody⟩ :=
      ConnectionState.handleRead_succeeded hread hsucceeded
    have hhandle := h.handles c conn hconn _ _ _ hlookup
    rw [h.files] at hfile
    exact ⟨o, file, openSince_of_handleAt hhandle, hhandle, hfile, hbody⟩

theorem refines_step {event : Event} (h : server.Refines initial) (hbound : event.WritesBelow)
    (hstep : server.step toLowercase event = some server') :
  server'.Refines initial
  := by
  cases step_cases hstep with
  | hungUp => apply h.ended
  | panicked hconn hdispatch =>
    obtain rfl := ConnectionState.files_of_panicked hbound hdispatch
    apply h.ended
  | answered hconn hdispatch => apply h.answered hbound hconn hdispatch

theorem refines_new (serverGuid : Uuid) (serverSalt : Bytes)
    (shares : String → Option Share) (files : Files) :
  (new serverGuid serverSalt shares files).Refines files.sparse
  := by
  constructor
  · intro c conn hconn s f o ho
    obtain rfl := Option.some.inj hconn
    cases ho
  · rfl
  · trivial

/-- In every run, a `READ` that succeeds is of a file that is open in its session, and returns a
part of what all that was created, truncated and written has made of the file. -/
theorem file_semantics {serverGuid : Uuid} {serverSalt : Bytes}
    {shares : String → Option Share} {files : Files} {events : List Event}
    (hbound : ∀ event ∈ events, event.WritesBelow)
    (hrun : exec (step toLowercase) (new serverGuid serverSalt shares files) events
      = some server) :
  Throughout (ReadsFile files.sparse) server.past
  := by
  have hrefines : server.Refines files.sparse :=
    exec_invariant (fun _ _ _ => refines_step) (refines_new _ _ _ _)
      (along_of_forall hbound _) hrun
  apply hrefines.reads

end Server

namespace Sysvol

/-- A client opens a file, writes past its end, and reads more than there is. -/
def rereading : List Event :=
  [request 0 .sessionSetup, request 1 (.treeConnect ⟨"\\\\server\\sysvol"⟩),
    request 1 (.create (.new "a")), request 1 (.write ⟨2, 3, ⟨1, 1⟩, [7, 8]⟩),
    request 1 (.read ⟨10, 1, ⟨1, 1⟩, 0⟩)]

end Sysvol

namespace Server

/-- It is returned what it wrote, after zeros. -/
theorem file_semantics_rereading :
  (∀ event ∈ Sysvol.rereading, event.WritesBelow)
    ∧ ∃ server, exec (step id) Sysvol.server Sysvol.rereading = some server
      ∧ server.past.head?.map (·.response.body) = some (.read ⟨[0, 0, 7, 8]⟩)
      ∧ Throughout (ReadsFile fun _ => none) server.past
  := by
  have hbound : ∀ event ∈ Sysvol.rereading, event.WritesBelow := by
    decide
  have hlast : (exec (step id) Sysvol.server Sysvol.rereading).bind
      (fun server => server.past.head?.map (·.response.body)) = some (.read ⟨[0, 0, 7, 8]⟩) := by
    decide +kernel
  obtain ⟨server, hrun, hlast⟩ := Option.bind_eq_some_iff.mp hlast
  exact ⟨hbound, server, hrun, hlast, file_semantics hbound hrun⟩

end Server

end Smb
