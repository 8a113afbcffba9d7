import Adrian.Smb.VirtualFs

/-!
# The SMB server

A connection has sessions, a session is connected to a share, and has files open on shares.  Each
request is served in the session that its header names, and all connections share the file systems.
-/

namespace Smb

/-! ### Connections -/

/-- A share, and which of the file systems of the server it is backed by. -/
structure Share where
  name : String
  fs : ℕ
deriving DecidableEq

structure OpenFile where
  path : String
  share : Share
deriving DecidableEq

structure SessionState where
  treeId : UInt32
  share : Option Share
  openFiles : FileId → Option OpenFile

def SessionState.new : SessionState where
  treeId := 0
  share := none
  openFiles _ := none

structure ConnectionState where
  serverGuid : Uuid
  serverSalt : Bytes
  shares : String → Option Share
  nextSessionId : UInt64
  sessions : UInt64 → Option SessionState
  nextTreeId : UInt32
  nextFilePersistent : UInt64
  nextFileVolatile : UInt64

abbrev Files : Type := ℕ → VirtualFs

def Files.InMemory (files : Files) : Prop :=
  ∀ fs path, ∀ data ∈ (files fs).get path, data.length ≤ isizeMax

/-- The share in a UNC path, in lowercase: the second part after the leading backslashes. -/
def parseShareName (toLowercase : String → String) (unc : String) : String :=
  let trimmed := unc.toList.dropWhile (· == '\\')
  match trimmed.dropWhile (· != '\\') with
  | [] => ""
  | _ :: rest => toLowercase (String.ofList (rest.takeWhile (· != '\\')))

namespace ConnectionState

def new (serverGuid : Uuid) (serverSalt : Bytes) (shares : String → Option Share) :
    ConnectionState where
  serverGuid
  serverSalt
  shares
  nextSessionId := 1
  sessions _ := none
  nextTreeId := 1
  nextFilePersistent := 1
  nextFileVolatile := 1

def allocSession (self : ConnectionState) : UInt64 × ConnectionState :=
  (self.nextSessionId,
    { self with
      nextSessionId := self.nextSessionId + 1
      sessions := Function.update self.sessions self.nextSessionId (some .new) })

def allocTreeId (self : ConnectionState) : UInt32 × ConnectionState :=
  (self.nextTreeId, { self with nextTreeId := self.nextTreeId + 1 })

def allocFileId (self : ConnectionState) : FileId × ConnectionState :=
  (⟨self.nextFilePersistent, self.nextFileVolatile⟩,
    { self with
      nextFilePersistent := self.nextFilePersistent + 1
      nextFileVolatile := self.nextFileVolatile + 1 })

def modifySession (self : ConnectionState) (sessionId : UInt64)
    (f : SessionState → SessionState) : ConnectionState :=
  { self with
    sessions := Function.update self.sessions sessionId ((self.sessions sessionId).map f) }

def shareForSession (self : ConnectionState) (sessionId : UInt64) : Option Share :=
  (self.sessions sessionId).bind (·.share)

def lookupOpenFile (self : ConnectionState) (sessionId : UInt64) (fileId : FileId) :
    Option OpenFile :=
  (self.sessions sessionId).bind (·.openFiles fileId)

/-! ### Handlers -/

def handleNegotiate (self : ConnectionState) (header : Smb2Header) : Response :=
  .of header statusSuccess (.negotiate (.new311 self.serverGuid self.serverSalt))

def handleSessionSetup (self : ConnectionState) (header : Smb2Header) :
    ConnectionState × Response :=
  if header.sessionId = 0 then
    let (newId, self) := self.allocSession
    let respHdr := { header.newResponse with sessionId := newId }
    (self, .of respHdr statusSuccess (.sessionSetup .newSuccess))
  else
    (self, .of header statusSuccess (.sessionSetup .newSuccess))

def handleLogoff (self : ConnectionState) (header : Smb2Header) : ConnectionState × Response :=
  ({ self with sessions := Function.update self.sessions header.sessionId none },
    .of header statusSuccess .done)

def handleTreeConnect (toLowercase : String → String) (self : ConnectionState)
    (header : Smb2Header) (req : TreeConnectRequest) : ConnectionState × Response :=
  match self.shares (parseShareName toLowercase req.path) with
  | none => (self, .errorResponse header statusBadNetworkName)
  | some share =>
    let (treeId, self) := self.allocTreeId
    let connect (s : SessionState) : SessionState := { s with treeId, share := some share }
    let self :=
      if (self.sessions header.sessionId).isSome then
        self.modifySession header.sessionId connect
      else
        -- There is no such session, and the response does not tell the id of the new one.
        let (sid, self) := self.allocSession
        self.modifySession sid connect
    (self,
      { header := { header.newResponse with status := statusSuccess, treeId }
        body := .treeConnect .newDisk })

def handleTreeDisconnect (self : ConnectionState) (header : Smb2Header) :
    ConnectionState × Response :=
  (self.modifySession header.sessionId
      fun s => { s with share := none, openFiles := fun _ => none },
    .of header statusSuccess .done)

def handleCreate (self : ConnectionState) (files : Files) (header : Smb2Header)
    (req : CreateRequest) : ConnectionState × Files × Response :=
  match self.shareForSession header.sessionId with
  | none => (self, files, .errorResponse header statusAccessDenied)
  | some share =>
    let (fileId, self) := self.allocFileId
    match (files share.fs).resolve req.name req.createDisposition with
    | .error status => (self, files, .errorResponse header status)
    | .ok (vfs, size) =>
      let openFile : OpenFile := { path := req.name, share }
      (self.modifySession header.sessionId
          fun s => { s with openFiles := Function.update s.openFiles fileId (some openFile) },
        Function.update files share.fs vfs,
        .of header statusSuccess (.create (.new fileId size)))

def handleClose (self : ConnectionState) (header : Smb2Header) (req : CloseRequest) :
    ConnectionState × Response :=
  (self.modifySession header.sessionId
      fun s => { s with openFiles := Function.update s.openFiles req.fileId none },
    .of header statusSuccess (.close .new))

def handleRead (self : ConnectionState) (files : Files) (header : Smb2Header) (req : ReadRequest) :
    Option Response :=
  match self.lookupOpenFile header.sessionId req.fileId with
  | none => some (.errorResponse header statusFileClosed)
  | some f =>
    match (files f.share.fs).read f.path req.offset req.length with
    | .ok data => some (.ofRead header { data })
    | .err () => some (.errorResponse header statusFileClosed)
    | .panic => none

def handleWrite (self : ConnectionState) (files : Files) (header : Smb2Header)
    (req : WriteRequest) : Files × Option Response :=
  match self.lookupOpenFile header.sessionId req.fileId with
  | none => (files, some (.errorResponse header statusFileClosed))
  | some f =>
    let (vfs, result) := (files f.share.fs).write f.path req.offset req.data
    (Function.update files f.share.fs vfs,
      match result with
      | .ok count => some (.of header statusSuccess (.write { count }))
      | .err () => some (.errorResponse header statusFileClosed)
      | .panic => none)

def handleEcho (header : Smb2Header) : Response :=
  .of header statusSuccess .done

def dispatchFrame (toLowercase : String → String) (self : ConnectionState) (files : Files)
    (header : Smb2Header) : Request → ConnectionState × Files × Option Response
  | .negotiate => (self, files, some (self.handleNegotiate header))
  | .sessionSetup =>
    let (self, response) := self.handleSessionSetup header
    (self, files, some response)
  | .logoff =>
    let (self, response) := self.handleLogoff header
    (self, files, some response)
  | .treeConnect req =>
    let (self, response) := self.handleTreeConnect toLowercase header req
    (self, files, some response)
  | .treeDisconnect =>
    let (self, response) := self.handleTreeDisconnect header
    (self, files, some response)
  | .create req =>
    let (self, files, response) := self.handleCreate files header req
    (self, files, some response)
  | .close req =>
    let (self, response) := self.handleClose header req
    (self, files, some response)
  | .read req => (self, files, self.handleRead files header req)
  | .write req =>
    let (files, response) := self.handleWrite files header req
    (self, files, response)
  | .echo => (self, files, some (handleEcho header))
  | .other => (self, files, some (.errorResponse header statusInvalidDeviceRequest))

end ConnectionState

/-! ### The server -/

structure Exchange where
  conn : ℕ
  header : Smb2Header
  request : Request
  share : Option Share
  response : Response
deriving DecidableEq

/-- The connections by their numbers, as long as they have not ended, and the files.  A connection
that nothing was sent on yet is as it is when it is accepted. -/
structure Server where
  conns : ℕ → Option ConnectionState
  files : Files
  past : List Exchange

inductive Event where
  | request (conn : ℕ) (header : Smb2Header) (request : Request)
  | hangUp (conn : ℕ)
deriving DecidableEq

namespace Server

def new (serverGuid : Uuid) (serverSalt : Bytes) (shares : String → Option Share)
    (files : Files) : Server where
  conns _ := some (.new serverGuid serverSalt shares)
  files
  past := []

def serve (toLowercase : String → String) (server : Server) (c : ℕ) (conn : ConnectionState)
    (header : Smb2Header) (request : Request) : Server :=
  let (conn', files, response) := conn.dispatchFrame toLowercase server.files header request
  match response with
  | none => { server with conns := Function.update server.conns c none, files }
  | some response =>
    let share := conn.shareForSession header.sessionId
    { conns := Function.update server.conns c (some conn')
      files
      past := { conn := c, header, request, share, response } :: server.past }

def step (toLowercase : String → String) (server : Server) : Event → Option Server
  | .hangUp c => some { server with conns := Function.update server.conns c none }
  | .request c header request =>
    (server.conns c).map fun conn => server.serve toLowercase c conn header request

section

variable {server : Server} {c c' : ℕ} {conn conn' : ConnectionState}

theorem mem_conns_of_ended (h : conn ∈ Function.update server.conns c none c') :
  conn ∈ server.conns c'
  := by
  rw [Function.update_apply] at h
  split_ifs at h
  · cases h
  · apply h

theorem mem_conns_of_answered (h : conn ∈ Function.update server.conns c (some conn') c') :
  c = c' ∧ conn' = conn ∨ c ≠ c' ∧ conn ∈ server.conns c'
  := by
  rw [Function.update_apply] at h
  split_ifs at h with hc
  · exact .inl ⟨hc.symm, Option.some.inj h⟩
  · exact .inr ⟨Ne.symm hc, h⟩

end

inductive Step (toLowercase : String → String) (server : Server) : Event → Server → Prop
  | answered {c : ℕ} {header : Smb2Header} {request : Request} {conn conn' : ConnectionState}
      {files : Files} {response : Response} (hconn : server.conns c = some conn)
      (h : conn.dispatchFrame toLowercase server.files header request
        = (conn', files, some response)) :
      Step toLowercase server (.request c header request)
        { conns := Function.update server.conns c (some conn')
          files
          past := ⟨c, header, request, conn.shareForSession header.sessionId, response⟩
            :: server.past }
  | panicked {c : ℕ} {header : Smb2Header} {request : Request} {conn conn' : ConnectionState}
      {files : Files} (hconn : server.conns c = some conn)
      (h : conn.dispatchFrame toLowercase server.files header request = (conn', files, none)) :
      Step toLowercase server (.request c header request)
        { server with conns := Function.update server.conns c none, files }
  | hungUp {c : ℕ} :
      Step toLowercase server (.hangUp c)
        { server with conns := Function.update server.conns c none }

theorem step_cases {toLowercase : String → String} {server server' : Server} {event : Event}
    (h : server.step toLowercase event = some server') :
  server.Step toLowercase event server'
  := by
  cases event with
  | hangUp c =>
    obtain rfl := Option.some.inj h
    apply Step.hungUp
  | request c header request =>
    obtain ⟨conn, hconn, rfl⟩ := Option.map_eq_some_iff.mp h
    rw [serve]
    cases hdispatch : conn.dispatchFrame toLowercase server.files header request with
    | mk conn' rest =>
      obtain ⟨files, response⟩ := rest
      cases response with
      | none => apply Step.panicked hconn hdispatch
      | some response => apply Step.answered hconn hdispatch

end Server

namespace Sysvol

def shares : String → Option Share :=
  fun name => if name = "sysvol" then some ⟨"sysvol", 0⟩ else none

def server : Server :=
  .new 1 [] shares fun _ => .new

def request (sessionId : UInt64) (request : Request) : Event :=
  .request 0 { Smb2Header.newRequest 0 0 with sessionId } request

end Sysvol

end Smb
