import Adrian.Smb.FileSemantics

/-!
# Open files can be read

A `CREATE` whose disposition is none of the five that the server knows succeeds, whether or not
there is a file with the name, and a `READ` of the file id that it returns is answered as if it had
been closed.

In the states of a run all open files exist and can be read exactly when each `CREATE` is of one of
the five dispositions or of a file that exists, and no session is replaced that has files open.
-/

namespace Smb

open History Run

/-! ### Files that exist -/

namespace VirtualFs

variable {self vfs : VirtualFs} {path name : String}

theorem get_put (self : VirtualFs) (path path' : String) (data : Bytes) :
  (self.put path data).get path' = if path' = path then some data else self.get path'
  := Function.update_apply _ _ _ _

theorem write_put (offset : UInt64) {data : Bytes}
    (hfile : ∀ file ∈ self.get path, file.length ≤ isizeMax) (hdata : data.length ≤ isizeMax) :
  (self.write path offset data).1 = self
    ∨ ∃ file, file.length ≤ isizeMax ∧ (self.write path offset data).1 = self.put path file
  := by
  have hoffset := offset.toNat_lt
  rw [write]
  cases hget : self.get path with
  | none => exact .inl rfl
  | some file =>
    have hlength := hfile file hget
    simp only
    generalize hneed : (offset.toNat + data.length) % 2 ^ 64 = need
    have hresized : (file ++ List.replicate (need - file.length) 0).length
        = max file.length need := by
      rw [List.length_append, List.length_replicate]
      omega
    split_ifs with hlarge hwrapped
    · exact .inl rfl
    · refine .inr ⟨_, ?_, rfl⟩
      rw [hresized]
      omega
    · refine .inr ⟨_, ?_, rfl⟩
      -- The sum has not wrapped around.
      have hsum : offset.toNat + data.length = need := by
        rw [isizeMax] at hdata
        omega
      rw [List.length_splice, hresized]
      · omega
      · rw [hresized]
        omega

variable {createDisposition : UInt32}

theorem resolve_put {size : UInt64} (h : self.resolve name createDisposition = .ok (vfs, size)) :
  vfs = self ∨ vfs = self.put name []
  := by
  rw [resolve] at h
  split_ifs at h
  all_goals cases h
  all_goals first | exact .inl rfl | exact .inr rfl

def dispositions : List UInt32 := [0x01, 0x02, 0x03, 0x04, 0x05]

theorem isSome_get_resolve {size : UInt64} (hknown : createDisposition ∈ dispositions)
    (h : self.resolve name createDisposition = .ok (vfs, size)) :
  (vfs.get name).isSome
  := by
  have hput (data : Bytes) : ((self.put name data).get name).isSome := by
    rw [get_put, if_pos rfl]
    rfl
  rw [resolve] at h
  split_ifs at h with h₁ hnone h₂ hsome h₃ hnone h₄ hnone h₅ hnone
  all_goals cases h
  · simpa [Option.isSome_iff_ne_none] using hnone
  · apply hput
  · apply hput
  · simpa [Option.isSome_iff_ne_none] using hnone
  · apply hput
  · apply hput
  · apply hput
  · simp [dispositions, h₁, h₂, h₃, h₄, h₅] at hknown

theorem resolve_of_not_mem (self : VirtualFs) (name : String)
    (hunknown : createDisposition ∉ dispositions) :
  self.resolve name createDisposition = .ok (self, self.size name)
  := by
  simp only [dispositions, List.mem_cons, List.not_mem_nil, or_false, not_or] at hunknown
  obtain ⟨h₁, h₂, h₃, h₄, h₅⟩ := hunknown
  rw [resolve, if_neg h₁, if_neg h₂, if_neg h₃, if_neg h₄, if_neg h₅]

end VirtualFs

def Request.InMemory : Request → Prop
  | .write req => req.data.length ≤ isizeMax
  | _ => True

def Request.HasDisposition (dispositions : List UInt32) : Request → Prop
  | .create req => req.createDisposition ∈ dispositions
  | _ => True

instance (dispositions : List UInt32) :
    (request : Request) → Decidable (request.HasDisposition dispositions)
  | .create _ => inferInstanceAs (Decidable (_ ∈ _))
  | .negotiate | .sessionSetup | .logoff | .treeConnect _ | .treeDisconnect | .close _ | .read _
  | .write _ | .echo | .other => isTrue trivial

instance : (request : Request) → Decidable request.InMemory
  | .write _ => inferInstanceAs (Decidable (_ ≤ _))
  | .negotiate | .sessionSetup | .logoff | .treeConnect _ | .treeDisconnect | .create _ | .close _
  | .read _ | .echo | .other => isTrue trivial

def Files.Has (files : Files) (p : ℕ × String) : Prop :=
  ((files p.1).get p.2).isSome

def Files.Put (files files' : Files) : Prop :=
  files' = files ∨ ∃ fs path data, data.length ≤ isizeMax
    ∧ files' = Function.update files fs ((files fs).put path data)

section

variable {files files' : Files}

theorem Files.get_update_put (files : Files) (fs fs' : ℕ) (path path' : String)
    (data : Bytes) :
  (Function.update files fs ((files fs).put path data) fs').get path'
    = if fs' = fs ∧ path' = path then some data else (files fs').get path'
  := by
  rw [Function.update_apply]
  by_cases hfs : fs' = fs
  · subst hfs
    rw [if_pos rfl, VirtualFs.get_put]
    simp only [true_and]
  · rw [if_neg hfs, if_neg fun h => hfs h.1]

theorem Files.InMemory.put (h : files.InMemory) (hput : files.Put files') :
  files'.InMemory
  := by
  obtain rfl | ⟨fs, path, data, hdata, rfl⟩ := hput
  · apply h
  · intro fs' path' data' hdata'
    rw [get_update_put] at hdata'
    split_ifs at hdata'
    · obtain rfl := Option.some.inj hdata'
      apply hdata
    · apply h fs' path' data' hdata'

theorem Files.Has.put {p : ℕ × String} (h : files.Has p) (hput : files.Put files') :
  files'.Has p
  := by
  obtain rfl | ⟨fs, path, data, -, rfl⟩ := hput
  · apply h
  · rw [Has, get_update_put]
    split_ifs
    · rfl
    · apply h

end

namespace ConnectionState

variable {toLowercase : String → String} {self self' : ConnectionState} {files files' : Files}
variable {header : Smb2Header} {request : Request}

theorem put_dispatchFrame {result : Option Response} (hfiles : files.InMemory)
    (hrequest : request.InMemory)
    (hdispatch : self.dispatchFrame toLowercase files header request = (self', files', result)) :
  files.Put files'
  := by
  cases request with
  | create req =>
    have hcreate : self.handleCreate files header req
        = (self', files', (self.handleCreate files header req).2.2) := by
      cases hdispatch
      rfl
    obtain ⟨-, rfl, -⟩ | ⟨share, vfs, size, resp, -, hresolve, -, rfl, -⟩ :=
      handleCreate_cases hcreate
    · exact .inl rfl
    · obtain rfl | rfl := VirtualFs.resolve_put hresolve
      · exact .inl (Function.update_eq_self _ _)
      · exact .inr ⟨share.fs, req.name, [], Nat.zero_le _, rfl⟩
  | write req =>
    have hwrite := handleWrite_of_dispatchFrame hdispatch
    rw [handleWrite] at hwrite
    cases hlookup : self.lookupOpenFile header.sessionId req.fileId with
    | none =>
      rw [hlookup] at hwrite
      exact .inl (Prod.mk.inj hwrite).1.symm
    | some o =>
      rw [hlookup] at hwrite
      have hfiles' : Function.update files o.share.fs
          ((files o.share.fs).write o.path req.offset req.data).1 = files' :=
        (Prod.mk.inj hwrite).1
      rw [← hfiles']
      obtain hsame | ⟨file, hfile, hput⟩ := VirtualFs.write_put req.offset
        (hfiles o.share.fs o.path) hrequest
      · rw [hsame]
        exact .inl (Function.update_eq_self _ _)
      · rw [hput]
        exact .inr ⟨_, _, file, hfile, rfl⟩
  | negotiate | sessionSetup | logoff | treeConnect _ | treeDisconnect | close _ | echo | other
  | read _ =>
    exact .inl (congrArg (·.2.1) hdispatch).symm

theorem handleRead_succeeds_iff (hfiles : files.InMemory) (header : Smb2Header)
    (req : ReadRequest) :
  (∃ response, self.handleRead files header req = some response ∧ response.Succeeded)
    ↔ ∃ o, self.lookupOpenFile header.sessionId req.fileId = some o ∧ files.Has o.sharePath
  := by
  constructor
  · rintro ⟨response, hread, hsucceeded⟩
    obtain ⟨o, file, hlookup, hfile, -⟩ := handleRead_succeeded hread hsucceeded
    refine ⟨o, hlookup, ?_⟩
    obtain ⟨data, hdata, -⟩ := Option.map_eq_some_iff.mp hfile
    apply Option.isSome_iff_exists.mpr ⟨data, hdata⟩
  · rintro ⟨o, hlookup, hhas⟩
    obtain ⟨data, hdata⟩ := Option.isSome_iff_exists.mp hhas
    obtain ⟨bytes, hread, -⟩ := VirtualFs.read_length hdata (hfiles _ _ _ hdata) req.offset
      req.length
    refine ⟨.ofRead header { data := bytes }, ?_, rfl⟩
    have hread' : (files o.share.fs).read o.path req.offset req.length = .ok bytes := hread
    rw [handleRead, hlookup]
    simp only [hread']

structure KeepsHandles (toLowercase : String → String) (conn : ConnectionState) (files : Files)
    (header : Smb2Header) (request : Request) : Prop where
  exist : ∀ req share, request = .create req → conn.shareForSession header.sessionId = some share →
    req.createDisposition ∈ VirtualFs.dispositions ∨ files.Has (share.fs, req.name)
  sessions : ∀ s f, conn.madeSession toLowercase header request = some s →
    conn.lookupOpenFile s f = none

theorem madeSession_eq {s : UInt64} (h : self.madeSession toLowercase header request = some s) :
  self.nextSessionId = s
  := by
  cases request with
  | sessionSetup | treeConnect req =>
    rw [madeSession] at h
    split_ifs at h
    apply Option.some.inj h
  | negotiate | logoff | treeDisconnect | create _ | close _ | read _ | write _ | echo | other =>
    cases h

theorem handle_of_madeSession {s : UInt64} {f : FileId} {before : Option OpenFile} (c : ℕ)
    (share : Option Share) (response : Response)
    (h : self.madeSession toLowercase header request = some s) :
  (Exchange.mk c header request share response).handle s f before = before
  := by
  cases request with
  | sessionSetup | treeConnect req =>
    rw [Exchange.handle_of_opened_none rfl]
    apply if_neg fun hends => hends.2
  | negotiate | logoff | treeDisconnect | create _ | close _ | read _ | write _ | echo | other =>
    cases h

theorem has_of_opened {response : Response} {c : ℕ} {f : FileId} {o : OpenFile}
    (hkeeps : self.KeepsHandles toLowercase files header request) (hput : files.Put files')
    (hdispatch : self.dispatchFrame toLowercase files header request
      = (self', files', some response))
    (hopened : (Exchange.mk c header request (self.shareForSession header.sessionId)
      response).opened = some (f, o)) :
  files'.Has o.sharePath
  := by
  cases request with
  | create req =>
    obtain ⟨-, -, hbody⟩ | ⟨share, vfs, size, resp, hshare, hresolve, -, rfl, hbody⟩ :=
      handleCreate_cases (handleCreate_of_dispatchFrame hdispatch)
    · rw [Exchange.opened_of_refused hbody] at hopened
      cases hopened
    · rw [Exchange.opened_create c header req hbody hshare] at hopened
      cases hopened
      obtain hknown | hhas := hkeeps.exist req share rfl hshare
      · have hvfs := VirtualFs.isSome_get_resolve hknown hresolve
        simpa [Files.Has, OpenFile.sharePath] using hvfs
      · apply hhas.put hput
  | negotiate | sessionSetup | logoff | treeConnect _ | treeDisconnect | close _ | read _ | write _
  | echo | other =>
    cases hopened

theorem exist_of_has {response : Response} {req : CreateRequest} {share : Share}
    (hshare : self.shareForSession header.sessionId = some share)
    (hdispatch : self.dispatchFrame toLowercase files header (.create req)
      = (self', files', some response))
    (hexist : ∀ s f o, self'.lookupOpenFile s f = some o → files'.Has o.sharePath) :
  req.createDisposition ∈ VirtualFs.dispositions ∨ files.Has (share.fs, req.name)
  := by
  by_contra hnot
  obtain ⟨hunknown, hhas⟩ := not_or.mp hnot
  have hsame := VirtualFs.resolve_of_not_mem (files share.fs) req.name hunknown
  have hcreate := handleCreate_of_dispatchFrame hdispatch
  obtain ⟨-, -, hbody⟩ | ⟨share', vfs, size, resp, hshare', hresolve, hlookup, rfl, -⟩ :=
    handleCreate_cases hcreate
  · rw [handleCreate, hshare] at hcreate
    simp only [hsame] at hcreate
    cases hcreate
    cases hbody
  · obtain rfl : share = share' := Option.some.inj (hshare.symm.trans hshare')
    rw [hsame] at hresolve
    cases hresolve
    apply hhas
    have hopen := hexist header.sessionId resp.fileId { path := req.name, share } (by
      rw [hlookup, if_pos ⟨rfl, rfl⟩])
    simpa [Files.Has, OpenFile.sharePath] using hopen

end ConnectionState

/-! ### Runs of the server -/

def Event.InMemory : Event → Prop
  | .request _ _ req => req.InMemory
  | .hangUp _ => True

instance : (event : Event) → Decidable event.InMemory
  | .request _ _ req => inferInstanceAs (Decidable req.InMemory)
  | .hangUp _ => isTrue trivial

namespace Server

/-- All open files exist; and a file id that a `CREATE` has returned can be read, until it is
closed, tree-disconnected or logged off. -/
structure HandlesUsable (server : Server) : Prop where
  exist : ∀ c, ∀ conn ∈ server.conns c, ∀ s f o, conn.lookupOpenFile s f = some o →
    server.files.Has o.sharePath
  readable : ∀ c, ∀ conn ∈ server.conns c, ∀ s f o, OpenSince c s f o server.past →
    ∀ header req, header.sessionId = s → req.fileId = f →
      ∃ response, conn.handleRead server.files header req = some response ∧ response.Succeeded

def KeepsHandles (toLowercase : String → String) (server : Server) : Event → Prop
  | .request c header request =>
    ∀ conn ∈ server.conns c, conn.KeepsHandles toLowercase server.files header request
  | .hangUp _ => True

structure Tracked (server : Server) : Prop where
  inMemory : server.files.InMemory
  handles : ∀ c, ∀ conn ∈ server.conns c, ∀ s f o, conn.lookupOpenFile s f = some o →
    handleAt c s f server.past = some o

structure Exact (server : Server) : Prop where
  exist : ∀ c, ∀ conn ∈ server.conns c, ∀ s f o, conn.lookupOpenFile s f = some o →
    server.files.Has o.sharePath
  handles : ∀ c, ∀ conn ∈ server.conns c, ∀ s f,
    conn.lookupOpenFile s f = handleAt c s f server.past

variable {toLowercase : String → String} {server server' : Server}

theorem handlesUsable_iff_exact (h : server.Tracked) :
  server.HandlesUsable ↔ server.Exact
  := by
  constructor
  · intro husable
    refine ⟨husable.exist, ?_⟩
    intro c conn hconn s f
    cases hhandle : handleAt c s f server.past with
    | none =>
      cases hlookup : conn.lookupOpenFile s f with
      | none => rfl
      | some o =>
        rw [h.handles c conn hconn s f o hlookup] at hhandle
        cases hhandle
    | some o =>
      obtain ⟨o', hlookup, -⟩ := (ConnectionState.handleRead_succeeds_iff h.inMemory _ _).mp
        (husable.readable c conn hconn s f o (openSince_of_handleAt hhandle)
          { Smb2Header.newRequest 0 0 with sessionId := s } ⟨0, 0, f, 0⟩ rfl rfl)
      have hhandle' := h.handles c conn hconn s f o' hlookup
      rw [hhandle] at hhandle'
      cases hhandle'
      apply hlookup
  · intro hexact
    refine ⟨hexact.exist, ?_⟩
    rintro c conn hconn _ _ o hopen header req rfl rfl
    obtain ⟨o', ho'⟩ := Option.isSome_iff_exists.mp (isSome_handleAt_of_openSince hopen)
    rw [← hexact.handles c conn hconn] at ho'
    apply (ConnectionState.handleRead_succeeds_iff h.inMemory _ _).mpr
    exact ⟨o', ho', hexact.exist c conn hconn _ _ o' ho'⟩

variable {event : Event}

theorem tracked_step (h : server.Tracked) (hevent : event.InMemory)
    (hstep : server.step toLowercase event = some server') :
  server'.Tracked
  := by
  cases step_cases hstep with
  | hungUp =>
    refine ⟨h.inMemory, ?_⟩
    intro c' conn hconn
    apply h.handles c' conn (mem_conns_of_ended hconn)
  | panicked hconn hdispatch =>
    refine ⟨h.inMemory.put (ConnectionState.put_dispatchFrame h.inMemory hevent hdispatch), ?_⟩
    intro c' conn hconn
    apply h.handles c' conn (mem_conns_of_ended hconn)
  | answered hconn hdispatch =>
    refine ⟨h.inMemory.put (ConnectionState.put_dispatchFrame h.inMemory hevent hdispatch), ?_⟩
    apply handles_answered h.handles hconn hdispatch

theorem Exact.ended (h : server.Exact) {files : Files} (hput : server.files.Put files) (c : ℕ) :
  Exact { server with conns := Function.update server.conns c none, files }
  := by
  constructor
  · intro c' conn hconn s f o ho
    apply (h.exist c' conn (mem_conns_of_ended hconn) s f o ho).put hput
  · intro c' conn hconn
    apply h.handles c' conn (mem_conns_of_ended hconn)

section

variable {c : ℕ} {header : Smb2Header} {request : Request} {conn conn' : ConnectionState}
variable {files : Files} {response : Response}

abbrev answer (server : Server) (c : ℕ) (header : Smb2Header) (request : Request)
    (conn conn' : ConnectionState) (files : Files) (response : Response) : Server where
  conns := Function.update server.conns c (some conn')
  files
  past := ⟨c, header, request, conn.shareForSession header.sessionId, response⟩ :: server.past

theorem Exact.answered (h : server.Exact)
    (hkeeps : conn.KeepsHandles toLowercase server.files header request)
    (hput : server.files.Put files) (hconn : server.conns c = some conn)
    (hdispatch : conn.dispatchFrame toLowercase server.files header request
      = (conn', files, some response)) :
  (server.answer c header request conn conn' files response).Exact
  := by
  constructor
  · intro c' conn₁ hconn₁ s f o ho
    obtain ⟨rfl, rfl⟩ | ⟨hc, hconn₁⟩ := mem_conns_of_answered hconn₁
    · rw [ConnectionState.lookupOpenFile_dispatchFrame c hdispatch] at ho
      split_ifs at ho
      obtain ⟨-, hopened⟩ | ⟨-, ho⟩ := Exchange.handle_eq_some ho
      · apply ConnectionState.has_of_opened hkeeps hput hdispatch hopened
      · apply (h.exist c conn hconn s f o ho).put hput
    · apply (h.exist c' conn₁ hconn₁ s f o ho).put hput
  · intro c' conn₁ hconn₁ s f
    rw [handleAt]
    obtain ⟨rfl, rfl⟩ | ⟨hc, hconn₁⟩ := mem_conns_of_answered hconn₁
    · rw [if_pos rfl, ← h.handles c conn hconn,
        ConnectionState.lookupOpenFile_dispatchFrame c hdispatch]
      split_ifs with hmade
      · rw [ConnectionState.handle_of_madeSession _ _ _ hmade, hkeeps.sessions s f hmade]
      · rfl
    · rw [if_neg hc]
      apply h.handles c' conn₁ hconn₁

theorem keepsHandles_of_answered (h : server.Exact) (hconn : server.conns c = some conn)
    (hdispatch : conn.dispatchFrame toLowercase server.files header request
      = (conn', files, some response))
    (hafter : (server.answer c header request conn conn' files response).Exact) :
  conn.KeepsHandles toLowercase server.files header request
  := by
  have hconn' : conn' ∈ Function.update server.conns c (some conn') c := by
    rw [Function.update_self]
    rfl
  constructor
  · rintro req share rfl hshare
    apply ConnectionState.exist_of_has hshare hdispatch (hafter.exist c conn' hconn')
  · intro s f hmade
    have hlost := hafter.handles c conn' hconn' s f
    rw [ConnectionState.lookupOpenFile_dispatchFrame c hdispatch, if_pos hmade, handleAt,
      if_pos rfl, ConnectionState.handle_of_madeSession _ _ _ hmade] at hlost
    rw [h.handles c conn hconn, ← hlost]

end

theorem exact_step_iff (h : server.Tracked) (hexact : server.Exact) (hevent : event.InMemory)
    (hstep : server.step toLowercase event = some server') :
  server'.Exact ↔ server.KeepsHandles toLowercase event
  := by
  cases step_cases hstep with
  | hungUp =>
    apply iff_of_true
    · apply hexact.ended (.inl rfl)
    · trivial
  | @panicked c header request conn conn' files hconn hdispatch =>
    apply iff_of_true
    · apply hexact.ended (ConnectionState.put_dispatchFrame h.inMemory hevent hdispatch)
    · intro conn₁ hconn₁
      obtain rfl : conn = conn₁ := Option.some.inj (hconn.symm.trans hconn₁)
      -- Only a `READ` and a `WRITE` panic.
      cases request with
      | read req | write req => exact ⟨by simp, by simp [ConnectionState.madeSession]⟩
      | negotiate | sessionSetup | logoff | treeConnect _ | treeDisconnect | create _ | close _
      | echo | other =>
        cases hdispatch
  | @answered c header request conn conn' files response hconn hdispatch =>
    have hput := ConnectionState.put_dispatchFrame h.inMemory hevent hdispatch
    constructor
    · intro hafter conn₁ hconn₁
      obtain rfl : conn = conn₁ := Option.some.inj (hconn.symm.trans hconn₁)
      apply keepsHandles_of_answered hexact hconn hdispatch hafter
    · intro hkeeps
      apply hexact.answered (hkeeps conn hconn) hput hconn hdispatch

/-- In the states of a run all open files exist, and all file ids that were returned and not closed
since can be read, exactly when each `CREATE` is of a disposition that the server knows or of a file
that exists, and no session is made anew that has files open. -/
theorem handles_usable_iff (serverGuid : Uuid) (serverSalt : Bytes)
    (shares : String → Option Share) {files : Files} (hfiles : files.InMemory)
    {events : List Event} (hevents : ∀ event ∈ events, event.InMemory) :
  (∀ done server, done <+: events →
      exec (step toLowercase) (new serverGuid serverSalt shares files) done = some server →
        server.HandlesUsable)
    ↔ Along (step toLowercase) (KeepsHandles toLowercase)
        (new serverGuid serverSalt shares files) events
  := by
  have hstart : (new serverGuid serverSalt shares files).Tracked := by
    refine ⟨hfiles, ?_⟩
    intro c conn hconn s f o ho
    obtain rfl := Option.some.inj hconn
    cases ho
  have hexact : (new serverGuid serverSalt shares files).Exact := by
    constructor
    · intro c conn hconn s f o ho
      obtain rfl := Option.some.inj hconn
      cases ho
    · intro c conn hconn s f
      obtain rfl := Option.some.inj hconn
      rfl
  apply forall_prefix_iff_along (I := Tracked) (R := Event.InMemory)
    (fun _ _ _ h hevent hstep => tracked_step h hevent hstep) _ _ hstart
    ((handlesUsable_iff_exact hstart).mpr hexact) hevents
  · intro server event hnone
    cases event with
    | hangUp c => cases hnone
    | request c header request =>
      intro conn hconn
      have hnone' := Option.map_eq_none_iff.mp hnone
      rw [Option.mem_def.mp hconn] at hnone'
      cases hnone'
  · intro server event server' h hevent husable hstep
    rw [handlesUsable_iff_exact (tracked_step h hevent hstep)]
    apply exact_step_iff h ((handlesUsable_iff_exact h).mp husable) hevent hstep

def KnowsDisposition (server : Server) : Event → Prop
  | .request c _ request => ∀ conn ∈ server.conns c, (conn.sessions conn.nextSessionId).isNone
      ∧ request.HasDisposition VirtualFs.dispositions
  | .hangUp _ => True

instance (server : Server) : (event : Event) → Decidable (server.KnowsDisposition event)
  | .request _ _ _ => inferInstanceAs (Decidable (∀ _ ∈ _, _))
  | .hangUp _ => isTrue trivial

theorem keepsHandles_of_knowsDisposition (toLowercase : String → String)
    (h : server.KnowsDisposition event) :
  server.KeepsHandles toLowercase event
  := by
  cases event with
  | hangUp c => trivial
  | request c header request =>
    intro conn hconn
    obtain ⟨hsession, hdisposition⟩ := h conn hconn
    constructor
    · rintro req share rfl -
      exact .inl hdisposition
    · intro s f hmade
      obtain rfl := ConnectionState.madeSession_eq hmade
      rw [ConnectionState.lookupOpenFile, Option.isNone_iff_eq_none.mp hsession]
      rfl

theorem handles_usable_rereading :
  (∀ event ∈ Sysvol.rereading, event.InMemory)
    ∧ ∀ done server, done <+: Sysvol.rereading →
      exec (step id) Sysvol.server done = some server → server.HandlesUsable
  := by
  have hevents : ∀ event ∈ Sysvol.rereading, event.InMemory := by decide +kernel
  have hfiles : Files.InMemory fun _ => .new := by
    intro fs path data hdata
    cases hdata
  have hknows : Along (step id) KnowsDisposition Sysvol.server Sysvol.rereading := by
    decide +kernel
  refine ⟨hevents, (handles_usable_iff 1 [] Sysvol.shares hfiles hevents).mpr ?_⟩
  apply hknows.mono fun _ _ => keepsHandles_of_knowsDisposition id

end Server

namespace Sysvol

def superseding : List Event :=
  [request 0 .sessionSetup, request 1 (.treeConnect ⟨"\\\\server\\sysvol"⟩),
    request 1 (.create { CreateRequest.new "a" with createDisposition := 0x00 }),
    request 1 (.read ⟨10, 0, ⟨1, 1⟩, 0⟩)]

end Sysvol

namespace Server

/-- The client is told that the file is open, and then that it is closed. -/
theorem superseding_not_usable :
  ∃ server, exec (step id) Sysvol.server Sysvol.superseding = some server
    ∧ server.past.map (·.response.header.status)
      = [statusFileClosed, statusSuccess, statusSuccess, statusSuccess]
    ∧ ¬ server.HandlesUsable
  := by
  have hstatus : (exec (step id) Sysvol.server Sysvol.superseding).map
      (fun server => server.past.map (·.response.header.status))
        = some [statusFileClosed, statusSuccess, statusSuccess, statusSuccess] := by
    decide +kernel
  have hopen : (exec (step id) Sysvol.server Sysvol.superseding).bind
      (fun server => (server.conns 0).bind fun conn => (conn.lookupOpenFile 1 ⟨1, 1⟩).map
        fun o => (server.files o.share.fs).get o.path) = some none := by
    decide +kernel
  obtain ⟨server, hrun, hstatus⟩ := Option.map_eq_some_iff.mp hstatus
  rw [hrun, Option.bind_some] at hopen
  obtain ⟨conn, hconn, hopen⟩ := Option.bind_eq_some_iff.mp hopen
  obtain ⟨o, ho, hfile⟩ := Option.map_eq_some_iff.mp hopen
  refine ⟨server, hrun, hstatus, ?_⟩
  intro husable
  have hhas : ((server.files o.share.fs).get o.path).isSome := husable.exist 0 conn hconn _ _ o ho
  rw [hfile] at hhas
  cases hhas

end Server

end Smb
