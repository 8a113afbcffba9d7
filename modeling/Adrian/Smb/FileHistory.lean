import Adrian.Lib.History
import Adrian.Smb.Server

/-!
# Files after a history of requests

What a file id stands for in a session, and what the files hold, can be told from the requests that
were answered so far: `handleAt` is what the `CREATE` that last returned the id has opened, as long
as nothing has closed it since, and `filesAfter` has the files as sparse files, after all that was
created, truncated and written.
-/

namespace Smb

open History

/-! ### Open files -/

def Request.Ends (fileId : FileId) : Request → Prop
  | .close req => req.fileId = fileId
  | .treeDisconnect | .logoff => True
  | _ => False

instance (fileId : FileId) : (request : Request) → Decidable (request.Ends fileId)
  | .close _ => inferInstanceAs (Decidable (_ = _))
  | .treeDisconnect | .logoff => isTrue trivial
  | .negotiate | .sessionSetup | .treeConnect _ | .create _ | .read _ | .write _ | .echo
  | .other => isFalse id

namespace Exchange

def opened (e : Exchange) : Option (FileId × OpenFile) :=
  match e.request with
  | .create req =>
    match e.response.body with
    | .create resp => e.share.map fun share => (resp.fileId, { path := req.name, share })
    | _ => none
  | _ => none

theorem opened_of_refused {e : Exchange} (h : e.response.body = .refused) :
  e.opened = none
  := by
  rw [opened, h]
  split <;> rfl

theorem opened_create (c : ℕ) (header : Smb2Header) (req : CreateRequest) {share : Option Share}
    {share' : Share} {response : Response} {resp : CreateResponse}
    (hbody : response.body = .create resp) (hshare : share = some share') :
  opened ⟨c, header, .create req, share, response⟩
    = some (resp.fileId, { path := req.name, share := share' })
  := by
  rw [opened, hbody, hshare]
  rfl

def handle (e : Exchange) (sessionId : UInt64) (fileId : FileId) (before : Option OpenFile) :
    Option OpenFile :=
  if e.header.sessionId ≠ sessionId then
    before
  else if e.request.Ends fileId then
    none
  else
    match e.opened with
    | some (fileId', openFile) => if fileId' = fileId then some openFile else before
    | none => before

end Exchange

def handleAt (c : ℕ) (sessionId : UInt64) (fileId : FileId) : List Exchange → Option OpenFile
  | [] => none
  | e :: past =>
    if e.conn = c then
      e.handle sessionId fileId (handleAt c sessionId fileId past)
    else
      handleAt c sessionId fileId past

/-- The file id was returned by a `CREATE` of the file in the session, and has not been closed,
tree-disconnected or logged off since. -/
def OpenSince (c : ℕ) (sessionId : UInt64) (fileId : FileId) (openFile : OpenFile)
    (past : List Exchange) : Prop :=
  Since
    (fun e => e.conn = c ∧ e.header.sessionId = sessionId ∧ e.opened = some (fileId, openFile))
    (fun e => e.conn = c ∧ e.header.sessionId = sessionId ∧ e.request.Ends fileId)
    past

section

variable {c : ℕ} {s : UInt64} {f : FileId} {o : OpenFile} {e : Exchange}

variable {before : Option OpenFile}

theorem Exchange.handle_eq_some (h : e.handle s f before = some o) :
  e.header.sessionId = s ∧ e.opened = some (f, o)
    ∨ ¬ (e.header.sessionId = s ∧ e.request.Ends f) ∧ before = some o
  := by
  rw [handle] at h
  split_ifs at h with hs hends
  · exact .inr ⟨fun h => hs h.1, h⟩
  · cases hopened : e.opened with
    | none =>
      rw [hopened] at h
      exact .inr ⟨fun h => hends h.2, h⟩
    | some p =>
      rw [hopened] at h
      simp only at h
      split_ifs at h with hf
      · cases h
        subst hf
        exact .inl ⟨not_not.mp hs, rfl⟩
      · exact .inr ⟨fun h => hends h.2, h⟩

theorem Exchange.handle_mono {before' : Option OpenFile}
    (hle : ∀ o, before = some o → before' = some o) (h : e.handle s f before = some o) :
  e.handle s f before' = some o
  := by
  rw [handle] at h ⊢
  split_ifs at h ⊢
  · apply hle o h
  · cases hopened : e.opened with
    | none =>
      rw [hopened] at h
      apply hle o h
    | some p =>
      rw [hopened] at h
      simp only at h ⊢
      split_ifs at h ⊢
      · apply h
      · apply hle o h

theorem Exchange.handle_of_ne (hs : e.header.sessionId ≠ s) :
  e.handle s f before = before
  := if_pos hs

theorem Exchange.handle_of_opened_none (hopened : e.opened = none) :
  e.handle s f before
    = if e.header.sessionId = s ∧ e.request.Ends f then none else before
  := by
  rw [handle, hopened]
  by_cases hs : e.header.sessionId = s
  · by_cases hends : e.request.Ends f
    · rw [if_neg (not_not.mpr hs), if_pos hends, if_pos ⟨hs, hends⟩]
    · rw [if_neg (not_not.mpr hs), if_neg hends, if_neg fun h => hends h.2]
  · rw [if_pos hs, if_neg fun h => hs h.1]

theorem Exchange.handle_of_opened {f' : FileId} (hs : e.header.sessionId = s)
    (hopened : e.opened = some (f', o)) (hends : ¬ e.request.Ends f) :
  e.handle s f before = if f' = f then some o else before
  := by
  rw [handle, if_neg (not_not.mpr hs), if_neg hends, hopened]

theorem openSince_of_handleAt {past : List Exchange} (h : handleAt c s f past = some o) :
  OpenSince c s f o past
  := by
  induction past with
  | nil => cases h
  | cons e past ih =>
    apply since_cons.mpr
    rw [handleAt] at h
    split_ifs at h with hc
    · obtain hopened | ⟨hends, h⟩ := Exchange.handle_eq_some h
      · exact .inl ⟨hc, hopened⟩
      · exact .inr ⟨fun h => hends h.2, ih h⟩
    · exact .inr ⟨fun h => hc h.1, ih h⟩

theorem Exchange.not_ends_of_opened {p : FileId × OpenFile} (h : e.opened = some p) :
  ¬ e.request.Ends f
  := by
  rw [opened] at h
  split at h
  next hrequest =>
    rw [hrequest]
    exact id
  next => cases h

theorem Exchange.isSome_handle (hends : ¬ (e.header.sessionId = s ∧ e.request.Ends f))
    (h : before.isSome) :
  (e.handle s f before).isSome
  := by
  cases hopened : e.opened with
  | none =>
    rw [handle_of_opened_none hopened, if_neg hends]
    apply h
  | some p =>
    by_cases hs : e.header.sessionId = s
    · rw [handle_of_opened hs hopened (not_ends_of_opened hopened)]
      split_ifs
      · rfl
      · apply h
    · rw [handle_of_ne hs]
      apply h

theorem isSome_handleAt_of_openSince {past : List Exchange} (h : OpenSince c s f o past) :
  (handleAt c s f past).isSome
  := by
  induction past with
  | nil => exact absurd h not_since_nil
  | cons e past ih =>
    rw [handleAt]
    obtain ⟨hc, hs, hopened⟩ | ⟨hends, h⟩ := since_cons.mp h
    · have hends := Exchange.not_ends_of_opened (f := f) hopened
      rw [if_pos hc, Exchange.handle_of_opened hs hopened hends, if_pos rfl]
      rfl
    · split_ifs with hc
      · apply Exchange.isSome_handle (fun hends' => hends ⟨hc, hends'⟩) (ih h)
      · apply ih h

end

def OpenFile.sharePath (openFile : OpenFile) : ℕ × String :=
  (openFile.share.fs, openFile.path)

abbrev FileMap : Type := ℕ × String → Option (SparseFile UInt8)

def Exchange.effect (e : Exchange) (older : List Exchange) (files : FileMap) : FileMap :=
  match e.request with
  | .create req =>
    match e.opened with
    | some (_, openFile) =>
      Function.update files openFile.sharePath
        (VirtualFs.created req.createDisposition (files openFile.sharePath))
    | none => files
  | .write req =>
    if e.response.Succeeded then
      match handleAt e.conn e.header.sessionId req.fileId older with
      | some openFile =>
        Function.update files openFile.sharePath
          ((files openFile.sharePath).map (·.write req.offset.toNat req.data))
      | none => files
    else
      files
  | _ => files

def filesAfter (initial : FileMap) : List Exchange → FileMap
  | [] => initial
  | e :: older => e.effect older (filesAfter initial older)

end Smb
