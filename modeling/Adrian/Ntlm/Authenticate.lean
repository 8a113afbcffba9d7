import Adrian.Lib.Utf16
import Adrian.Ntlm.AvPairs

/-!
# The message that authenticates a client

The client answers a challenge with a proof that it knows the password, over the challenge and a
blob of its own.  MD4, HMAC-MD5 and the case of letters are those of other libraries.

The client removes the last four bytes of the target info if they are zero, whether or not they are
a pair.  When they are the end of a value, the last pair in the blob takes in what was to follow it.
-/

namespace Ntlm

open Bytes Utf16

/-- What is taken from other libraries: MD4, HMAC-MD5 of a key and a message, and uppercase
letters. -/
structure Primitives where
  md4 : Bytes → Vector UInt8 16
  hmacMd5 : Vector UInt8 16 → Bytes → Vector UInt8 16
  toUppercase : String → String

inductive NtlmError where
  | channelBindingRequired
deriving DecidableEq

structure ChallengeMessage where
  serverChallenge : Vector UInt8 8
  negotiateFlags : UInt32
  targetInfo : Bytes
deriving DecidableEq

def utf16Le (s : String) : Bytes :=
  unitBytes (encodeUtf16 s)

section

variable (prims : Primitives)

def ntowfv1 (password : String) : Vector UInt8 16 :=
  prims.md4 (utf16Le password)

def ntowfv2 (ntHash : Vector UInt8 16) (user domain : String) : Vector UInt8 16 :=
  prims.hmacMd5 ntHash (utf16Le (prims.toUppercase user) ++ utf16Le domain)

def buildNtlmv2Blob (timestamp : UInt64) (clientChallenge : Vector UInt8 8)
    (targetInfo : Bytes) : Bytes :=
  leBytes 4 0x00000001 ++ leBytes 4 0x00000001 ++ List.replicate 6 0
    ++ leBytes 8 timestamp.toNat ++ clientChallenge.toList ++ leBytes 4 0x00000000 ++ targetInfo
    ++ if endsWithEol targetInfo then [] else leBytes 2 AvId.eol.toNat ++ leBytes 2 0

def computeNtlmv2Response (ntHash : Vector UInt8 16) (serverChallenge : Vector UInt8 8)
    (targetInfo : Bytes) (timestamp : UInt64) (clientChallenge : Vector UInt8 8) :
    Bytes :=
  let blob := buildNtlmv2Blob timestamp clientChallenge targetInfo
  (prims.hmacMd5 ntHash (serverChallenge.toList ++ blob)).toList ++ blob

def computeLmv2Response (ntowfv2 : Vector UInt8 16) (serverChallenge clientChallenge :
    Vector UInt8 8) : Bytes :=
  (prims.hmacMd5 ntowfv2 (serverChallenge.toList ++ clientChallenge.toList)).toList
    ++ clientChallenge.toList

/-! ### The message -/

def ntlmsspSignature : Bytes :=
  [0x4E, 0x54, 0x4C, 0x4D, 0x53, 0x53, 0x50, 0x00]

def negotiateUnicode : UInt32 := 0x00000001

def negotiateNtlm : UInt32 := 0x00000200

def negotiateExtendedSessionsecurity : UInt32 := 0x00080000

def ephemeral : UInt32 := 0x00000040

def withoutEol (targetInfo : Bytes) : Bytes :=
  if endsWithEol targetInfo then targetInfo.take (targetInfo.length - 4) else targetInfo

def blobTargetInfo (targetInfo : Bytes) (channelBinding : Option Bytes) :
    Except NtlmError Bytes :=
  let targetInfo := withoutEol targetInfo
  match channelBinding with
  | none => .ok targetInfo
  | some cb =>
    if cb.length ≠ 16 then
      .error .channelBindingRequired
    else
      .ok (targetInfo ++ leBytes 2 AvId.channelBindings.toNat ++ leBytes 2 16 ++ cb)

/-- Where a part of the message is: how many bytes it has, twice, and where it begins. -/
def partFields (part : Bytes) (offset : ℕ) : Bytes :=
  leBytes 2 part.length ++ leBytes 2 part.length ++ leBytes 4 offset

def authenticateMessage (lmResponse ntResponse domainU16 userU16 wsU16 encSessionKey : Bytes)
    (flags : UInt32) : Bytes :=
  let lmOffset := 64
  let ntOffset := lmOffset + lmResponse.length
  let domOffset := ntOffset + ntResponse.length
  let userOffset := domOffset + domainU16.length
  let wsOffset := userOffset + userU16.length
  let eskOffset := wsOffset + wsU16.length
  ntlmsspSignature ++ leBytes 4 3 ++ partFields lmResponse lmOffset
    ++ partFields ntResponse ntOffset ++ partFields domainU16 domOffset
    ++ partFields userU16 userOffset ++ partFields wsU16 wsOffset
    ++ partFields encSessionKey eskOffset ++ leBytes 4 flags.toNat
    ++ lmResponse ++ ntResponse ++ domainU16 ++ userU16 ++ wsU16 ++ encSessionKey

def buildAuthenticateWithOptions (timestamp : UInt64) (challenge : ChallengeMessage)
    (username password domain workstation : String) (channelBinding : Option Bytes)
    (clientChallenge : Option (Vector UInt8 8)) : Except NtlmError Bytes := do
  let cc := clientChallenge.getD (Vector.replicate 8 0)
  let pairs ← blobTargetInfo challenge.targetInfo channelBinding
  let targetInfo := pairs ++ leBytes 2 AvId.eol.toNat ++ leBytes 2 0
  let ntowf := ntowfv2 prims (ntowfv1 prims password) username domain
  let ntResponse :=
    computeNtlmv2Response prims ntowf challenge.serverChallenge targetInfo timestamp cc
  let lmResponse := computeLmv2Response prims ntowf challenge.serverChallenge cc
  let flags := challenge.negotiateFlags
    ||| (negotiateUnicode ||| negotiateNtlm ||| negotiateExtendedSessionsecurity)
  let flags := if channelBinding.isSome then flags ||| ephemeral else flags
  return authenticateMessage lmResponse ntResponse (utf16Le domain) (utf16Le username)
    (utf16Le workstation) [] flags

end

def ntChallengeResponse (message : Bytes) : Option Bytes :=
  let length := ofLe ((message.drop 20).take 2)
  let offset := ofLe ((message.drop 24).take 4)
  if message.length < offset + length then
    none
  else
    some ((message.drop offset).take length)

def blobAvPairs (message : Bytes) : Option (List AvPair) := do
  let response ← ntChallengeResponse message
  if response.length < 16 + 34 then
    none
  else
    AvPair.parse (response.drop (16 + 34))

theorem ntChallengeResponse_eq (before between response after : Bytes) {offset : ℕ}
    (hbefore : before.length = 20) (hoffset : 28 + between.length = offset)
    (hlt : offset < 2 ^ 32) :
  ntChallengeResponse (before ++ (partFields response offset ++ (between ++ (response ++ after))))
    = some (response.take (response.length % 2 ^ 16))
  := by
  have hmod : response.length % 2 ^ 16 ≤ response.length := Nat.mod_le _ _
  have hfields : (partFields response offset).length = 8 := by simp [partFields]
  generalize hmessage :
    before ++ (partFields response offset ++ (between ++ (response ++ after))) = message
  have hparts : message.drop 20
      = partFields response offset ++ (between ++ (response ++ after)) := by
    rw [← hmessage, List.drop_left' hbefore]
  have hlength : (message.drop 20).take 2 = leBytes 2 response.length := by
    rw [hparts, partFields, List.append_assoc, List.append_assoc,
      List.take_left' (length_leBytes _ _)]
  have hbegins : (message.drop 24).take 4 = leBytes 4 offset := by
    rw [show 24 = 20 + 4 from rfl, ← List.drop_drop, hparts, partFields, List.append_assoc,
      List.drop_left' (by simp), List.take_left' (length_leBytes _ _)]
  have hresponse : message.drop offset = response ++ after := by
    rw [show offset = 20 + (8 + between.length) by omega, ← List.drop_drop, hparts,
      ← List.drop_drop, List.drop_left' hfields, List.drop_left]
  have hfits : ¬ message.length < offset + response.length % 2 ^ 16 := by
    rw [← hmessage]
    simp only [List.length_append, hbefore, hfields]
    omega
  rw [ntChallengeResponse, hlength, hbegins, ofLe_leBytes, ofLe_leBytes,
    show 256 ^ 2 = 2 ^ 16 from rfl, show 256 ^ 4 = 2 ^ 32 from rfl, Nat.mod_eq_of_lt hlt,
    if_neg hfits, hresponse, List.take_append_of_le_length hmod]

theorem computeNtlmv2Response_eq (prims : Primitives) (ntHash : Vector UInt8 16)
    (serverChallenge : Vector UInt8 8) (pairs : Bytes) (timestamp : UInt64)
    (clientChallenge : Vector UInt8 8) :
  ∃ front, front.length = 16 + 34
    ∧ computeNtlmv2Response prims ntHash serverChallenge (pairs ++ [0, 0, 0, 0]) timestamp
        clientChallenge = front ++ (pairs ++ [0, 0, 0, 0])
  := by
  rw [computeNtlmv2Response, buildNtlmv2Blob, if_pos (endsWithEol_append_eol pairs),
    List.append_nil, ← List.append_assoc]
  refine ⟨_, ?_, rfl⟩
  simp

theorem blobAvPairs_eq_some_iff {message front targetInfo : Bytes} {pairs : List AvPair}
    (hfront : front.length = 16 + 34)
    (h : ntChallengeResponse message
      = some ((front ++ targetInfo).take ((front ++ targetInfo).length % 2 ^ 16)))
    (hlength : targetInfo.length ≤ (pairs.flatMap AvPair.encode).length) :
  blobAvPairs message = some pairs
    ↔ pairs.flatMap AvPair.encode = targetInfo ∧ 16 + 34 + targetInfo.length < 2 ^ 16
  := by
  have htotal : (front ++ targetInfo).length = 16 + 34 + targetInfo.length := by
    rw [List.length_append, hfront]
  rw [blobAvPairs, h, Option.bind_eq_bind, Option.bind_some]
  generalize hn : (front ++ targetInfo).length % 2 ^ 16 = n
  have hresponse : ((front ++ targetInfo).take n).length = n := by
    rw [List.length_take]
    omega
  have hpairs : ((front ++ targetInfo).take n).drop (16 + 34)
      = targetInfo.take (n - (16 + 34)) := by
    rw [List.drop_take, List.drop_left' hfront]
  rw [hresponse, hpairs]
  constructor
  · intro hparse
    split_ifs at hparse with hshort
    have hwritten := AvPair.parse_eq_some_iff.mp hparse
    have hlonger := congrArg List.length hwritten
    rw [List.length_take] at hlonger
    rw [List.take_of_length_le (by omega)] at hwritten
    exact ⟨hwritten, by omega⟩
  · rintro ⟨hwritten, hsmall⟩
    rw [if_neg (by omega), AvPair.parse_eq_some_iff, List.take_of_length_le (by omega)]
    apply hwritten

theorem ntChallengeResponse_authenticateMessage {lmResponse : Bytes}
    (hlm : lmResponse.length = 24) (ntResponse domainU16 userU16 wsU16 encSessionKey : Bytes)
    (flags : UInt32) :
  ntChallengeResponse (authenticateMessage lmResponse ntResponse domainU16 userU16 wsU16
      encSessionKey flags) = some (ntResponse.take (ntResponse.length % 2 ^ 16))
  := by
  have hfields (part : Bytes) (offset : ℕ) : (partFields part offset).length = 8 := by
    simp [partFields]
  have hresponse := ntChallengeResponse_eq
    (ntlmsspSignature ++ leBytes 4 3 ++ partFields lmResponse 64)
    (partFields domainU16 (64 + lmResponse.length + ntResponse.length)
      ++ partFields userU16 (64 + lmResponse.length + ntResponse.length + domainU16.length)
      ++ partFields wsU16
        (64 + lmResponse.length + ntResponse.length + domainU16.length + userU16.length)
      ++ partFields encSessionKey (64 + lmResponse.length + ntResponse.length + domainU16.length
        + userU16.length + wsU16.length)
      ++ leBytes 4 flags.toNat ++ lmResponse)
    ntResponse (domainU16 ++ userU16 ++ wsU16 ++ encSessionKey)
    (by simp [hfields, ntlmsspSignature])
    (by simp [hfields, hlm] : _ = 64 + lmResponse.length) (by omega)
  rw [authenticateMessage]
  simpa only [List.append_assoc] using hresponse

theorem exists_authenticate (prims : Primitives) (timestamp : UInt64)
    (challenge : ChallengeMessage) (username password domain workstation : String)
    {channelBinding : Option Bytes} (clientChallenge : Option (Vector UInt8 8))
    {pairs : Bytes} (h : blobTargetInfo challenge.targetInfo channelBinding = .ok pairs) :
  ∃ message front, buildAuthenticateWithOptions prims timestamp challenge username password domain
      workstation channelBinding clientChallenge = .ok message
    ∧ front.length = 16 + 34
    ∧ ntChallengeResponse message = some ((front ++ (pairs ++ [0, 0, 0, 0])).take
        ((front ++ (pairs ++ [0, 0, 0, 0])).length % 2 ^ 16))
  := by
  have heol : pairs ++ leBytes 2 AvId.eol.toNat ++ leBytes 2 0 = pairs ++ [0, 0, 0, 0] := by
    rw [List.append_assoc]
    rfl
  obtain ⟨front, hfront, hresponse⟩ := computeNtlmv2Response_eq prims
    (ntowfv2 prims (ntowfv1 prims password) username domain) challenge.serverChallenge pairs
    timestamp (clientChallenge.getD (Vector.replicate 8 0))
  rw [buildAuthenticateWithOptions, h]
  refine ⟨_, front, rfl, hfront, ?_⟩
  rw [ntChallengeResponse_authenticateMessage (by simp [computeLmv2Response]), heol, hresponse]

/-! ### The pairs of the challenge -/

def AvPair.channelBinding (cb : Vector UInt8 16) : AvPair where
  avId := AvId.channelBindings
  value := cb.toList
  fits := by simp

def targetInfoOf (pairs : List AvPair) (trailing : Bool) : Bytes :=
  pairs.flatMap AvPair.encode ++ if trailing then AvPair.eol.encode else []

def completed (pairs : List AvPair) (channelBinding : Option (Vector UInt8 16)) : List AvPair :=
  pairs ++ (channelBinding.map AvPair.channelBinding).toList ++ [AvPair.eol]

theorem blobTargetInfo_eq (targetInfo : Bytes) (channelBinding : Option (Vector UInt8 16)) :
  blobTargetInfo targetInfo (channelBinding.map Vector.toList)
    = .ok (withoutEol targetInfo
        ++ (channelBinding.map AvPair.channelBinding).toList.flatMap AvPair.encode)
  := by
  cases channelBinding with
  | none => simp [blobTargetInfo]
  | some cb => simp [blobTargetInfo, AvPair.channelBinding, AvPair.encode]

theorem length_withoutEol_le (pairs : List AvPair) (trailing : Bool) :
  (withoutEol (targetInfoOf pairs trailing)).length ≤ (pairs.flatMap AvPair.encode).length
  := by
  cases trailing with
  | false =>
    rw [withoutEol, targetInfoOf, if_neg Bool.false_ne_true, List.append_nil]
    split_ifs
    · apply List.length_take_le'
    · rfl
  | true =>
    rw [targetInfoOf, if_pos rfl, AvPair.encode_eol, withoutEol,
      if_pos (endsWithEol_append_eol _), List.length_take, List.length_append]
    simp

theorem withoutEol_eq_iff (pairs : List AvPair) (trailing : Bool) :
  withoutEol (targetInfoOf pairs trailing) = pairs.flatMap AvPair.encode
    ↔ trailing ∨ ¬ endsWithEol (pairs.flatMap AvPair.encode)
  := by
  cases trailing with
  | false =>
    rw [withoutEol, targetInfoOf, if_neg Bool.false_ne_true, List.append_nil]
    by_cases h : endsWithEol (pairs.flatMap AvPair.encode)
    · rw [if_pos h]
      refine iff_of_false ?_ (by simp [h])
      intro heq
      have hlength := congrArg List.length heq
      have hfour := (endsWithEol_iff.mp h).length_le
      simp only [List.length_take, List.length_cons, List.length_nil] at hlength hfour
      omega
    · rw [if_neg h]
      simp [h]
  | true =>
    rw [targetInfoOf, if_pos rfl, AvPair.encode_eol, withoutEol,
      if_pos (endsWithEol_append_eol _)]
    simp

/-- The pairs in the blob are those of the challenge, the binding of the channel, and one that ends
them, exactly when the target info of the challenge is ended or its last value does not end in
zeros, and the response has not more bytes than the message can tell. -/
theorem target_info_preserved_iff (prims : Primitives) (timestamp : UInt64)
    (serverChallenge : Vector UInt8 8) (negotiateFlags : UInt32)
    (username password domain workstation : String) (channelBinding : Option (Vector UInt8 16))
    (clientChallenge : Option (Vector UInt8 8)) {pairs : List AvPair}
    (hids : ∀ p ∈ pairs, p.avId ≠ AvId.eol) (trailing : Bool) :
  (∃ message,
      buildAuthenticateWithOptions prims timestamp
          ⟨serverChallenge, negotiateFlags, targetInfoOf pairs trailing⟩ username password domain
          workstation (channelBinding.map Vector.toList) clientChallenge = .ok message
        ∧ blobAvPairs message = some (completed pairs channelBinding))
    ↔ (trailing ∨ ∀ p ∈ pairs.getLast?, ¬ p.EndsInZeros)
      ∧ 16 + 34 + ((completed pairs channelBinding).flatMap AvPair.encode).length < 2 ^ 16
  := by
  obtain ⟨message, front, hmessage, hfront, hresponse⟩ := exists_authenticate prims timestamp
    ⟨serverChallenge, negotiateFlags, targetInfoOf pairs trailing⟩ username password domain
    workstation clientChallenge (blobTargetInfo_eq _ channelBinding)
  have hcompleted : (completed pairs channelBinding).flatMap AvPair.encode
      = pairs.flatMap AvPair.encode
        ++ (channelBinding.map AvPair.channelBinding).toList.flatMap AvPair.encode
        ++ [0, 0, 0, 0] := by
    simp [completed]
  have hlength := length_withoutEol_le pairs trailing
  have hends : (trailing ∨ ∀ p ∈ pairs.getLast?, ¬ p.EndsInZeros)
      ↔ withoutEol (targetInfoOf pairs trailing) = pairs.flatMap AvPair.encode := by
    rw [withoutEol_eq_iff, endsWithEol_flatMap_iff hids]
    simp only [not_exists, not_and]
  simp only [hmessage, Except.ok.injEq, exists_eq_left']
  rw [blobAvPairs_eq_some_iff hfront hresponse, hends, hcompleted, List.append_left_inj,
    List.append_left_inj, eq_comm (a := pairs.flatMap AvPair.encode)]
  · apply and_congr_right
    intro heq
    rw [heq]
  · rw [hcompleted]
    simp only [List.length_append]
    omega

def zeroPrimitives : Primitives where
  md4 _ := Vector.replicate 16 0
  hmacMd5 _ _ := Vector.replicate 16 0
  toUppercase := id

def flagsPair (flags : UInt8) : AvPair where
  avId := 0x0006
  value := [flags, 0, 0, 0]
  fits := by simp

def namePair : AvPair where
  avId := 0x0001
  value := utf16Le "S"
  fits := by decide +kernel

theorem target_info_preserved_flags :
  (∀ p ∈ [flagsPair 2, namePair], p.avId ≠ AvId.eol)
    ∧ ∃ message,
      buildAuthenticateWithOptions zeroPrimitives 0
          ⟨Vector.replicate 8 0, 0, targetInfoOf [flagsPair 2, namePair] false⟩ "User" "Password"
          "Domain" "WS01" (some (Vector.replicate 16 1).toList) none = .ok message
        ∧ blobAvPairs message
          = some (completed [flagsPair 2, namePair] (some (Vector.replicate 16 1)))
  := by
  have hids : ∀ p ∈ [flagsPair 2, namePair], p.avId ≠ AvId.eol := by decide
  have hlast : ∀ p ∈ [flagsPair 2, namePair].getLast?, ¬ p.EndsInZeros := by
    simp only [List.getLast?_cons_cons, List.getLast?_singleton, Option.mem_def,
      Option.some.injEq, forall_eq']
    decide +kernel
  refine ⟨hids, (target_info_preserved_iff zeroPrimitives 0 _ 0 "User" "Password" "Domain" "WS01"
    (some (Vector.replicate 16 1)) none hids false).mpr ⟨.inr hlast, ?_⟩⟩
  decide +kernel

theorem zero_flags_not_preserved :
  (buildAuthenticateWithOptions zeroPrimitives 0
      ⟨Vector.replicate 8 0, 0, targetInfoOf [flagsPair 0] false⟩ "User" "Password" "Domain" "WS01"
      none none).toOption.bind blobAvPairs = some [flagsPair 0]
    ∧ completed [flagsPair 0] none = [flagsPair 0, AvPair.eol]
  := by
  decide +kernel

end Ntlm
