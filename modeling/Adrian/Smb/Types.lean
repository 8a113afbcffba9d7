import Adrian.Uuid

/-!
# Messages of the SMB server

Requests and responses of the SMB 3.1.1 server as they are after decoding and before encoding: a
header, which names the session a request belongs to, and what the command has of its own.
-/

namespace Smb

open Bytes

/-! ### Status codes -/

def statusSuccess : UInt32 := 0x00000000

def statusInvalidDeviceRequest : UInt32 := 0xC0000010

def statusNoSuchFile : UInt32 := 0xC000000F

def statusAccessDenied : UInt32 := 0xC0000022

def statusObjectNameCollision : UInt32 := 0xC0000035

def statusBadNetworkName : UInt32 := 0xC00000CC

def statusFileClosed : UInt32 := 0xC0000128

structure Smb2Header where
  creditCharge : UInt16
  status : UInt32
  command : UInt16
  credits : UInt16
  flags : UInt32
  nextCommand : UInt32
  messageId : UInt64
  processId : UInt32
  treeId : UInt32
  sessionId : UInt64
  signature : Vector UInt8 16
deriving DecidableEq

namespace Smb2Header

def newRequest (command : UInt16) (messageId : UInt64) : Smb2Header where
  creditCharge := 1
  status := 0
  command
  credits := 1
  flags := 0
  nextCommand := 0
  messageId
  processId := 0
  treeId := 0
  sessionId := 0
  signature := Vector.replicate 16 0

def newResponse (req : Smb2Header) : Smb2Header where
  creditCharge := 1
  status := 0
  command := req.command
  credits := 1
  flags := 0x00000001
  nextCommand := 0
  messageId := req.messageId
  processId := req.processId
  treeId := req.treeId
  sessionId := req.sessionId
  signature := Vector.replicate 16 0

end Smb2Header

structure FileId where
  persistent : UInt64
  volatile : UInt64
deriving DecidableEq

structure TreeConnectRequest where
  path : String
deriving DecidableEq

structure CreateRequest where
  oplockLevel : UInt8
  impersonationLevel : UInt32
  smbCreateFlags : UInt64
  desiredAccess : UInt32
  fileAttributes : UInt32
  shareAccess : UInt32
  createDisposition : UInt32
  createOptions : UInt32
  name : String
deriving DecidableEq

def CreateRequest.new (name : String) : CreateRequest where
  oplockLevel := 0
  impersonationLevel := 2
  smbCreateFlags := 0
  desiredAccess := 0x00170089
  fileAttributes := 0x80
  shareAccess := 0x07
  createDisposition := 0x03
  createOptions := 0
  name

structure CloseRequest where
  flags : UInt16
  fileId : FileId
deriving DecidableEq

structure ReadRequest where
  length : UInt32
  offset : UInt64
  fileId : FileId
  minimumCount : UInt32
deriving DecidableEq

structure WriteRequest where
  length : UInt32
  offset : UInt64
  fileId : FileId
  data : Bytes
deriving DecidableEq

/-- What a request asks for.  `other` stands for the commands that the server does not support. -/
inductive Request where
  | negotiate
  | sessionSetup
  | logoff
  | treeConnect (req : TreeConnectRequest)
  | treeDisconnect
  | create (req : CreateRequest)
  | close (req : CloseRequest)
  | read (req : ReadRequest)
  | write (req : WriteRequest)
  | echo
  | other
deriving DecidableEq

/-! ### Responses -/

structure NegotiateContext where
  contextType : UInt16
  data : Bytes
deriving DecidableEq

namespace NegotiateContext

def words (ns : List UInt16) : Bytes :=
  ns.flatMap fun n => leBytes 2 n.toNat

def preauthIntegrity (hashAlgos : List UInt16) (salt : Bytes) : NegotiateContext where
  contextType := 0x0001
  data := leBytes 2 hashAlgos.length ++ leBytes 2 salt.length ++ words hashAlgos ++ salt

def encryption (ciphers : List UInt16) : NegotiateContext where
  contextType := 0x0002
  data := leBytes 2 ciphers.length ++ words ciphers

def signing (algos : List UInt16) : NegotiateContext where
  contextType := 0x0007
  data := leBytes 2 algos.length ++ words algos

end NegotiateContext

structure NegotiateResponse where
  securityMode : UInt16
  dialectRevision : UInt16
  capabilities : UInt32
  serverGuid : Uuid
  maxTransactSize : UInt32
  maxReadSize : UInt32
  maxWriteSize : UInt32
  systemTime : UInt64
  bootTime : UInt64
  securityBuffer : Bytes
  negotiateContexts : List NegotiateContext
deriving DecidableEq

def maxSmb2MessageSize : UInt32 := 0x00100000

def NegotiateResponse.new311 (serverGuid : Uuid) (serverSalt : Bytes) :
    NegotiateResponse where
  securityMode := 0x0001
  dialectRevision := 0x0311
  capabilities := 0x00000004
  serverGuid
  maxTransactSize := maxSmb2MessageSize
  maxReadSize := maxSmb2MessageSize
  maxWriteSize := maxSmb2MessageSize
  systemTime := 0
  bootTime := 0
  securityBuffer := []
  negotiateContexts :=
    [.preauthIntegrity [0x0001] serverSalt, .encryption [0x0004, 0x0002], .signing [0x0002, 0x0000]]

structure SessionSetupResponse where
  sessionFlags : UInt16
  securityBuffer : Bytes
deriving DecidableEq

def SessionSetupResponse.newSuccess : SessionSetupResponse where
  sessionFlags := 0
  securityBuffer := []

structure TreeConnectResponse where
  shareType : UInt8
  shareFlags : UInt32
  capabilities : UInt32
  maximalAccess : UInt32
deriving DecidableEq

def TreeConnectResponse.newDisk : TreeConnectResponse where
  shareType := 0x01
  shareFlags := 0
  capabilities := 0
  maximalAccess := 0x001F01FF

structure CreateResponse where
  oplockLevel : UInt8
  flags : UInt8
  createAction : UInt32
  creationTime : UInt64
  lastAccessTime : UInt64
  lastWriteTime : UInt64
  changeTime : UInt64
  allocationSize : UInt64
  endOfFile : UInt64
  fileAttributes : UInt32
  fileId : FileId
deriving DecidableEq

def CreateResponse.new (fileId : FileId) (size : UInt64) : CreateResponse where
  oplockLevel := 0
  flags := 0
  createAction := 1
  creationTime := 0
  lastAccessTime := 0
  lastWriteTime := 0
  changeTime := 0
  allocationSize := size
  endOfFile := size
  fileAttributes := 0x80
  fileId

structure CloseResponse where
  flags : UInt16
  creationTime : UInt64
  lastAccessTime : UInt64
  lastWriteTime : UInt64
  changeTime : UInt64
  allocationSize : UInt64
  endOfFile : UInt64
  fileAttributes : UInt32
deriving DecidableEq

def CloseResponse.new : CloseResponse where
  flags := 0
  creationTime := 0
  lastAccessTime := 0
  lastWriteTime := 0
  changeTime := 0
  allocationSize := 0
  endOfFile := 0
  fileAttributes := 0

structure ReadResponse where
  data : Bytes
deriving DecidableEq

structure WriteResponse where
  count : UInt32
deriving DecidableEq

/-- What a response tells.  `done` is that of the commands that have nothing to tell, and `refused`
that of a request that was not served. -/
inductive ResponseBody where
  | negotiate (resp : NegotiateResponse)
  | sessionSetup (resp : SessionSetupResponse)
  | treeConnect (resp : TreeConnectResponse)
  | create (resp : CreateResponse)
  | close (resp : CloseResponse)
  | read (resp : ReadResponse)
  | write (resp : WriteResponse)
  | done
  | refused
deriving DecidableEq

structure Response where
  header : Smb2Header
  body : ResponseBody
deriving DecidableEq

namespace Response

def of (header : Smb2Header) (status : UInt32) (body : ResponseBody) : Response where
  header := { header.newResponse with status }
  body

def ofRead (header : Smb2Header) (resp : ReadResponse) : Response where
  header :=
    { header.newResponse with
      status := statusSuccess
      creditCharge := UInt16.ofNat (max ((resp.data.length + 65535) / 65536) 1) }
  body := .read resp

def errorResponse (header : Smb2Header) (status : UInt32) : Response :=
  of header status .refused

def Succeeded (self : Response) : Prop :=
  self.header.status = statusSuccess

instance (self : Response) : Decidable self.Succeeded :=
  inferInstanceAs (Decidable (_ = _))

theorem errorResponse_not_succeeded {header : Smb2Header} {status : UInt32}
    (h : status ≠ statusSuccess) :
  ¬ (errorResponse header status).Succeeded
  := h

end Response

end Smb
