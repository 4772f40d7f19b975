import MqProxy.Server.GatewayIntake

/-!
# What the gateway and the origin bridge exchange

The types of `mq-proxy/src/server/origin/mod.rs` that `BridgeEvents` reports, and the body of a
request as hyper polls it (`UploadBuf` and `UploadBody` of `body.rs`). The buffer is shared by the
gateway, the record of the bridge and every body that hyper holds; here it is one value that each of
them updates.
-/

namespace MqProxy.Server

open MqProxy.Http

/-! ### Reports -/

/-- `OriginProto`. -/
inductive OriginProto where
  | h1
  | h2
  deriving DecidableEq

/-- `TlsOutcome`. -/
inductive TlsOutcome where
  | ok
  | verifyFail
  | connectFail
  | na
  deriving DecidableEq

/-- `RelayHead`. -/
structure RelayHead where
  status : ℕ
  version : List UInt8
  proto : OriginProto
  headers : List Field
  contentEncoding : Option (List UInt8)
  cl : Option ℕ
  deriving DecidableEq

/-- `OriginFailure`. -/
structure OriginFailure where
  curl : ℕ
  status : ℕ
  tls : TlsOutcome
  proto : Option OriginProto
  upstreamProtocol : Bool
  startFailed : Bool
  cause : String
  deriving DecidableEq

/-- `Completion`. -/
structure Completion where
  reused : Bool
  connectMs : ℕ
  tls : TlsOutcome
  delivered : ℕ
  cl : Option ℕ
  deriving DecidableEq

/-! ### The body of a request -/

/-- `SLICE`. -/
def SLICE : ℕ := 16 * 1024

/-- `UPLOAD_CAP`. -/
def UPLOAD_CAP : ℕ := 256 * 1024

/-- `UploadBuf`. -/
structure UploadBuf where
  data : List UInt8
  fin : Bool
  wantH3 : Bool
  cl : Option ℕ
  aborted : Bool
  liveBodies : ℕ
  yielded : ℕ
  deriving DecidableEq

/-- What a poll of the body gives. -/
inductive Polled where
  | pending
  | data (bs : List UInt8)
  /-- The clean end. -/
  | last
  | aborted
  deriving DecidableEq

namespace UploadBuf

/-- `new`, with the `fin` that the gateway sets. -/
def new (cl : Option ℕ) (fin : Bool) : UploadBuf := ⟨[], fin, false, cl, false, 0, 0⟩

/-- `abort`. -/
def abort (u : UploadBuf) : UploadBuf := { u with aborted := true }

/-- The rule of `GwCore::finish` and `OriginReq::end`: an upload that is not complete is aborted. -/
def cut (u : UploadBuf) : UploadBuf := if u.fin then u else u.abort

/-- `is_end_stream`. -/
def isEndStream (u : UploadBuf) : Bool := u.fin && u.data = [] && !u.aborted

/-- `UploadBody::new`. -/
def newBody (u : UploadBuf) : UploadBuf := { u with liveBodies := u.liveBodies + 1 }

/-- `UploadBody::drop`. -/
def dropBody (u : UploadBuf) : UploadBuf := { u with liveBodies := u.liveBodies - 1 }

/-- `UploadBody::poll_frame`. -/
def pollFrame (u : UploadBuf) : UploadBuf × Polled :=
  if u.aborted then (u, .aborted)
  else if u.data = [] then
    if u.fin then (u, .last) else ({ u with wantH3 := true }, .pending)
  else
    let n := min u.data.length SLICE
    ({ u with data := u.data.drop n, yielded := u.yielded + n }, .data (u.data.take n))

end UploadBuf

end MqProxy.Server
