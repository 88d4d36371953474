import Railscale.Lib.Bytes

/-!
# Frames, errors and hooks

Model of the small traits of `train_track` that the pipeline is generic in: `atom/frame.rs` (`Frame`,
`ParsedData`), `error.rs` (`Phase`, `ErrorKind`, `RailscaleError`), `core/hook.rs`
(`ConnectionHook`) and, as an operation on frames, `core/pipeline.rs` (`FramePipeline::process`).
-/

namespace Railscale

/-- The kinds of `std::io::Error` that the code creates or passes on. -/
inductive IoErrorKind where
  | invalidData
  | unexpectedEof
  | connectionReset
  | brokenPipe
  | timedOut
  | other
  deriving DecidableEq, Repr

/-- `std::io::Error`. -/
structure IoError where
  kind : IoErrorKind
  message : String
  deriving DecidableEq, Repr

/-- Where in the life of a connection an error happened (Rust `Phase`). -/
inductive Phase where
  | accept
  | parse
  | routing
  | forward
  | relay
  deriving DecidableEq, Repr

/-- Rust `ErrorKind`. -/
inductive ErrorKind where
  | io (e : IoError)
  | parse (msg : String)
  | routingFailed (msg : String)
  | connectionClosed
  | noRoutingFrame
  | bufferLimitExceeded
  deriving DecidableEq, Repr

/-- Rust `RailscaleError`. -/
structure RailscaleError where
  kind : ErrorKind
  phase : Option Phase := none
  deriving DecidableEq, Repr

namespace RailscaleError

/-- Rust `RailscaleError::in_phase`. -/
def inPhase (e : RailscaleError) (p : Phase) : RailscaleError := { e with phase := some p }

/-- Rust `From<std::io::Error> for RailscaleError`. -/
def ofIo (e : IoError) : RailscaleError := { kind := .io e }

/-- Rust `From<ErrorKind> for RailscaleError`. -/
def ofKind (k : ErrorKind) : RailscaleError := { kind := k }

end RailscaleError

/-- A unit of a protocol (Rust `Frame`). `into_bytes` is `as_bytes` of a frame that is given away. -/
class Frame (F : Type) where
  asBytes : F → Bytes
  routingKey : F → Option Bytes

/-- What a parser emits (Rust `ParsedData`). -/
inductive ParsedData (F : Type) where
  | parsed (frame : F)
  | passthrough (bytes : Bytes)
  deriving DecidableEq

namespace ParsedData

variable {F : Type} [Frame F]

/-- The bytes of an item as they came from the transport. -/
def raw : ParsedData F → Bytes
  | .parsed f => Frame.asBytes f
  | .passthrough bs => bs

/-- The bytes of an item as they are sent on, a frame after `process`. -/
def output (process : F → F) : ParsedData F → Bytes
  | .parsed f => Frame.asBytes (process f)
  | .passthrough bs => bs

/-- The frame of an item, if it is one. -/
def frame? : ParsedData F → Option F
  | .parsed f => some f
  | .passthrough _ => none

end ParsedData

/-- An observer of the frames of one request (Rust `ConnectionHook`). -/
class ConnectionHook (H : Type) (F : outParam Type) where
  onFrame : H → F → H
  validate : H → Except RailscaleError Unit
  shouldCloseConnection : H → Bool

/-- The hook that accepts everything (Rust `NoHook`). -/
inductive NoHook (F : Type) where
  | mk

/-- Without a hook nothing is kept of the frames, nothing is refused, and the connection stays open. -/
instance {F : Type} : ConnectionHook (NoHook F) F where
  onFrame h _ := h
  validate _ := .ok ()
  shouldCloseConnection _ := false

end Railscale
