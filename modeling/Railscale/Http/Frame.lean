import Railscale.Atom.Frame

/-!
# HTTP frames

Model of `carriage/src/http/frame.rs`: the phases of a message head and the frames the HTTP codecs
emit. Only a request line carries a routing key, which is the whole line.
-/

namespace Railscale.Http

/-- Rust `HttpPhase`. -/
inductive HttpPhase where
  | requestLine
  | statusLine
  | header
  | endOfHeaders
  | body
  | trailer
  deriving DecidableEq, Repr

/-- Rust `HttpFrame`. -/
structure HttpFrame where
  data : Bytes
  phase : HttpPhase
  routing : Bool
  deriving DecidableEq, Repr

namespace HttpFrame

/-- Rust `HttpFrame::request_line`. -/
def requestLine (data : Bytes) : HttpFrame := ⟨data, .requestLine, true⟩

/-- Rust `HttpFrame::header`. -/
def header (data : Bytes) : HttpFrame := ⟨data, .header, false⟩

/-- Rust `HttpFrame::end_of_headers`. -/
def endOfHeaders : HttpFrame := ⟨Bytes.crlf, .endOfHeaders, false⟩

/-- Rust `HttpFrame::body`. -/
def body (data : Bytes) : HttpFrame := ⟨data, .body, false⟩

/-- Rust `HttpFrame::trailer`. -/
def trailer (data : Bytes) : HttpFrame := ⟨data, .trailer, false⟩

/-- Rust `HttpFrame::status_line`. -/
def statusLine (data : Bytes) : HttpFrame := ⟨data, .statusLine, false⟩

/-- Rust `HttpFrame::is_end_of_headers`. -/
def isEndOfHeaders (f : HttpFrame) : Bool := f.phase == .endOfHeaders

/-- Rust `impl Frame for HttpFrame`. -/
instance : Frame HttpFrame where
  asBytes f := f.data
  routingKey f := if f.routing then some f.data else none

end HttpFrame

end Railscale.Http
