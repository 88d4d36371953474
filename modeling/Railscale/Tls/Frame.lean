import Railscale.Atom.Frame
import Railscale.Lib.Field

/-!
# TLS records

Model of `trezorcarriage/src/frame.rs`: a frame is a whole record, or a bare handshake message, and its
routing key is the host name that a ClientHello asks for. `extract_sni` walks the message with an offset;
it is cut here at its loops.
-/

namespace Railscale.Tls

open Bytes

/-- Rust `TlsRecordType`. -/
inductive TlsRecordType where
  | changeCipherSpec
  | alert
  | handshake
  | applicationData
  deriving DecidableEq, Repr

namespace TlsRecordType

/-- Rust `TlsRecordType::from_u8`. -/
def fromU8 (val : UInt8) : Option TlsRecordType :=
  match val with
  | 20 => some .changeCipherSpec
  | 21 => some .alert
  | 22 => some .handshake
  | 23 => some .applicationData
  | _ => none

/-- Rust `TlsRecordType::as_u8`. -/
def asU8 : TlsRecordType → UInt8
  | .changeCipherSpec => 20
  | .alert => 21
  | .handshake => 22
  | .applicationData => 23

/-- A type is read back from its byte. -/
@[simp] lemma fromU8_asU8 (t : TlsRecordType) : fromU8 t.asU8 = some t := by
  cases t <;> rfl

/-- A byte that is read as a type is its byte. -/
lemma asU8_of_fromU8 {b : UInt8} {t : TlsRecordType} (h : fromU8 b = some t) : b = t.asU8 := by
  unfold fromU8 at h
  split at h
  all_goals
    cases h
    try rfl

end TlsRecordType

/-- Rust `TlsEncryptedFrame`. -/
structure TlsEncryptedFrame where
  data : Bytes
  recordType : TlsRecordType
  deriving DecidableEq

namespace TlsEncryptedFrame

/-- Rust `TlsEncryptedFrame::handshake_payload`. -/
def handshakePayload (f : TlsEncryptedFrame) : Checked (Option Bytes) := do
  let d := f.data
  if d.length ≥ 6 then
    let first ← byteAt d 0
    if (TlsRecordType.fromU8 first).isSome then
      let payload ← slice d 5 d.length
      return some payload
    else return some d
  else return some d

/-- The part of `extract_sni` in front of the extensions: where they start and where they end. -/
def extensionsBlock (d : Bytes) : Checked (Option (Nat × Nat)) := do
  if d.length < 4 then return none
  let msgType ← byteAt d 0
  if msgType ≠ 1 then return none
  let len1 ← byteAt d 1
  let len2 ← byteAt d 2
  let len3 ← byteAt d 3
  let _handshakeLen := (len1.toNat <<< 16) ||| (len2.toNat <<< 8) ||| len3.toNat
  let pos := 4
  if d.length < pos + 2 + 32 then return none
  let pos := pos + (2 + 32)
  if d.length < pos + 1 then return none
  let sessionIdLen ← byteAt d pos
  let pos := pos + 1
  if d.length < pos + sessionIdLen.toNat then return none
  let pos := pos + sessionIdLen.toNat
  if d.length < pos + 2 then return none
  let cipherSuitesLen ← u16At d pos
  let pos := pos + 2
  if d.length < pos + cipherSuitesLen then return none
  let pos := pos + cipherSuitesLen
  if d.length < pos + 1 then return none
  let compressionLen ← byteAt d pos
  let pos := pos + 1
  if d.length < pos + compressionLen.toNat then return none
  let pos := pos + compressionLen.toNat
  if d.length < pos + 2 then return none
  let extensionsLen ← u16At d pos
  let pos := pos + 2
  let extensionsEnd := pos + extensionsLen
  if d.length < extensionsEnd then return none
  return some (pos, extensionsEnd)

/-- The loop over the names of a server_name extension. -/
def nameLoop (d : Bytes) (listEnd listPos : Nat) : Checked (Option Bytes) :=
  if listPos + 3 ≤ listEnd then do
    let nameType ← byteAt d listPos
    let nameLen ← u16At d (listPos + 1)
    if listPos + 3 + nameLen > listEnd then return none
    if nameType = 0 then
      let name ← slice d (listPos + 3) (listPos + 3 + nameLen)
      return some name
    nameLoop d listEnd (listPos + 3 + nameLen)
  else return none
termination_by listEnd - listPos

/-- What `extract_sni` does with the first server_name extension. -/
def serverName (d : Bytes) (pos extDataLen : Nat) : Checked (Option Bytes) := do
  if extDataLen < 2 then return none
  let listLen ← u16At d pos
  let listPos := pos + 2
  let listEnd := listPos + listLen
  if listEnd > pos + extDataLen then return none
  nameLoop d listEnd listPos

/-- The loop over the extensions. -/
def extensionLoop (d : Bytes) (extensionsEnd pos : Nat) : Checked (Option Bytes) :=
  if pos + 4 ≤ extensionsEnd then do
    let extType ← u16At d pos
    let extDataLen ← u16At d (pos + 2)
    if pos + 4 + extDataLen > extensionsEnd then return none
    if extType = 0 then serverName d (pos + 4) extDataLen
    else extensionLoop d extensionsEnd (pos + 4 + extDataLen)
  else return none
termination_by extensionsEnd - pos

/-- What `extract_sni` does with a handshake message. -/
def messageSni (d : Bytes) : Checked (Option Bytes) := do
  let some (pos, extensionsEnd) ← extensionsBlock d | return none
  extensionLoop d extensionsEnd pos

/-- Rust `TlsEncryptedFrame::extract_sni`. -/
def extractSni (f : TlsEncryptedFrame) : Checked (Option Bytes) := do
  if f.recordType ≠ .handshake then return none
  let some d ← f.handshakePayload | return none
  messageSni d

/-- A panic has no key. -/
instance : Frame TlsEncryptedFrame where
  asBytes f := f.data
  routingKey f :=
    match f.extractSni with
    | .ok key => key
    | .error _ => none

end TlsEncryptedFrame

end Railscale.Tls
