import Railscale.Lib.Record
import Mathlib.Data.Nat.Digits.Defs

/-!
# Capture files

Model of `train_track/src/capture/format.rs`: the blocks of a pcapng file, as the bytes that are written. A reader
that knows the file format and nothing of the writer gives back what was captured (`readFile_captureFile`): it walks
from block to block by their lengths, checks that both lengths of a block agree, and takes the packets apart.
-/

namespace Railscale

namespace Capture

open Bytes

/-! ## Writing -/

/-- Rust `Direction`. -/
inductive Direction where
  | request
  | response
  deriving DecidableEq, Repr

/-- The name of a direction in a capture. -/
def Direction.str : Direction → Bytes
  | .request => lit "req"
  | .response => lit "resp"

/-- The decimal digits of a number (Rust `Display`). -/
def decimal (n : Nat) : Bytes := (Nat.toDigits 10 n).map fun c => UInt8.ofNat c.toNat

/-- Rust `write_shb`. The length of the section is `-1`. -/
def writeShb : Bytes :=
  leBytes 4 0x0A0D0D0A ++ leBytes 4 28 ++ leBytes 4 0x1A2B3C4D ++ leBytes 2 1 ++ leBytes 2 0 ++
    leBytes 8 (2 ^ 64 - 1) ++ leBytes 4 28

/-- Rust `write_idb`. -/
def writeIdb : Bytes :=
  leBytes 4 0x00000001 ++ leBytes 4 20 ++ leBytes 2 147 ++ leBytes 2 0 ++ leBytes 4 0 ++ leBytes 4 20

/-- The comment of a packet. -/
def comment (direction : Bytes) (connectionId : UInt64) : Bytes :=
  direction ++ lit " conn=" ++ decimal connectionId.toNat

/-- The length of the options of a packet. -/
def optionsLength (comment : Bytes) : Nat := 4 + (comment.length + padding comment.length) + 4

/-- The length of the block of a packet, before it is cut to 32 bits. -/
def epbLength (data comment : Bytes) : Nat := 32 + (data.length + padding data.length) + optionsLength comment

/-- Rust `write_epb`. -/
def writeEpb (interfaceId : UInt32) (timestampUs : UInt64) (data direction : Bytes) (connectionId : UInt64) : Bytes :=
  let tsHigh := (timestampUs >>> 32).toNat % 2 ^ 32
  let tsLow := (timestampUs &&& 0xFFFFFFFF).toNat % 2 ^ 32
  let capturedLen := data.length % 2 ^ 32
  let comment := comment direction connectionId
  let totalLength := epbLength data comment % 2 ^ 32
  leBytes 4 0x00000006 ++ leBytes 4 totalLength ++ leBytes 4 interfaceId.toNat ++ leBytes 4 tsHigh ++
    leBytes 4 tsLow ++ leBytes 4 capturedLen ++ leBytes 4 capturedLen ++
    data ++ List.replicate (padding data.length) 0 ++
    leBytes 2 1 ++ leBytes 2 (comment.length % 2 ^ 16) ++ comment ++ List.replicate (padding comment.length) 0 ++
    leBytes 2 0 ++ leBytes 2 0 ++
    leBytes 4 totalLength

/-- What is captured, and when. -/
structure Event where
  direction : Direction
  data : Bytes
  connectionId : UInt64
  timestampUs : UInt64

namespace Event

/-- The comment that names the direction and the connection. -/
def comment (e : Event) : Bytes := Capture.comment e.direction.str e.connectionId

/-- The block of an event fits 32 bits. -/
def Fits (e : Event) : Prop := epbLength e.data e.comment < 2 ^ 32

/-- The block of an event. -/
def write (e : Event) : Bytes := writeEpb 0 e.timestampUs e.data e.direction.str e.connectionId

end Event

/-- The bytes of a capture file. -/
def captureFile (events : List Event) : Bytes := writeShb ++ writeIdb ++ events.flatMap Event.write

/-! ## Reading -/

/-- A block: its type, its length and what is between its lengths. -/
structure Block where
  blockType : Nat
  totalLength : Nat
  body : Bytes

/-- The next block. The two lengths have to agree, and to be a multiple of four. -/
def readBlock : Reader Block := fun d => do
  let (blockType, d) ← takeLe 4 d
  let (totalLength, d) ← takeLe 4 d
  guard (12 ≤ totalLength ∧ totalLength % 4 = 0)
  let (body, d) ← takeExact (totalLength - 12) d
  let (trailing, d) ← takeLe 4 d
  guard (trailing = totalLength)
  return (⟨blockType, totalLength, body⟩, d)

/-- An option of a block: its code and its value. -/
structure BlockOption where
  code : Nat
  value : Bytes

/-- The next option. -/
def readOption : Reader BlockOption := fun d => do
  let (code, d) ← takeLe 2 d
  let (length, d) ← takeLe 2 d
  let (value, d) ← takeExact length d
  let (_, d) ← takeExact (padding length) d
  return (⟨code, value⟩, d)

/-- A packet. -/
structure Packet where
  timestampUs : Nat
  data : Bytes
  comment : Bytes
  deriving DecidableEq

/-- The packet of an enhanced packet block with a comment. -/
def readPacket (b : Block) : Option Packet := do
  guard (b.blockType = 6)
  let (_, d) ← takeLe 4 b.body
  let (tsHigh, d) ← takeLe 4 d
  let (tsLow, d) ← takeLe 4 d
  let (capturedLen, d) ← takeLe 4 d
  let (_, d) ← takeLe 4 d
  let (data, d) ← takeExact capturedLen d
  let (_, d) ← takeExact (padding capturedLen) d
  let options ← readAll readOption d
  match options with
  | [⟨1, comment⟩, ⟨0, []⟩] => some ⟨tsHigh * 2 ^ 32 + tsLow, data, comment⟩
  | _ => none

/-- The packets of a file with one section and one interface. -/
def readFile (d : Bytes) : Option (List Packet) := do
  let blocks ← readAll readBlock d
  match blocks with
  | section' :: interface :: packets =>
    guard (section'.blockType = 0x0A0D0D0A ∧ leNat (section'.body.take 4) = 0x1A2B3C4D)
    guard (interface.blockType = 1)
    packets.mapM readPacket
  | _ => none

/-- The number of decimal digits. -/
def decimalNat (bs : Bytes) : Nat := Nat.ofDigitChars 10 (bs.map fun b => Char.ofNat b.toNat) 0

/-- The direction and the connection that a comment names. -/
def readComment (comment : Bytes) : Option (Direction × Nat) :=
  if lit "req conn=" <+: comment then some (.request, decimalNat (comment.drop 9))
  else if lit "resp conn=" <+: comment then some (.response, decimalNat (comment.drop 10))
  else none

/-! ## Comments -/

/-- The digits of a number are read back. -/
lemma decimalNat_decimal (n : Nat) : decimalNat (decimal n) = n := by
  have back : (decimal n).map (fun b => Char.ofNat b.toNat) = Nat.toDigits 10 n := by
    rw [decimal, List.map_map]
    refine (List.map_congr_left fun c mem => ?_).trans (List.map_id _)
    have digit : c.isDigit = true := Nat.isDigit_of_mem_toDigits (by decide) (by decide) mem
    have small : c.toNat < 256 := by
      rw [Char.isDigit, Bool.and_eq_true, decide_eq_true_eq, decide_eq_true_eq] at digit
      exact Nat.lt_of_le_of_lt (UInt32.le_iff_toNat_le.1 digit.2) (by decide)
    show Char.ofNat (UInt8.ofNat c.toNat).toNat = c
    rw [UInt8.toNat_ofNat', Nat.mod_eq_of_lt small, Char.ofNat_toNat]
  rw [decimalNat, back]
  exact Nat.ofDigitChars_ten_toDigits

/-- A connection id has at most twenty digits. -/
lemma length_decimal (id : UInt64) : (decimal id.toNat).length ≤ 20 := by
  rw [decimal, List.length_map]
  refine Nat.toDigits_length 10 _ 20 (by decide) ?_
  exact Nat.lt_of_lt_of_le id.toNat_lt (by decide)

namespace Event

variable (e : Event)

/-- The comment in its parts. -/
lemma comment_eq : e.comment = e.direction.str ++ lit " conn=" ++ decimal e.connectionId.toNat := rfl

/-- A comment is short. -/
lemma length_comment : e.comment.length < 2 ^ 16 := by
  have digits := length_decimal e.connectionId
  have name : e.direction.str.length ≤ 4 := by
    cases e.direction with
    | request => decide
    | response => decide
  rw [comment_eq, List.length_append, List.length_append]
  have conn : (lit " conn=").length = 6 := by decide
  omega

/-- A comment names its direction and its connection. -/
theorem readComment_comment : readComment e.comment = some (e.direction, e.connectionId.toNat) := by
  rw [comment_eq]
  cases e.direction with
  | request =>
    have front : Direction.request.str ++ lit " conn=" = lit "req conn=" := by decide
    rw [front, readComment, if_pos (List.prefix_append _ _)]
    rw [List.drop_left' (by decide), decimalNat_decimal]
  | response =>
    have front : Direction.response.str ++ lit " conn=" = lit "resp conn=" := by decide
    have other : ¬ lit "req conn=" <+: lit "resp conn=" ++ decimal e.connectionId.toNat := by
      rintro ⟨rest, whole⟩
      have third : some (113 : UInt8) = some 115 := congrArg (·[2]?) whole
      exact absurd third (by decide)
    rw [front, readComment, if_neg other, if_pos (List.prefix_append _ _)]
    rw [List.drop_left' (by decide), decimalNat_decimal]

end Event

/-! ## Blocks -/

/-- The bytes of a block. -/
def blockBytes (blockType : Nat) (body : Bytes) : Bytes :=
  leBytes 4 blockType ++ (leBytes 4 (body.length + 12) ++ (body ++ leBytes 4 (body.length + 12)))

/-- A block is twelve bytes longer than its body. -/
lemma length_blockBytes (blockType : Nat) (body : Bytes) :
    (blockBytes blockType body).length = body.length + 12 := by
  simp only [blockBytes, List.length_append, length_leBytes]
  omega

/-- The lengths of a block. -/
structure Sized (block : Bytes) : Prop where
  leading : leNat ((block.drop 4).take 4) = block.length
  trailing : leNat (block.drop (block.length - 4)) = block.length
  aligned : 4 ∣ block.length

section blocks

variable {blockType : Nat} {body : Bytes}

/-- A block has the size that its header says. -/
lemma sized_blockBytes (aligned : 4 ∣ body.length) (fits : body.length + 12 < 2 ^ 32) :
    Sized (blockBytes blockType body) := by
  have front : (leBytes 4 blockType ++ leBytes 4 (body.length + 12) ++ body).length = body.length + 12 - 4 := by
    simp only [List.length_append, length_leBytes]
    omega
  refine ⟨?_, ?_, ?_⟩
  · rw [length_blockBytes, blockBytes, List.drop_left' (length_leBytes 4 _), List.take_left' (length_leBytes 4 _),
      leNat_leBytes 4 fits]
  · have whole : blockBytes blockType body =
        leBytes 4 blockType ++ leBytes 4 (body.length + 12) ++ body ++ leBytes 4 (body.length + 12) := by
      simp only [blockBytes, List.append_assoc]
    rw [length_blockBytes, whole, List.drop_left' front, leNat_leBytes 4 fits]
  · rw [length_blockBytes]
    exact Nat.dvd_add aligned (by decide)

/-- A block is read back. -/
lemma reads_blockBytes (type : blockType < 2 ^ 32) (aligned : 4 ∣ body.length) (fits : body.length + 12 < 2 ^ 32) :
    Reads readBlock (blockBytes blockType body) ⟨blockType, body.length + 12, body⟩ := by
  refine ⟨fun rest => ?_, ?_⟩
  · have checked : 12 ≤ body.length + 12 ∧ (body.length + 12) % 4 = 0 := by omega
    simp only [readBlock, blockBytes, List.append_assoc, Option.bind_eq_bind, Option.bind_some, takeLe_append 4 type,
      takeLe_append 4 fits, guard, if_pos checked, Option.pure_def, Nat.add_sub_cancel, takeExact_append rfl, if_true]
  · rw [← List.length_pos_iff, length_blockBytes]
    exact Nat.succ_pos _

end blocks

/-! ## Options -/

/-- The bytes of an option. -/
def optionBytes (o : BlockOption) : Bytes :=
  leBytes 2 o.code ++ (leBytes 2 o.value.length ++ (o.value ++ List.replicate (padding o.value.length) 0))

/-- An option has its header, its value and the padding. -/
lemma length_optionBytes (o : BlockOption) :
    (optionBytes o).length = 4 + (o.value.length + padding o.value.length) := by
  simp only [optionBytes, List.length_append, length_leBytes, List.length_replicate]
  omega

/-- An option is read back. -/
lemma reads_optionBytes {o : BlockOption} (code : o.code < 2 ^ 16) (fits : o.value.length < 2 ^ 16) :
    Reads readOption (optionBytes o) o := by
  refine ⟨fun rest => ?_, ?_⟩
  · simp only [readOption, optionBytes, List.append_assoc, Option.bind_eq_bind, Option.bind_some, takeLe_append 2 code,
      takeLe_append 2 fits, takeExact_append rfl, takeExact_append List.length_replicate, Option.pure_def]
  · rw [← List.length_pos_iff, length_optionBytes]
    exact Nat.lt_of_lt_of_le (by decide) (Nat.le_add_right 4 _)

/-! ## Packets -/

/-- The fields of a packet are read back. -/
lemma readPacket_fields {id high low total : Nat} {data comment options : Bytes} (hid : id < 256 ^ 4)
    (hhigh : high < 256 ^ 4) (hlow : low < 256 ^ 4) (hdata : data.length < 256 ^ 4)
    (hoptions : readAll readOption options = some [⟨1, comment⟩, ⟨0, []⟩]) :
    readPacket ⟨6, total, leBytes 4 id ++ (leBytes 4 high ++ (leBytes 4 low ++ (leBytes 4 data.length ++
      (leBytes 4 data.length ++ (data ++ (List.replicate (padding data.length) 0 ++ options))))))⟩ =
      some ⟨high * 2 ^ 32 + low, data, comment⟩ := by
  rw [readPacket, guard, if_pos rfl, pure_bind]
  refine (takeLe_bind 4 hid _ _).trans ?_
  refine (takeLe_bind 4 hhigh _ _).trans ?_
  refine (takeLe_bind 4 hlow _ _).trans ?_
  refine (takeLe_bind 4 hdata _ _).trans ?_
  refine (takeLe_bind 4 hdata _ _).trans ?_
  refine (takeExact_bind rfl _ _).trans ?_
  refine (takeExact_bind List.length_replicate _ _).trans ?_
  dsimp only
  rw [hoptions]
  rfl

namespace Event

variable (e : Event)

/-- The options of the packet: its comment and the end. -/
def options : List BlockOption := [⟨1, e.comment⟩, ⟨0, []⟩]

/-- What stands between the lengths of the block. -/
def body : Bytes :=
  leBytes 4 0 ++ (leBytes 4 (e.timestampUs.toNat / 2 ^ 32) ++ (leBytes 4 (e.timestampUs.toNat % 2 ^ 32) ++
    (leBytes 4 e.data.length ++ (leBytes 4 e.data.length ++
      (e.data ++ (List.replicate (padding e.data.length) 0 ++ e.options.flatMap optionBytes))))))

/-- The packet that is read. -/
def packet : Packet := ⟨e.timestampUs.toNat, e.data, e.comment⟩

/-- The body of a packet block with the rest of the block has the length that the code computes. -/
lemma length_body : e.body.length + 12 = epbLength e.data e.comment := by
  simp only [body, options, List.flatMap_cons, List.flatMap_nil, List.length_append, length_leBytes,
    List.length_replicate, length_optionBytes, List.length_nil, epbLength, optionsLength, padding]
  omega

/-- It is a multiple of four. -/
lemma dvd_body : 4 ∣ e.body.length := by
  have data := dvd_padding e.data.length
  have options := dvd_padding e.comment.length
  have length := e.length_body
  rw [epbLength, optionsLength] at length
  omega

variable {e}

/-- The data of a block that fits is short. -/
lemma Fits.length_data (fits : e.Fits) : e.data.length < 2 ^ 32 := by
  refine Nat.lt_of_le_of_lt ?_ fits
  rw [epbLength]
  omega

/-- A block that fits is a block with this body. -/
lemma write_eq (fits : e.Fits) : e.write = blockBytes 6 e.body := by
  have high : (e.timestampUs >>> 32).toNat % 2 ^ 32 = e.timestampUs.toNat / 2 ^ 32 := by
    rw [UInt64.toNat_shiftRight]
    refine (congrArg (· % 2 ^ 32) (Nat.shiftRight_eq_div_pow _ 32)).trans (Nat.mod_eq_of_lt ?_)
    exact Nat.div_lt_of_lt_mul e.timestampUs.toNat_lt
  have low : (e.timestampUs &&& 0xFFFFFFFF).toNat % 2 ^ 32 = e.timestampUs.toNat % 2 ^ 32 := by
    rw [UInt64.toNat_and]
    refine (congrArg (· % 2 ^ 32) (Nat.and_two_pow_sub_one_eq_mod _ 32)).trans ?_
    exact Nat.mod_mod _ _
  have total : epbLength e.data e.comment % 2 ^ 32 = e.body.length + 12 := by
    rw [length_body]
    exact Nat.mod_eq_of_lt fits
  have data : e.data.length % 2 ^ 32 = e.data.length := Nat.mod_eq_of_lt fits.length_data
  have comment : e.comment.length % 2 ^ 16 = e.comment.length := Nat.mod_eq_of_lt e.length_comment
  have same : Capture.comment e.direction.str e.connectionId = e.comment := rfl
  rw [write, writeEpb, high, low, same, total, data, comment]
  simp [blockBytes, body, options, optionBytes, padding]

/-- The packet is read back. -/
lemma readPacket_body (fits : e.Fits) : readPacket ⟨6, e.body.length + 12, e.body⟩ = some e.packet := by
  have interface : 0 < 256 ^ 4 := by decide
  have high : e.timestampUs.toNat / 2 ^ 32 < 256 ^ 4 := Nat.div_lt_of_lt_mul e.timestampUs.toNat_lt
  have low : e.timestampUs.toNat % 2 ^ 32 < 256 ^ 4 := Nat.mod_lt _ (by decide)
  have data : e.data.length < 256 ^ 4 := fits.length_data
  have options : readAll readOption (e.options.flatMap optionBytes) = some e.options := by
    refine (readAll_flatMap (f := id) fun o mem => ?_).trans (congrArg some (List.map_id _))
    rcases List.mem_pair.1 mem with rfl | rfl
    · exact reads_optionBytes (Nat.lt_two_pow_self.trans_le (by decide : 2 ^ 1 ≤ 2 ^ 16)) e.length_comment
    · exact reads_optionBytes (by decide) (by decide)
  have whole : e.timestampUs.toNat / 2 ^ 32 * 2 ^ 32 + e.timestampUs.toNat % 2 ^ 32 = e.timestampUs.toNat :=
    Nat.div_add_mod' _ _
  refine (readPacket_fields interface high low data options).trans ?_
  rw [whole]
  rfl

end Event

/-! ## Files -/

/-- What stands between the lengths of the section header. -/
def shbBody : Bytes := leBytes 4 0x1A2B3C4D ++ (leBytes 2 1 ++ (leBytes 2 0 ++ leBytes 8 (2 ^ 64 - 1)))

/-- What stands between the lengths of the interface description. -/
def idbBody : Bytes := leBytes 2 147 ++ (leBytes 2 0 ++ leBytes 4 0)

/-- The section header is a block. -/
lemma writeShb_eq : writeShb = blockBytes 0x0A0D0D0A shbBody := by decide

/-- The interface description is a block. -/
lemma writeIdb_eq : writeIdb = blockBytes 1 idbBody := by decide

/-- The types and the bodies of the blocks of a file. -/
def blocks (events : List Event) : List (Nat × Bytes) :=
  (0x0A0D0D0A, shbBody) :: (1, idbBody) :: events.map fun e => (6, e.body)

/-- The blocks as they are written. -/
def writtenBlocks (events : List Event) : List Bytes := writeShb :: writeIdb :: events.map Event.write

/-- A body that makes a block. -/
structure Fitting (block : Nat × Bytes) : Prop where
  blockType : block.1 < 2 ^ 32
  aligned : 4 ∣ block.2.length
  fits : block.2.length + 12 < 2 ^ 32

section files

variable {events : List Event}

/-- All blocks of a file fit if its events do. -/
lemma fitting_blocks (fits : ∀ e ∈ events, e.Fits) : ∀ block ∈ blocks events, Fitting block := by
  refine List.forall_mem_cons.2 ⟨?_, List.forall_mem_cons.2 ⟨?_, fun block mem => ?_⟩⟩
  · exact ⟨by decide, by decide, by decide⟩
  · exact ⟨by decide, by decide, by decide⟩
  · obtain ⟨e, here, rfl⟩ := List.mem_map.1 mem
    have type : 6 < 2 ^ 32 := by decide
    have length : e.body.length + 12 < 2 ^ 32 := by
      rw [e.length_body]
      exact fits e here
    exact ⟨type, e.dvd_body, length⟩

/-- What is written are these blocks. -/
lemma writtenBlocks_eq (fits : ∀ e ∈ events, e.Fits) :
    writtenBlocks events = (blocks events).map fun block => blockBytes block.1 block.2 := by
  have packets : events.map Event.write = (events.map fun e => (6, e.body)).map fun block =>
      blockBytes block.1 block.2 := by
    rw [List.map_map]
    exact List.map_congr_left fun e mem => Event.write_eq (fits e mem)
  rw [writtenBlocks, packets, writeShb_eq, writeIdb_eq]
  rfl

/-- The blocks of a file make up the file. -/
lemma flatten_writtenBlocks (events : List Event) : (writtenBlocks events).flatten = captureFile events := by
  rw [writtenBlocks, captureFile, List.flatten_cons, List.flatten_cons, List.append_assoc, List.flatMap_def]

/-- The blocks of a file are read back. -/
lemma readAll_captureFile (fits : ∀ e ∈ events, e.Fits) :
    readAll readBlock (captureFile events) =
      some ((blocks events).map fun block => ⟨block.1, block.2.length + 12, block.2⟩) := by
  rw [← flatten_writtenBlocks, writtenBlocks_eq fits, ← List.flatMap_def]
  refine readAll_flatMap fun block mem => ?_
  obtain ⟨type, aligned, length⟩ := fitting_blocks fits block mem
  exact reads_blockBytes type aligned length

/-- A file gives back its packets. -/
lemma readFile_packets (fits : ∀ e ∈ events, e.Fits) :
    readFile (captureFile events) = some (events.map Event.packet) := by
  have packets := mapM_map fun e mem => Event.readPacket_body (fits e mem)
  have magic : leNat (shbBody.take 4) = 0x1A2B3C4D := by decide
  rw [readFile, readAll_captureFile fits]
  simp only [blocks, List.map_cons, List.map_map, Option.bind_eq_bind, Option.bind_some, magic, guard, and_self,
    if_true, Option.pure_def]
  exact packets

/-- Every block of a file has its length at both ends, and the file gives back the packets in order, with the comments
that name their direction and connection. -/
theorem readFile_captureFile (fits : ∀ e ∈ events, e.Fits) :
    (∀ block ∈ writtenBlocks events, Sized block) ∧ (writtenBlocks events).flatten = captureFile events ∧
      readFile (captureFile events) = some (events.map Event.packet) ∧
      ∀ e ∈ events, readComment e.packet.comment = some (e.direction, e.connectionId.toNat) := by
  refine ⟨fun block mem => ?_, flatten_writtenBlocks events, readFile_packets fits, fun e _ => e.readComment_comment⟩
  rw [writtenBlocks_eq fits] at mem
  obtain ⟨⟨type, body⟩, here, rfl⟩ := List.mem_map.1 mem
  have fitting := fitting_blocks fits _ here
  exact sized_blockBytes fitting.aligned fitting.fits

/-- A request and an empty response. -/
def sampleEvents : List Event :=
  [⟨.request, lit "GET / HTTP/1.1\r\n\r\n", 42, 1000⟩, ⟨.response, [], 0, 0xFFFFFFFFFFFFFFFF⟩]

/-- They are read back. -/
theorem readFile_captureFile_sample :
    (∀ e ∈ sampleEvents, e.Fits) ∧
      readFile (captureFile sampleEvents) =
        some [⟨1000, lit "GET / HTTP/1.1\r\n\r\n", lit "req conn=42"⟩, ⟨2 ^ 64 - 1, [], lit "resp conn=0"⟩] := by
  have fits : ∀ e ∈ sampleEvents, e.Fits := by
    refine List.forall_mem_cons.2 ⟨?_, List.forall_mem_singleton.2 ?_⟩
    · show epbLength _ _ < 2 ^ 32
      decide
    · show epbLength _ _ < 2 ^ 32
      decide
  refine ⟨fits, (readFile_captureFile fits).2.2.1.trans (congrArg some ?_)⟩
  decide

end files

end Capture

end Railscale
