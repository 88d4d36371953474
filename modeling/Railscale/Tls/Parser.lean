import Railscale.Lib.Fill
import Railscale.Tls.Frame

/-!
# The record parser

Model of `trezorcarriage/src/parser.rs`. The stream of `TlsParser::parse` is suspended at its reads, with
the header or the payload it has so far, and emits a frame a record; after an error it ends.

`parse_splits` says what it makes of a transport, however its bytes are cut: the frames of all complete
records at the front, and an error unless these are the whole input.
-/

namespace Railscale.Tls

open AsyncStream ReadResult

/-- Rust `TLS_HEADER_LEN`. -/
abbrev tlsHeaderLen : Nat := 5

/-- Rust `TLS_MAX_PAYLOAD`. -/
abbrev tlsMaxPayload : Nat := 16384

/-- Where the stream is suspended. -/
inductive TlsPoint where
  | header (headerBuf : Bytes)
  | payload (recordType : TlsRecordType) (headerBuf : Bytes) (payloadLen : Nat) (payloadBuf : Bytes)
  | returned
  deriving DecidableEq

/-- The stream of `TlsParser::parse`. -/
structure TlsStream where
  point : TlsPoint
  reads : List (ReadResult IoError)
  deriving DecidableEq

/-- The items of the record stream. -/
abbrev TlsItem := Except IoError (ParsedData TlsEncryptedFrame)

namespace TlsStream

/-- The transport ends within a header. -/
def incompleteHeader : IoError := ⟨.unexpectedEof, "incomplete TLS header"⟩

/-- The header has an unknown type. -/
def unknownRecordType (recordTypeByte : UInt8) : IoError :=
  ⟨.invalidData, "unknown TLS record type: " ++ toString recordTypeByte.toNat⟩

/-- The header announces too long a payload. -/
def payloadTooLong (payloadLen : Nat) : IoError :=
  ⟨.invalidData, "TLS payload length " ++ toString payloadLen ++ " exceeds maximum " ++ toString tlsMaxPayload⟩

/-- The transport ends within a payload. -/
def incompletePayload : IoError := ⟨.unexpectedEof, "incomplete TLS payload"⟩

/-- An error ends the stream. -/
def fail (e : IoError) (reads : List (ReadResult IoError)) : Poll (Option TlsItem) × TlsStream :=
  (.ready (some (.error e)), ⟨.returned, reads⟩)

/-- The payload loop, and the frame of a full record. -/
def pollPayload (recordType : TlsRecordType) (headerBuf : Bytes) (payloadLen : Nat) (payloadBuf : Bytes)
    (reads : List (ReadResult IoError)) : Poll (Option TlsItem) × TlsStream :=
  match fill payloadLen payloadBuf reads with
  | .pending payloadBuf reads => (.pending, ⟨.payload recordType headerBuf payloadLen payloadBuf, reads⟩)
  | .error e reads => fail e reads
  | .eof _ reads => fail incompletePayload reads
  | .full payloadBuf reads =>
    let fullRecord := headerBuf.take tlsHeaderLen ++ payloadBuf
    (.ready (some (.ok (.parsed ⟨fullRecord, recordType⟩))), ⟨.header [], reads⟩)

/-- What is done with a full header. -/
def onHeader (headerBuf : Bytes) (reads : List (ReadResult IoError)) : Poll (Option TlsItem) × TlsStream :=
  let recordTypeByte := headerBuf.getD 0 0
  match TlsRecordType.fromU8 recordTypeByte with
  | none => fail (unknownRecordType recordTypeByte) reads
  | some recordType =>
    let payloadLen := ((headerBuf.getD 3 0).toNat <<< 8) ||| (headerBuf.getD 4 0).toNat
    if payloadLen > tlsMaxPayload then fail (payloadTooLong payloadLen) reads
    else pollPayload recordType headerBuf payloadLen [] reads

/-- The header loop. -/
def pollHeader (headerBuf : Bytes) (reads : List (ReadResult IoError)) : Poll (Option TlsItem) × TlsStream :=
  match fill tlsHeaderLen headerBuf reads with
  | .pending headerBuf reads => (.pending, ⟨.header headerBuf, reads⟩)
  | .error e reads => fail e reads
  | .eof headerBuf reads =>
    if headerBuf = [] then (.ready none, ⟨.returned, reads⟩) else fail incompleteHeader reads
  | .full headerBuf reads => onHeader headerBuf reads

/-- One poll of the stream. -/
def poll (s : TlsStream) : Poll (Option TlsItem) × TlsStream :=
  match s.point with
  | .header headerBuf => pollHeader headerBuf s.reads
  | .payload recordType headerBuf payloadLen payloadBuf =>
    pollPayload recordType headerBuf payloadLen payloadBuf s.reads
  | .returned => (.ready none, s)

/-- The stream of `TlsParser::parse` as a stream. -/
instance : AsyncStream TlsStream TlsItem := ⟨poll⟩

end TlsStream

/-- Rust `TlsParser::parse` on a transport. -/
def TlsParser.parse (reads : List (ReadResult IoError)) : TlsStream := ⟨.header [], reads⟩

/-! ## Records -/

/-- A record of the TLS record layer. -/
structure TlsRecord where
  recordType : TlsRecordType
  version : UInt8 × UInt8
  payload : Bytes
  fits : payload.length ≤ tlsMaxPayload

namespace TlsRecord

/-- The five bytes in front of the payload. -/
def header (r : TlsRecord) : Bytes :=
  r.recordType.asU8 :: r.version.1 :: r.version.2 :: Bytes.beU16 r.payload.length

/-- The bytes of a record. -/
def encode (r : TlsRecord) : Bytes := r.header ++ r.payload

/-- The frame of a record. -/
def frame (r : TlsRecord) : TlsEncryptedFrame := ⟨r.encode, r.recordType⟩

end TlsRecord

/-- What is left of an input when no complete record stands at its front, with the error it gives. -/
inductive Broken : Bytes → IoError → Prop where
  | header {rest} :
    rest ≠ [] →
    rest.length < tlsHeaderLen →
    Broken rest TlsStream.incompleteHeader
  | recordType {b0 b1 b2 b3 b4 rest} :
    TlsRecordType.fromU8 b0 = none →
    Broken (b0 :: b1 :: b2 :: b3 :: b4 :: rest) (TlsStream.unknownRecordType b0)
  | tooLong {t b1 b2 n rest} :
    tlsMaxPayload < n →
    n < 2 ^ 16 →
    Broken (TlsRecordType.asU8 t :: b1 :: b2 :: (Bytes.beU16 n ++ rest)) (TlsStream.payloadTooLong n)
  | payload {t b1 b2 n rest} :
    n ≤ tlsMaxPayload →
    rest.length < n →
    Broken (TlsRecordType.asU8 t :: b1 :: b2 :: (Bytes.beU16 n ++ rest)) TlsStream.incompletePayload

/-- The complete records at the front of an input, and the error behind them. -/
inductive Splits : Bytes → List TlsRecord → Option IoError → Prop where
  | nil :
    Splits [] [] none
  | broken {rest e} :
    Broken rest e →
    Splits rest [] (some e)
  | cons {r rest rs o} :
    Splits rest rs o →
    Splits (r.encode ++ rest) (r :: rs) o

/-! ## The records at the front of an input -/

namespace TlsRecord

/-- The length of a payload has two bytes. -/
lemma length_lt (r : TlsRecord) : r.payload.length < 2 ^ 16 := Nat.lt_of_le_of_lt r.fits (by decide)

/-- A record is its type, its version and its payload. -/
@[ext] lemma ext {r r' : TlsRecord} (recordType : r.recordType = r'.recordType) (version : r.version = r'.version)
    (payload : r.payload = r'.payload) : r = r' := by
  cases r
  cases r'
  cases recordType
  cases version
  cases payload
  rfl

/-- A record says where it ends. -/
lemma encode_append_inj {r r' : TlsRecord} {rest rest' : Bytes} (h : r.encode ++ rest = r'.encode ++ rest') :
    r = r' ∧ rest = rest' := by
  simp only [encode, header, List.append_assoc, List.cons_append] at h
  injection h with type h
  injection h with v1 h
  injection h with v2 h
  have recordType : r.recordType = r'.recordType := by
    have same := congrArg TlsRecordType.fromU8 type
    rwa [TlsRecordType.fromU8_asU8, TlsRecordType.fromU8_asU8, Option.some.injEq] at same
  obtain ⟨len, h⟩ := List.append_inj h rfl
  obtain ⟨payload, rest⟩ := List.append_inj h (Bytes.beU16_inj r.length_lt r'.length_lt len)
  exact ⟨ext recordType (Prod.ext v1 v2) payload, rest⟩

end TlsRecord

/-- A broken rest does not begin with a record. -/
lemma Broken.not_record {rest : Bytes} {e : IoError} (broken : Broken rest e) (r : TlsRecord) :
    ¬ r.encode <+: rest := by
  rintro ⟨tail, h⟩
  cases broken with
  | header _ short =>
    have len := congrArg List.length h
    simp only [TlsRecord.encode, TlsRecord.header, List.length_append, List.length_cons, Bytes.length_beU16] at len
    rw [tlsHeaderLen] at short
    omega
  | recordType unknown =>
    injection h with type h
    rw [← type, TlsRecordType.fromU8_asU8] at unknown
    cases unknown
  | tooLong long fits =>
    simp only [TlsRecord.encode, TlsRecord.header, List.append_assoc, List.cons_append] at h
    injection h with type h
    injection h with v1 h
    injection h with v2 h
    have len := Bytes.beU16_inj r.length_lt fits (List.append_inj h rfl).1
    exact absurd r.fits (by omega)
  | payload fits short =>
    simp only [TlsRecord.encode, TlsRecord.header, List.append_assoc, List.cons_append] at h
    injection h with type h
    injection h with v1 h
    injection h with v2 h
    obtain ⟨len, h⟩ := List.append_inj h rfl
    have len := Bytes.beU16_inj r.length_lt (Nat.lt_of_le_of_lt fits (by decide)) len
    rw [← h, List.length_append] at short
    omega

/-- Every input is split. -/
lemma splits_total (input : Bytes) : ∃ rs o, Splits input rs o := by
  generalize hn : input.length = n
  induction n using Nat.strongRecOn generalizing input with
  | ind n ih =>
    match input with
    | [] => exact ⟨[], none, .nil⟩
    | [_] => exact ⟨[], _, .broken (.header (List.cons_ne_nil _ _) (show 1 < 5 by decide))⟩
    | [_, _] => exact ⟨[], _, .broken (.header (List.cons_ne_nil _ _) (show 2 < 5 by decide))⟩
    | [_, _, _] => exact ⟨[], _, .broken (.header (List.cons_ne_nil _ _) (show 3 < 5 by decide))⟩
    | [_, _, _, _] => exact ⟨[], _, .broken (.header (List.cons_ne_nil _ _) (show 4 < 5 by decide))⟩
    | b0 :: b1 :: b2 :: b3 :: b4 :: rest =>
      cases type : TlsRecordType.fromU8 b0 with
      | none => exact ⟨[], _, .broken (.recordType type)⟩
      | some t =>
        obtain ⟨lt, bytes⟩ := Bytes.beU16_or b3 b4
        -- the two bytes are the encoding of the length they give
        generalize (b3.toNat <<< 8) ||| b4.toNat = len at lt bytes
        have front : b0 :: b1 :: b2 :: b3 :: b4 :: rest = t.asU8 :: b1 :: b2 :: (Bytes.beU16 len ++ rest) := by
          rw [TlsRecordType.asU8_of_fromU8 type, bytes]
          rfl
        rw [front]
        by_cases long : tlsMaxPayload < len
        · exact ⟨[], _, .broken (.tooLong long lt)⟩
        by_cases short : rest.length < len
        · exact ⟨[], _, .broken (.payload (Nat.le_of_not_lt long) short)⟩
        have take : (rest.take len).length = len := List.length_take_of_le (Nat.le_of_not_lt short)
        have less : (rest.drop len).length < n := by
          rw [← hn, List.length_drop]
          simp only [List.length_cons]
          omega
        obtain ⟨rs, o, splits⟩ := ih _ less (rest.drop len) rfl
        refine ⟨⟨t, (b1, b2), rest.take len, by omega⟩ :: rs, o, ?_⟩
        have record := Splits.cons (r := ⟨t, (b1, b2), rest.take len, by omega⟩) splits
        simp only [TlsRecord.encode, TlsRecord.header, take, List.append_assoc, List.cons_append,
          List.take_append_drop] at record
        exact record

/-- The records of a split are the front of the input, and all of it when there is no error. -/
lemma Splits.flatten {input : Bytes} {rs o} (splits : Splits input rs o) :
    ∃ rest, input = rs.flatMap TlsRecord.encode ++ rest ∧ (o = none ↔ rest = []) := by
  induction splits with
  | nil => exact ⟨[], rfl, iff_of_true rfl rfl⟩
  | @broken rest e broken =>
    refine ⟨rest, rfl, iff_of_false nofun ?_⟩
    rintro rfl
    cases broken with
    | header ne _ => exact ne rfl
  | @cons r _ _ _ _ ih =>
    obtain ⟨rest, rfl, iff⟩ := ih
    exact ⟨rest, by rw [List.flatMap_cons, List.append_assoc], iff⟩

/-- No sequence of records at the front of the input is longer. -/
lemma Splits.longest {input : Bytes} {rs o} (splits : Splits input rs o) {rs' : List TlsRecord}
    (h : rs'.flatMap TlsRecord.encode <+: input) : rs' <+: rs := by
  induction splits generalizing rs' with
  | nil =>
    cases rs' with
    | nil => exact List.nil_prefix
    | cons r' rs' => exact nomatch List.prefix_nil.1 h
  | broken broken =>
    cases rs' with
    | nil => exact List.nil_prefix
    | cons r' rs' =>
      rw [List.flatMap_cons] at h
      exact absurd ((List.prefix_append _ _).trans h) (broken.not_record r')
  | cons _ ih =>
    cases rs' with
    | nil => exact List.nil_prefix
    | cons r' rs' =>
      obtain ⟨tail, e⟩ := h
      rw [List.flatMap_cons, List.append_assoc] at e
      obtain ⟨rfl, e'⟩ := TlsRecord.encode_append_inj e
      exact List.cons_prefix_cons.2 ⟨rfl, ih ⟨tail, e'⟩⟩

/-- There is no error exactly when the input is nothing but records. -/
lemma Splits.none_iff {input : Bytes} {rs o} (splits : Splits input rs o) :
    o = none ↔ ∃ rs' : List TlsRecord, input = rs'.flatMap TlsRecord.encode := by
  obtain ⟨rest, e, iff⟩ := splits.flatten
  rw [iff]
  constructor
  · rintro rfl
    exact ⟨rs, by rw [e, List.append_nil]⟩
  · rintro ⟨rs', e'⟩
    have front : rs'.flatMap TlsRecord.encode <+: input := e' ▸ List.prefix_refl _
    obtain ⟨more, rfl⟩ := splits.longest front
    rw [e', List.flatMap_append, List.append_assoc] at e
    have nothing := List.self_eq_append_right.1 e
    exact (List.append_eq_nil_iff.1 nothing).2

/-! ## The stream -/

namespace TlsStream

/-- The items of a split. -/
def items (rs : List TlsRecord) (o : Option IoError) : List TlsItem :=
  rs.map (fun r => .ok (.parsed r.frame)) ++ o.toList.map .error

/-- A stream that has returned gives `None`. -/
lemma next_returned (reads : List (ReadResult IoError)) :
    Next (⟨.returned, reads⟩ : TlsStream) none ⟨.returned, reads⟩ :=
  .ready rfl

/-- After an error the stream ends. -/
lemma yields_error {s : TlsStream} {e reads} (n : Next s (some (.error e)) ⟨.returned, reads⟩) :
    ∃ s', Yields s (items [] (some e)) s' :=
  ⟨_, .item n (.none (next_returned reads))⟩

/-- The header loop reads the first five bytes, or all of fewer. -/
lemma next_header {reads : List (ReadResult IoError)} (proper : ProperReads reads) :
    ∃ s : TlsStream, (∀ o s', Next (⟨.header [], reads⟩ : TlsStream) o s' ↔ Next s o s') ∧
      (((all reads).length < tlsHeaderLen ∧
          s.poll = if all reads = [] then (.ready none, ⟨.returned, []⟩) else fail incompleteHeader []) ∨
        ∃ rest, tlsHeaderLen ≤ (all reads).length ∧ s.poll = onHeader ((all reads).take tlsHeaderLen) rest ∧
          all rest = (all reads).drop tlsHeaderLen ∧ ProperReads rest) := by
  have suspend : ∀ {buf reads buf' reads'}, fill tlsHeaderLen buf reads = .pending buf' reads' →
      pollNext (⟨.header buf, reads⟩ : TlsStream) = (.pending, ⟨.header buf', reads'⟩) := by
    intro buf reads buf' reads' f
    show pollHeader buf reads = _
    rw [pollHeader, f]
  obtain ⟨buf, reads', same, stop⟩ := next_fill suspend [] proper (Nat.zero_le _)
  refine ⟨⟨.header buf, reads'⟩, same, ?_⟩
  rcases stop with ⟨short, f⟩ | ⟨rest, long, f, left, proper'⟩
  · refine .inl ⟨short, ?_⟩
    show pollHeader buf reads' = _
    rw [pollHeader, f]
    rfl
  · refine .inr ⟨rest, long, ?_, left, proper'⟩
    show pollHeader buf reads' = _
    rw [pollHeader, f]
    rfl

/-- A good header leads to the payload loop. -/
lemma next_goodHeader {reads : List (ReadResult IoError)} (proper : ProperReads reads) {t b1 b2 n rest}
    (input : all reads = TlsRecordType.asU8 t :: b1 :: b2 :: (Bytes.beU16 n ++ rest)) (fits : n ≤ tlsMaxPayload) :
    ∃ reads', (∀ o s', Next (⟨.header [], reads⟩ : TlsStream) o s' ↔
        Next (⟨.payload t (t.asU8 :: b1 :: b2 :: Bytes.beU16 n) n [], reads'⟩ : TlsStream) o s') ∧
      all reads' = rest ∧ ProperReads reads' := by
  obtain ⟨s, same, stop⟩ := next_header proper
  rcases stop with ⟨short, -⟩ | ⟨reads', -, poll, left, proper'⟩
  · rw [input] at short
    simp only [List.length_cons, List.length_append, Bytes.length_beU16, tlsHeaderLen] at short
    omega
  · rw [input] at left poll
    refine ⟨reads', fun o s' => (same o s').trans (next_congr ?_), left, proper'⟩
    have lt : n < 2 ^ 16 := Nat.lt_of_le_of_lt fits (by decide)
    have header : onHeader (t.asU8 :: b1 :: b2 :: Bytes.beU16 n) reads' =
        pollPayload t (t.asU8 :: b1 :: b2 :: Bytes.beU16 n) n [] reads' := by
      simp only [onHeader, Bytes.beU16, List.getD_cons_zero, List.getD_cons_succ, TlsRecordType.fromU8_asU8,
        Bytes.or_halves lt]
      exact if_neg (Nat.not_lt.2 fits)
    exact poll.trans header

/-- The payload loop reads the payload, or all of less. -/
lemma next_payload {reads : List (ReadResult IoError)} (proper : ProperReads reads) (t : TlsRecordType)
    (headerBuf : Bytes) (n : Nat) :
    ((all reads).length < n ∧
        Next (⟨.payload t headerBuf n [], reads⟩ : TlsStream) (some (.error incompletePayload)) ⟨.returned, []⟩) ∨
      ∃ rest, n ≤ (all reads).length ∧ Next (⟨.payload t headerBuf n [], reads⟩ : TlsStream)
          (some (.ok (.parsed ⟨headerBuf.take tlsHeaderLen ++ (all reads).take n, t⟩))) ⟨.header [], rest⟩ ∧
        all rest = (all reads).drop n ∧ ProperReads rest := by
  have suspend : ∀ {buf reads buf' reads'}, fill n buf reads = .pending buf' reads' →
      pollNext (⟨.payload t headerBuf n buf, reads⟩ : TlsStream) =
        (.pending, ⟨.payload t headerBuf n buf', reads'⟩) := by
    intro buf reads buf' reads' f
    show pollPayload t headerBuf n buf reads = _
    rw [pollPayload, f]
  obtain ⟨buf, reads', same, stop⟩ := next_fill suspend [] proper (Nat.zero_le _)
  rcases stop with ⟨short, f⟩ | ⟨rest, long, f, left, proper'⟩
  · refine .inl ⟨short, (same _ _).2 (.ready ?_)⟩
    show pollPayload t headerBuf n buf reads' = _
    rw [pollPayload, f]
    rfl
  · refine .inr ⟨rest, long, (same _ _).2 (.ready ?_), left, proper'⟩
    show pollPayload t headerBuf n buf reads' = _
    rw [pollPayload, f]
    rfl

/-- A broken rest gives its error. -/
lemma yields_broken {reads : List (ReadResult IoError)} (proper : ProperReads reads) {rest e}
    (broken : Broken rest e) (input : all reads = rest) :
    ∃ s', Yields (⟨.header [], reads⟩ : TlsStream) (items [] (some e)) s' := by
  subst input
  obtain ⟨s, same, stop⟩ := next_header proper
  generalize hi : all reads = input at broken stop
  -- the header loop has the first five bytes of the rest, or all of it
  cases broken with
  | header ne short =>
    rcases stop with ⟨-, poll⟩ | ⟨_, long, -⟩
    · rw [if_neg ne] at poll
      exact yields_error ((same _ _).2 (.ready poll))
    · exact absurd short (Nat.not_lt.2 long)
  | @recordType b0 _ _ _ _ _ unknown =>
    rcases stop with ⟨short, -⟩ | ⟨reads', -, poll, -⟩
    · simp only [List.length_cons, tlsHeaderLen] at short
      omega
    · have failed : s.poll = fail (unknownRecordType b0) reads' := by
        rw [poll]
        simp only [onHeader, List.take_succ_cons, List.getD_cons_zero, unknown]
      exact yields_error ((same _ _).2 (.ready failed))
  | @tooLong t b1 b2 n rest long lt =>
    rcases stop with ⟨short, -⟩ | ⟨reads', -, poll, -⟩
    · simp only [List.length_cons, List.length_append, Bytes.length_beU16, tlsHeaderLen] at short
      omega
    · have failed : s.poll = fail (payloadTooLong n) reads' := by
        rw [poll]
        show onHeader (t.asU8 :: b1 :: b2 :: Bytes.beU16 n) reads' = _
        simp only [onHeader, Bytes.beU16, List.getD_cons_zero, List.getD_cons_succ, TlsRecordType.fromU8_asU8,
          Bytes.or_halves lt]
        exact if_pos long
      exact yields_error ((same _ _).2 (.ready failed))
  | payload fits short =>
    obtain ⟨reads', same, left, proper'⟩ := next_goodHeader proper hi fits
    rcases next_payload proper' _ _ _ with ⟨-, n⟩ | ⟨_, long, -⟩
    · exact yields_error ((same _ _).2 n)
    · rw [left] at long
      exact absurd short (Nat.not_lt.2 long)

/-- The items of the stream are those of the split of its bytes. -/
theorem yields_of_splits {input : Bytes} {rs o} (splits : Splits input rs o)
    {reads : List (ReadResult IoError)} (proper : ProperReads reads) (h : all reads = input) :
    ∃ s', Yields (⟨.header [], reads⟩ : TlsStream) (items rs o) s' := by
  induction splits generalizing reads with
  | nil =>
    obtain ⟨s, same, stop⟩ := next_header proper
    rcases stop with ⟨-, poll⟩ | ⟨_, long, -⟩
    · rw [if_pos h] at poll
      exact ⟨_, .none ((same _ _).2 (.ready poll))⟩
    · rw [h] at long
      exact absurd long (by decide)
  | broken broken => exact yields_broken proper broken h
  | @cons r rest rs o _ ih =>
    have front : all reads = r.recordType.asU8 :: r.version.1 :: r.version.2 ::
        (Bytes.beU16 r.payload.length ++ (r.payload ++ rest)) := by
      rw [h, TlsRecord.encode, TlsRecord.header, List.append_assoc]
      rfl
    obtain ⟨reads1, same, left, proper1⟩ := next_goodHeader proper front r.fits
    rcases next_payload proper1 r.recordType r.header r.payload.length with ⟨short, -⟩ | ⟨reads2, -, n, left', proper2⟩
    · rw [left, List.length_append] at short
      omega
    · rw [left, List.take_left] at n
      rw [left, List.drop_left] at left'
      obtain ⟨s', yields⟩ := ih proper2 left'
      exact ⟨s', .item ((same _ _).2 n) yields⟩

end TlsStream

/-- For every way of cutting an input: the stream of the parser yields the frames of the longest sequence
of records at the front of the input, and behind them an error unless the input is a sequence of records. -/
theorem parse_splits (reads : List (ReadResult IoError)) (proper : ∀ r ∈ reads, r.Proper) :
    ∃ (rs : List TlsRecord) (o : Option IoError),
      (∀ items, (∃ s', Yields (TlsParser.parse reads) items s') ↔
        items = rs.map (fun r => .ok (.parsed r.frame)) ++ o.toList.map .error) ∧
      rs.flatMap TlsRecord.encode <+: all reads ∧
      (∀ rs' : List TlsRecord, rs'.flatMap TlsRecord.encode <+: all reads → rs' <+: rs) ∧
      (o = none ↔ ∃ rs' : List TlsRecord, all reads = rs'.flatMap TlsRecord.encode) := by
  obtain ⟨rs, o, splits⟩ := splits_total (all reads)
  obtain ⟨s', yields⟩ := TlsStream.yields_of_splits splits proper rfl
  obtain ⟨rest, front, -⟩ := splits.flatten
  refine ⟨rs, o, fun items => ?_, ⟨rest, front.symm⟩, fun _ h => splits.longest h, splits.none_iff⟩
  constructor
  · rintro ⟨s1, yields1⟩
    exact (yields1.unique yields).1
  · rintro rfl
    exact ⟨s', yields⟩

/-- A record in three reads, and a byte of the next one. -/
theorem parse_splits_cut :
    ∃ (rs : List TlsRecord) (o : Option IoError),
      (∀ items, (∃ s', Yields (TlsParser.parse [.data [22, 3], .pending, .data [3, 0, 1], .data [7, 23]]) items s') ↔
        items = rs.map (fun r => .ok (.parsed r.frame)) ++ o.toList.map .error) ∧
      rs.flatMap TlsRecord.encode <+: [22, 3, 3, 0, 1, 7, 23] ∧
      (∀ rs' : List TlsRecord, rs'.flatMap TlsRecord.encode <+: [22, 3, 3, 0, 1, 7, 23] → rs' <+: rs) ∧
      (o = none ↔ ∃ rs' : List TlsRecord, [22, 3, 3, 0, 1, 7, 23] = rs'.flatMap TlsRecord.encode) :=
  parse_splits [.data [22, 3], .pending, .data [3, 0, 1], .data [7, 23]] (by decide)

end Railscale.Tls
