import Railscale.Http.ResponseRelay

/-!
# The end of a well-formed response

`ResponseCodec` on a response whose body is encoded in the framing that the codec derives from its head:
a body of the declared length, or chunks with sizes that fit a `usize`. The codec emits the frames of the
head and the body, and is complete with whatever follows the response left unread.
-/

namespace Railscale.Http

open Bytes

/-- A size line that the codec can read: text, with a size that fits a `usize`. -/
structure UsizeLine (l : Bytes) (n : Nat) : Prop where
  sizeLine : SizeLine l n
  text : (Str.fromUtf8 l).isSome
  fits : n < Str.usizeBound

/-- A chunked body with such size lines. -/
inductive UsizeChunks : Bytes → Prop where
  | last {l t} :
    UsizeLine l 0 →
    Trailer t →
    UsizeChunks (l ++ crlf ++ t)
  | chunk {l n d t} :
    UsizeLine l n →
    0 < n →
    d.length = n →
    UsizeChunks t →
    UsizeChunks (l ++ crlf ++ d ++ crlf ++ t)

/-- The bodies that are encoded in a framing with an end. -/
inductive Encoded : BodyFramingMode → Bytes → Prop where
  | fixed {n body} :
    body.length = n →
    Encoded (.fixed n) body
  | chunked {body} :
    UsizeChunks body →
    Encoded .chunked body

/-! ## Size lines -/

/-- The text before the first separator. -/
lemma headD_splitOn {s t : Str} {c : Nat} (hs : c ∉ s) (ht : t = [] ∨ t.head? = some c) :
    ((s ++ t).splitOn c).headD (s ++ t) = s := by
  have front : ∀ x ∈ s, (x == c) = false := by
    intro x hx
    rw [beq_eq_false_iff_ne]
    rintro rfl
    exact hs hx
  cases t with
  | nil =>
    rw [List.append_nil, List.splitOn_eq_splitOnP, List.splitOnP_eq_singleton front]
    rfl
  | cons y t =>
    obtain rfl : y = c := Option.some.inj (ht.resolve_left (List.cons_ne_nil y t))
    rw [List.splitOn_eq_splitOnP,
      List.splitOnP_append_cons_of_forall_mem front y (beq_self_eq_true y)]
    rfl

/-- The hexadecimal digits as characters. -/
lemma toDigit_hex {c : Nat} (h : (Str.toDigit 16 c).isSome) :
    48 ≤ c ∧ c ≤ 57 ∨ 97 ≤ c ∧ c ≤ 102 ∨ 65 ≤ c ∧ c ≤ 70 := by
  simp only [Str.toDigit, Bool.and_eq_true, decide_eq_true_eq, Option.isSome_ite] at h
  split at h
  · omega
  · split at h
    · omega
    · split at h
      · omega
      · omega

/-- A byte that does not occur does not occur as a character. -/
lemma notMem_of_ascii {bs : Bytes} {c : UInt8} (h : c ∉ bs) : c.toNat ∉ bs.map UInt8.toNat := by
  intro mem
  obtain ⟨b, hb, e⟩ := List.mem_map.1 mem
  exact h (UInt8.toNat_inj.1 e ▸ hb)

/-- A hexadecimal digit is an ASCII byte, and neither white space nor the mark of an extension. -/
lemma isHexDigit_cases {b : UInt8} (h : isHexDigit b = true) :
    b < 0x80 ∧ Str.isWhitespace b.toNat = false ∧ b ≠ 59 := by
  have range := toDigit_hex h
  refine ⟨?_, ?_, ?_⟩
  · rw [UInt8.lt_iff_toNat_lt]
    show b.toNat < 128
    omega
  · simp only [Str.isWhitespace, Bool.or_eq_false_iff, Bool.and_eq_false_iff, decide_eq_false_iff_not,
      beq_eq_false_iff_ne]
    omega
  · rintro rfl
    revert range
    decide

/-- Optional white space is ASCII, white space in text, and no semicolon. -/
lemma isOws_cases {b : UInt8} (h : isOws b = true) :
    b < 0x80 ∧ Str.isWhitespace b.toNat = true ∧ b ≠ 59 := by
  rw [isOws, Bool.or_eq_true, beq_iff_eq, beq_iff_eq] at h
  rcases h with rfl | rfl
  · decide
  · decide

/-- The codec looks at the digits of a size line only. -/
lemma chunkSize_digits {digits ws e : Bytes} (hex : ∀ b ∈ digits, isHexDigit b = true)
    (white : ∀ b ∈ ws, isOws b = true) (ext : e = [] ∧ ws = [] ∨ e.head? = some 59)
    (text : (Str.fromUtf8 (digits ++ ws ++ e)).isSome) :
    ResponseCodec.chunkSize (digits ++ ws ++ e) =
      match Str.fromStrRadix 16 (digits.map UInt8.toNat) with
      | none => .error "invalid chunk size hex"
      | some size => .ok size := by
  have ascii : ∀ b ∈ digits ++ ws, b < 0x80 := by
    intro b hb
    rcases List.mem_append.1 hb with hb | hb
    · exact (isHexDigit_cases (hex b hb)).1
    · exact (isOws_cases (white b hb)).1
  have noMark : (59 : UInt8) ∉ digits ++ ws := by
    intro hb
    rcases List.mem_append.1 hb with hb | hb
    · exact (isHexDigit_cases (hex 59 hb)).2.2 rfl
    · exact (isOws_cases (white 59 hb)).2.2 rfl
  obtain ⟨s, hs⟩ := Option.isSome_iff_exists.1 text
  rw [Str.fromUtf8_ascii ascii] at hs
  obtain ⟨t, ht, rfl⟩ := Option.map_eq_some_iff.1 hs
  -- the extension is arbitrary text, of which only its first character matters
  have mark : t = [] ∨ t.head? = some 59 := by
    rcases ext with ⟨rfl, -⟩ | ext
    · cases ht
      exact .inl rfl
    · cases e with
      | nil => cases ext
      | cons b e =>
        obtain rfl : b = 59 := Option.some.inj ext
        rw [← List.singleton_append, Str.fromUtf8_ascii (fun b hb => List.mem_singleton.1 hb ▸ by decide)] at ht
        obtain ⟨t, -, rfl⟩ := Option.map_eq_some_iff.1 ht
        exact .inr rfl
  have trimmed : Str.trim ((digits ++ ws).map UInt8.toNat) = digits.map UInt8.toNat := by
    rw [List.map_append]
    refine Str.trim_append ?_ ?_
    · intro c hc
      obtain ⟨b, hb, rfl⟩ := List.mem_map.1 hc
      exact (isHexDigit_cases (hex b hb)).2.1
    · intro c hc
      obtain ⟨b, hb, rfl⟩ := List.mem_map.1 hc
      exact (isOws_cases (white b hb)).2.1
  have first : (List.splitOn 59 ((digits ++ ws).map UInt8.toNat ++ t)).headD
      ((digits ++ ws).map UInt8.toNat ++ t) = (digits ++ ws).map UInt8.toNat :=
    headD_splitOn (notMem_of_ascii noMark) mark
  have read : ResponseCodec.chunkSize (digits ++ ws ++ e) =
      match Str.fromStrRadix 16 (Str.trim ((List.splitOn 59 ((digits ++ ws).map UInt8.toNat ++ t)).headD
        ((digits ++ ws).map UInt8.toNat ++ t))) with
      | none => .error "invalid chunk size hex"
      | some size => .ok size := by
    rw [ResponseCodec.chunkSize, Str.fromUtf8_ascii ascii, ht]
    rfl
  rw [read, first, trimmed]

/-- Hexadecimal digits as bytes are digits as characters. -/
lemma toDigit_of_hex {digits : Bytes} (hex : ∀ b ∈ digits, isHexDigit b = true) :
    ∀ c ∈ digits.map UInt8.toNat, (Str.toDigit 16 c).isSome := by
  intro c hc
  obtain ⟨b, hb, rfl⟩ := List.mem_map.1 hc
  exact hex b hb

/-- The codec reads the size of a size line. -/
theorem UsizeLine.chunkSize {l : Bytes} {n : Nat} (line : UsizeLine l n) :
    ResponseCodec.chunkSize l = .ok n := by
  obtain ⟨⟨digitsNe, hex, white, ext, -⟩, text, fits⟩ := line
  have read := Str.fromStrRadix_digits (by decide) (by simpa using digitsNe) (toDigit_of_hex hex) fits
  rw [chunkSize_digits hex white ext text, read]
  rfl

/-- A size line has no line end in it. -/
lemma UsizeLine.noCrlf {l : Bytes} {n : Nat} (line : UsizeLine l n) : NoCrlf l := by
  obtain ⟨⟨-, -, -, -, noCrlf⟩, -, -⟩ := line
  exact noCrlf

/-! ## Bodies -/

open ResponseCodec

/-- A trailer ends the chunks. -/
lemma Trailer.chunks {t : Bytes} (trailer : Trailer t) : Chunks .trailerOrEnd t none := by
  induction trailer with
  | last => exact .last
  | field line _ ih => exact .trailer line ih

/-- The codec takes a chunked body part by part. -/
lemma UsizeChunks.chunks {body : Bytes} (chunks : UsizeChunks body) : Chunks .expectSize body none := by
  induction chunks with
  | last line trailer => exact .size line.noCrlf line.chunkSize trailer.chunks
  | @chunk l n d t line pos len _ ih =>
    have ne : d ≠ [] := List.ne_nil_of_length_pos (len ▸ pos)
    have size : ChunkedState.ofSize n = .data n pos := dif_neg (Nat.ne_of_gt pos)
    have left : ChunkedState.ofRemaining (n - d.length) = .expectDataCrlf := by
      rw [len, Nat.sub_self]
      rfl
    have rest : Chunks (.ofSize n) (d ++ (crlf ++ t)) none := by
      rw [size]
      exact .data ne (Nat.le_of_eq len) (left ▸ .dataCrlf ih)
    have whole := Chunks.size line.noCrlf line.chunkSize rest
    simpa only [List.append_assoc] using whole

/-- Behind a head, an encoded body is taken and nothing else. -/
lemma feedAll_encoded {c : ResponseCodec} {framing : BodyFramingMode} {body : Bytes}
    (hs : c.bodyState = .ofFraming framing) (enc : Encoded framing body) (suffix : Bytes) :
    ∃ c', Decoder.feedAll (ε := IoError) atoms c (body ++ suffix) = ⟨body.map .inr, c', suffix, none⟩ ∧
      c'.bodyState = .done := by
  cases enc with
  | @fixed n _ len =>
    cases n with
    | zero =>
      obtain rfl := List.length_eq_zero_iff.1 len
      exact ⟨c, feedAll_done hs suffix, hs⟩
    | succ n =>
      have st : c.bodyState = .fixedLength (n + 1) (Nat.succ_pos n) := hs
      refine ⟨{ c with bodyState := .done }, ?_, rfl⟩
      have zero : n + 1 - (body ++ suffix).length = 0 := by
        rw [List.length_append]
        omega
      rw [feedAll_fixedLength st, List.take_left' len, List.drop_left' len, zero]
      rfl
  | chunked chunks =>
    refine ⟨{ c with bodyState := .done }, ?_, rfl⟩
    rw [chunks.chunks.feed hs suffix, chunksState, feedAll_done rfl]
    simp [Decoder.Fed.after]

/-! ## Messages -/

/-- Items that amount to some frames and then some bytes are those frames and then pieces of a body. -/
lemma items_of_atoms {is : List ResponseCodecItem} (ne : ∀ i ∈ is, rawItem i ≠ []) {fs : List HttpFrame}
    {body : Bytes} (out : is.flatMap atoms = fs.map .inl ++ body.map .inr) :
    ∃ bodies : List Bytes, is = fs.map .frame ++ bodies.map .body ∧ bodies.flatten = body := by
  induction is generalizing fs body with
  | nil =>
    obtain ⟨frames, bytes⟩ := List.append_eq_nil_iff.1 out.symm
    obtain rfl := List.map_eq_nil_iff.1 frames
    obtain rfl := List.map_eq_nil_iff.1 bytes
    exact ⟨[], rfl, rfl⟩
  | cons i is ih =>
    have ih := @ih fun j hj => ne j (List.mem_cons_of_mem _ hj)
    rw [List.flatMap_cons] at out
    cases i with
    | frame f =>
      cases fs with
      | nil =>
        cases body with
        | nil => cases out
        | cons b body => cases (List.cons.inj out).1
      | cons g fs =>
        obtain ⟨first, rest⟩ := List.cons.inj out
        obtain rfl := Sum.inl.inj first
        obtain ⟨bodies, items, flat⟩ := ih rest
        exact ⟨bodies, congrArg (ResponseCodecItem.frame f :: ·) items, flat⟩
    | body bs =>
      -- a piece of a body has a byte, so no frame can follow it
      have bsNe : bs ≠ [] := ne (.body bs) List.mem_cons_self
      obtain ⟨b, bs, rfl⟩ := List.exists_cons_of_ne_nil bsNe
      cases fs with
      | cons g fs => cases (List.cons.inj out).1
      | nil =>
        rw [List.map_nil, List.nil_append] at out
        obtain ⟨front, back, rfl, hf, hb⟩ := List.map_eq_append_iff.1 out.symm
        obtain rfl := List.map_injective_iff.2 Sum.inr_injective hf
        have rest : is.flatMap atoms = ([] : List HttpFrame).map .inl ++ back.map .inr := hb.symm
        obtain ⟨bodies, rfl, rfl⟩ := ih rest
        exact ⟨(b :: bs) :: bodies, rfl, rfl⟩

/-- The parts of some frames are the frames. -/
lemma flatMap_atoms_frames (fs : List HttpFrame) :
    (fs.map ResponseCodecItem.frame).flatMap atoms = fs.map .inl := by
  induction fs with
  | nil => rfl
  | cons f fs ih => exact congrArg (Sum.inl f :: ·) ih

/-- The framing that the codec derives from the lines of a head. -/
def framingOf (ls : List Bytes) : BodyFramingMode :=
  (HttpDerivationInput.resolveAll (headCodec ls).session).bodyFraming

/-- A response whose body is encoded in the derived framing: however the transport is cut, the codec
emits one frame a line of the head, the end of the headers and pieces that make up the body, and is
complete with what follows the response left unread. -/
theorem decodes_message {ls : List Bytes} {body suffix : Bytes} {ds : List Bytes} (ok : HeadLines ls)
    (enc : Encoded (framingOf ls) body) (cut : ds.flatten = unlines ls ++ crlf ++ body ++ suffix) :
    (∃ e, Decoder.Decodes new [] ds e) ∧ ∀ e, Decoder.Decodes new [] ds e →
      (∃ bodies : List Bytes, e.out = (headFrames ls ++ [HttpFrame.endOfHeaders]).map .frame ++ bodies.map .body ∧
        bodies.flatten = body) ∧
      e.codec.isResponseComplete = true ∧ e.buffer ++ e.left.flatten = suffix ∧ e.err = none := by
  have waits : new.decode [] = (.ok none, new, []) := rfl
  refine ⟨Decoder.Decodes.total incremental atEof decodeEof_waiting waits ds, fun e dec => ?_⟩
  obtain ⟨c, feed, codec⟩ := Decoder.Decodes.feed incremental atEof decodeEof_waiting dec waits
  obtain ⟨c', taken, done⟩ := feedAll_encoded (c := (headCodec ls).endHeaders) rfl enc suffix
  have lines := run_lines ok (body ++ suffix)
  rw [run, ← List.append_assoc, ← cut, taken] at lines
  rw [List.nil_append, lines] at feed
  obtain ⟨out, rfl, rest, err⟩ := Decoder.Fed.mk.inj feed
  obtain ⟨w, uses⟩ := Decoder.Uses.start.decodes dec
  have done' : e.codec = c' := by
    rw [codec, ← err, atEof, if_neg (by rintro ⟨⟩), done]
  refine ⟨items_of_atoms (uses_conserve uses).2 ?_, ?_, rest.symm, err.symm⟩
  · rw [List.nil_append, ← out, ← List.map_singleton (f := ResponseCodecItem.frame), ← List.map_append,
      flatMap_atoms_frames]
  · rw [isResponseComplete, done', done]
    rfl

/-- A head that announces chunks. -/
def chunkedHead : List Bytes := [lit "HTTP/1.1 200 OK", lit "Transfer-Encoding: chunked"]

/-- A chunk with an extension, a last chunk with a leading zero, and a trailer. -/
def chunkedBody : Bytes := lit "2;a=b\r\nok\r\n00\r\nT: 1\r\n\r\n"

/-- Its lines are lines of a head. -/
lemma headLines_chunkedHead : HeadLines chunkedHead := by
  have status : IsLine (lit "HTTP/1.1 200 OK") := ⟨by decide, by decide⟩
  have header : IsLine (lit "Transfer-Encoding: chunked") := ⟨by decide, by decide⟩
  exact ((HeadLines.nil.concat status nofun).concat header fun _ => by decide)

/-- It is encoded in chunks. -/
lemma encoded_chunkedBody : Encoded .chunked chunkedBody := by
  have size : SizeLine (lit "2" ++ [] ++ lit ";a=b") (hexValue (lit "2")) :=
    .mk (by decide) (List.all_eq_true.1 rfl) nofun (.inr rfl) (by decide)
  have zero : SizeLine (lit "00" ++ [] ++ []) (hexValue (lit "00")) :=
    .mk (by decide) (List.all_eq_true.1 rfl) nofun (.inl ⟨rfl, rfl⟩) (by decide)
  have trailer : Trailer (lit "T: 1" ++ crlf ++ crlf) := .field ⟨by decide, by decide⟩ .last
  have last : UsizeChunks (lit "00" ++ crlf ++ (lit "T: 1" ++ crlf ++ crlf)) :=
    .last ⟨zero, by decide, by decide⟩ trailer
  exact .chunked (.chunk (d := lit "ok") ⟨size, by decide, by decide⟩ (by decide) rfl last)

/-- It is taken in two reads, with the start of the next response left. -/
theorem decodes_message_chunked :
    (∃ e, Decoder.Decodes new []
      [unlines chunkedHead ++ crlf ++ lit "2;a=b\r\no", lit "k\r\n00\r\nT: 1\r\n\r\nHTTP/1.1 "] e) ∧
      ∀ e, Decoder.Decodes new []
        [unlines chunkedHead ++ crlf ++ lit "2;a=b\r\no", lit "k\r\n00\r\nT: 1\r\n\r\nHTTP/1.1 "] e →
      (∃ bodies : List Bytes, e.out =
          (headFrames chunkedHead ++ [HttpFrame.endOfHeaders]).map .frame ++ bodies.map .body ∧
        bodies.flatten = chunkedBody) ∧
      e.codec.isResponseComplete = true ∧ e.buffer ++ e.left.flatten = lit "HTTP/1.1 " ∧ e.err = none := by
  have framing : framingOf chunkedHead = .chunked := by decide +kernel
  exact decodes_message headLines_chunkedHead (framing ▸ encoded_chunkedBody) (by decide)

end Railscale.Http
