import Railscale.Http.ResponseMessage

/-!
# The grammar of chunked bodies

What `ResponseCodec` takes for a chunked body against the grammar of RFC 9112 section 7.1, with the extensions of
section 7.1.1 and the trailer fields of section 7.1.2 spelled out. The codec parses a size with
`usize::from_str_radix` behind `trim`, takes the two bytes behind the data of a chunk by their number, and takes
every line for a trailer. So a body that it accepts is in the grammar exactly when these three are clean
(`chunkedBody_iff_clean`).
-/

namespace Railscale.Http

open Bytes

namespace Rfc9112

/-! ## Productions -/

/-- `tchar`. -/
def isTchar (b : UInt8) : Bool :=
  (48 ≤ b && b ≤ 57) || (65 ≤ b && b ≤ 90) || (97 ≤ b && b ≤ 122) ||
    [33, 35, 36, 37, 38, 39, 42, 43, 45, 46, 94, 95, 96, 124, 126].contains b

/-- `VCHAR / obs-text`. -/
def isVisible (b : UInt8) : Bool := (33 ≤ b && b ≤ 126) || 128 ≤ b

/-- `qdtext`. -/
def isQdtext (b : UInt8) : Bool := isOws b || (isVisible b && b != 34 && b != 92)

/-- `token`. -/
def Token (l : Bytes) : Prop := l ≠ [] ∧ ∀ b ∈ l, isTchar b = true

/-- `OWS` and `BWS`. -/
def Ows (l : Bytes) : Prop := ∀ b ∈ l, isOws b = true

/-- `*( qdtext / quoted-pair )`. -/
inductive QuotedText : Bytes → Prop where
  | nil :
    QuotedText []
  | text {b t} :
    isQdtext b = true →
    QuotedText t →
    QuotedText (b :: t)
  | pair {b t} :
    isOws b = true ∨ isVisible b = true →
    QuotedText t →
    QuotedText (92 :: b :: t)

/-- `quoted-string`. -/
def QuotedString (l : Bytes) : Prop := ∃ t, QuotedText t ∧ l = 34 :: (t ++ [34])

/-- `chunk-ext`. -/
inductive ChunkExt : Bytes → Prop where
  | nil :
    ChunkExt []
  | name {w v name t} :
    Ows w →
    Ows v →
    Token name →
    ChunkExt t →
    ChunkExt (w ++ 59 :: (v ++ (name ++ t)))
  | value {w v name w' v' value t} :
    Ows w →
    Ows v →
    Token name →
    Ows w' →
    Ows v' →
    Token value ∨ QuotedString value →
    ChunkExt t →
    ChunkExt (w ++ 59 :: (v ++ (name ++ (w' ++ 61 :: (v' ++ (value ++ t))))))

/-- `chunk-size [ chunk-ext ]`. -/
inductive SizeLine : Bytes → Nat → Prop where
  | mk {digits ext} :
    digits ≠ [] →
    (∀ b ∈ digits, isHexDigit b = true) →
    ChunkExt ext →
    SizeLine (digits ++ ext) (hexValue digits)

/-- `field-line`: the value is any text with white space around it. -/
def FieldLine (l : Bytes) : Prop :=
  ∃ name value, Token name ∧ (∀ b ∈ value, isOws b = true ∨ isVisible b = true) ∧ l = name ++ 58 :: value

/-- `trailer-section CRLF`. -/
def Trailer (t : Bytes) : Prop := ∃ fields, (∀ l ∈ fields, FieldLine l) ∧ t = unlines fields ++ crlf

/-- `chunked-body`. -/
inductive ChunkedBody : Bytes → Prop where
  | last {l t} :
    SizeLine l 0 →
    Trailer t →
    ChunkedBody (l ++ crlf ++ t)
  | chunk {l n d t} :
    SizeLine l n →
    0 < n →
    d.length = n →
    ChunkedBody t →
    ChunkedBody (l ++ crlf ++ (d ++ crlf ++ t))

/-! ## Lines of the grammar -/

/-- Without a carriage return there is no line end. -/
lemma noCrlf_of_noCr {l : Bytes} (noCr : cr ∉ l) : NoCrlf l := by
  intro found
  exact noCr (found.subset List.mem_cons_self)

/-- White space has no carriage return. -/
lemma Ows.noCr {l : Bytes} (ows : Ows l) : cr ∉ l := by
  intro mem
  exact absurd (ows cr mem) (by decide)

/-- Nor has a token. -/
lemma Token.noCr {l : Bytes} (token : Token l) : cr ∉ l := by
  intro mem
  exact absurd (token.2 cr mem) (by decide)

/-- Nor has quoted text. -/
lemma QuotedText.noCr {l : Bytes} (text : QuotedText l) : cr ∉ l := by
  induction text with
  | nil => exact List.not_mem_nil
  | text ok _ ih =>
    rw [List.mem_cons, not_or]
    refine ⟨?_, ih⟩
    rintro rfl
    exact absurd ok (by decide)
  | pair ok _ ih =>
    rw [List.mem_cons, List.mem_cons, not_or, not_or]
    refine ⟨by decide, ?_, ih⟩
    rintro rfl
    exact absurd ok (by decide)

/-- Two parts without a carriage return, one behind the other. -/
lemma noCr_append {l m : Bytes} (hl : cr ∉ l) (hm : cr ∉ m) : cr ∉ l ++ m := by
  rw [List.mem_append, not_or]
  exact ⟨hl, hm⟩

/-- One more byte that is no carriage return. -/
lemma noCr_cons {b : UInt8} {l : Bytes} (hb : cr ≠ b) (hl : cr ∉ l) : cr ∉ b :: l :=
  List.not_mem_cons_of_ne_of_not_mem hb hl

/-- A quoted string has no carriage return. -/
lemma QuotedString.noCr {l : Bytes} (quoted : QuotedString l) : cr ∉ l := by
  obtain ⟨t, text, rfl⟩ := quoted
  exact noCr_cons (by decide) (noCr_append text.noCr (by decide))

/-- Nor has a chunk extension. -/
lemma ChunkExt.noCr {l : Bytes} (ext : ChunkExt l) : cr ∉ l := by
  have mark : ∀ {b : UInt8} {l m : Bytes}, cr ≠ b → Ows l → cr ∉ m → cr ∉ b :: (l ++ m) :=
    fun hb ows hm => noCr_cons hb (noCr_append ows.noCr hm)
  induction ext with
  | nil => exact List.not_mem_nil
  | name w v name _ ih => exact noCr_append w.noCr (mark (by decide) v (noCr_append name.noCr ih))
  | value w v name w' v' value _ ih =>
    have value : cr ∉ _ := value.elim Token.noCr QuotedString.noCr
    have behind := noCr_append w'.noCr (mark (by decide : cr ≠ 61) v' (noCr_append value ih))
    exact noCr_append w.noCr (mark (by decide) v (noCr_append name.noCr behind))

/-- An extension is empty, or a `;` with white space before it. -/
lemma ChunkExt.cut {l : Bytes} (ext : ChunkExt l) :
    ∃ ws e, l = ws ++ e ∧ Ows ws ∧ (e = [] ∧ ws = [] ∨ e.head? = some 59) := by
  cases ext with
  | nil => exact ⟨[], [], rfl, fun _ mem => absurd mem List.not_mem_nil, .inl ⟨rfl, rfl⟩⟩
  | name w _ _ _ => exact ⟨_, _, rfl, w, .inr rfl⟩
  | value w _ _ _ _ _ _ => exact ⟨_, _, rfl, w, .inr rfl⟩

/-- A line with a size has no line end in it. -/
lemma SizeLine.noCrlf {l : Bytes} {n : Nat} (line : SizeLine l n) : NoCrlf l := by
  obtain ⟨-, hex, ext⟩ := line
  refine noCrlf_of_noCr (noCr_append (fun mem => ?_) ext.noCr)
  exact absurd (hex cr mem) (by decide)

/-- A field line is a line. -/
lemma FieldLine.isLine {l : Bytes} (field : FieldLine l) : IsLine l := by
  obtain ⟨name, value, token, text, rfl⟩ := field
  refine ⟨List.append_ne_nil_of_left_ne_nil token.1 _, noCrlf_of_noCr (noCr_append token.noCr ?_)⟩
  refine noCr_cons (by decide) fun mem => ?_
  exact absurd (text cr mem) (by decide)

/-- The codec reads the size of a size line of the grammar, if it reads one at all. -/
lemma SizeLine.value {l : Bytes} {n m : Nat} (line : SizeLine l n) (size : ResponseCodec.chunkSize l = .ok m) :
    m = n := by
  have text : (Str.fromUtf8 l).isSome := by
    rw [ResponseCodec.chunkSize] at size
    split at size
    · cases size
    · rename_i decoded
      rw [decoded]
      rfl
  obtain ⟨ne, hex, ext⟩ := line
  rename_i digits ext'
  obtain ⟨ws, e, rfl, white, mark⟩ := ext.cut
  rw [← List.append_assoc] at size text
  rw [chunkSize_digits hex white mark text] at size
  split at size
  · cases size
  · rename_i read
    cases size
    have num := (Str.fromStrRadix_eq_some (by decide)).1 read
    have digit := toDigit_of_hex hex
    generalize whole : digits.map UInt8.toNat = s at num digit
    obtain ⟨sign, -, -, -⟩ := num
    rcases sign with rfl | rfl
    · rw [hexValue, whole]
      rfl
    · exact absurd (digit 43 List.mem_cons_self) (by decide)

/-- How a body of the grammar begins. -/
lemma ChunkedBody.cut {body : Bytes} (h : ChunkedBody body) :
    ∃ l n t, SizeLine l n ∧ body = l ++ cr :: lf :: t ∧
      (n = 0 ∧ Trailer t ∨ 0 < n ∧ ∃ d t', d.length = n ∧ t = d ++ crlf ++ t' ∧ ChunkedBody t') := by
  cases h with
  | last line trailer => exact ⟨_, 0, _, line, List.append_assoc _ _ _, .inl ⟨rfl, trailer⟩⟩
  | chunk line pos len rest =>
    exact ⟨_, _, _, line, List.append_assoc _ _ _, .inr ⟨pos, _, _, len, rfl, rest⟩⟩

end Rfc9112

/-! ## The parts of a body -/

/-- The size lines, what stands behind the data of each chunk, and the trailer lines. -/
structure Parts where
  sizes : List Bytes
  separators : List Bytes
  trailers : List Bytes

/-- The body is cut into the parts by the sizes that `chunk_size` reads. -/
inductive Cut : Bytes → Parts → Prop where
  | last {l trailers} :
    NoCrlf l →
    ResponseCodec.chunkSize l = .ok 0 →
    (∀ t ∈ trailers, IsLine t) →
    Cut (l ++ crlf ++ (unlines trailers ++ crlf)) ⟨[l], [], trailers⟩
  | chunk {l n d x y t parts} :
    NoCrlf l →
    ResponseCodec.chunkSize l = .ok n →
    0 < n →
    d.length = n →
    Cut t parts →
    Cut (l ++ crlf ++ (d ++ [x, y] ++ t)) ⟨l :: parts.sizes, [x, y] :: parts.separators, parts.trailers⟩

/-- A size line that begins with a digit and has nothing but an extension behind its digits. -/
structure CleanSize (l : Bytes) : Prop where
  digit : ∃ b, l.head? = some b ∧ isHexDigit b = true
  ext : Rfc9112.ChunkExt (l.dropWhile isHexDigit)

/-- Clean size lines, line endings behind the data, and fields in the trailer. -/
structure Parts.Clean (parts : Parts) : Prop where
  sizes : ∀ l ∈ parts.sizes, CleanSize l
  separators : ∀ s ∈ parts.separators, s = crlf
  trailers : ∀ l ∈ parts.trailers, Rfc9112.FieldLine l

/-- Behind the digits of a size line there is no further digit. -/
lemma dropWhile_ext {ext : Bytes} (h : Rfc9112.ChunkExt ext) : ext.dropWhile isHexDigit = ext := by
  obtain ⟨ws, e, rfl, white, mark⟩ := h.cut
  cases ws with
  | nil =>
    cases e with
    | nil => rfl
    | cons b e =>
      rcases mark with ⟨empty, -⟩ | mark
      · cases empty
      · cases mark
        rfl
  | cons b ws =>
    have blank : isHexDigit b = false := by
      by_contra hex
      have text := (isHexDigit_cases (Bool.eq_true_of_not_eq_false hex)).2.1
      rw [(isOws_cases (white b List.mem_cons_self)).2.1] at text
      cases text
    rw [List.cons_append, List.dropWhile_cons_of_neg (ne_true_of_eq_false blank)]

/-- Clean size lines are the size lines of the grammar. -/
lemma cleanSize_iff {l : Bytes} : CleanSize l ↔ ∃ n, Rfc9112.SizeLine l n := by
  constructor
  · rintro ⟨⟨b, head, hex⟩, ext⟩
    have ne : l.takeWhile isHexDigit ≠ [] := by
      cases l with
      | nil => cases head
      | cons a l =>
        cases head
        rw [List.takeWhile_cons_of_pos hex]
        exact List.cons_ne_nil _ _
    have line := Rfc9112.SizeLine.mk ne (fun b mem => List.mem_takeWhile_imp mem) ext
    rw [List.takeWhile_append_dropWhile] at line
    exact ⟨_, line⟩
  · rintro ⟨n, ⟨ne, hex, ext⟩⟩
    rename_i digits ext'
    refine ⟨?_, ?_⟩
    · obtain ⟨b, digits, rfl⟩ := List.exists_cons_of_ne_nil ne
      exact ⟨b, rfl, hex b List.mem_cons_self⟩
    · rw [List.dropWhile_append_of_pos hex, dropWhile_ext ext]
      exact ext

/-- A body that is cut into parts is in the grammar exactly when the parts are clean. -/
theorem Cut.chunkedBody_iff {body : Bytes} {parts : Parts} (cut : Cut body parts) :
    Rfc9112.ChunkedBody body ↔ parts.Clean := by
  induction cut with
  | @last l trailers noCrlf size lines =>
    constructor
    · intro h
      obtain ⟨l', n, t, line, same, rest⟩ := h.cut
      rw [List.append_assoc] at same
      obtain ⟨rfl, rfl⟩ := line_unique noCrlf line.noCrlf same
      obtain rfl := line.value size
      rcases rest with ⟨-, fields, ok, same⟩ | ⟨pos, -⟩
      · have same : unlines trailers ++ crlf ++ [] = unlines fields ++ crlf ++ [] := by
          rw [List.append_nil, List.append_nil]
          exact same
        obtain ⟨rfl, -⟩ := unlines_unique lines (fun l mem => (ok l mem).isLine) same
        exact ⟨List.forall_mem_singleton.2 (cleanSize_iff.2 ⟨_, line⟩), fun _ mem => absurd mem List.not_mem_nil, ok⟩
      · exact absurd pos (Nat.lt_irrefl 0)
    · intro clean
      obtain ⟨n, line⟩ := cleanSize_iff.1 (clean.sizes l List.mem_cons_self)
      obtain rfl := line.value size
      exact .last line ⟨trailers, clean.trailers, rfl⟩
  | @chunk l n d x y t parts noCrlf size pos len _ ih =>
    constructor
    · intro h
      obtain ⟨l', n', t', line, same, rest⟩ := h.cut
      rw [List.append_assoc] at same
      obtain ⟨rfl, rfl⟩ := line_unique noCrlf line.noCrlf same
      obtain rfl := line.value size
      rcases rest with ⟨zero, -⟩ | ⟨-, d', t', len', same, rest⟩
      · exact absurd zero (Nat.ne_of_gt pos)
      · have same : d ++ ([x, y] ++ t) = d' ++ (crlf ++ t') := by
          rw [← List.append_assoc, ← List.append_assoc]
          exact same
        obtain ⟨-, same⟩ := List.append_inj same (len.trans len'.symm)
        obtain ⟨separator, rfl⟩ := List.append_inj same rfl
        have clean := ih.1 rest
        exact ⟨List.forall_mem_cons.2 ⟨cleanSize_iff.2 ⟨_, line⟩, clean.sizes⟩,
          List.forall_mem_cons.2 ⟨separator, clean.separators⟩, clean.trailers⟩
    · intro clean
      obtain ⟨n', line⟩ := cleanSize_iff.1 (clean.sizes l List.mem_cons_self)
      obtain rfl := line.value size
      have separator : [x, y] = crlf := clean.separators _ List.mem_cons_self
      have rest : parts.Clean :=
        ⟨fun l mem => clean.sizes l (List.mem_cons_of_mem _ mem),
          fun s mem => clean.separators s (List.mem_cons_of_mem _ mem), clean.trailers⟩
      rw [separator]
      exact .chunk line pos len (ih.2 rest)

/-! ## What the codec accepts -/

namespace ResponseCodec

/-- How a body goes on from a state of the chunk reader to its end. -/
def CutFrom : ChunkedState → Bytes → Prop
  | .expectSize, b => ∃ parts, Cut b parts
  | .data n _, b => ∃ d x y t parts, b = d ++ [x, y] ++ t ∧ d.length = n ∧ Cut t parts
  | .expectDataCrlf, b => ∃ x y t parts, b = [x, y] ++ t ∧ Cut t parts
  | .trailerOrEnd, b => ∃ trailers, (∀ l ∈ trailers, IsLine l) ∧ b = unlines trailers ++ crlf

/-- Whole chunk parts up to the end can be cut. -/
lemma Chunks.cut {st : ChunkedState} {b : Bytes} {e : Option ChunkedState} (chunks : Chunks st b e)
    (ended : e = none) : CutFrom st b := by
  induction chunks with
  | nil => cases ended
  | @size l n t _ noCrlf size _ ih =>
    have ih := ih ended
    rcases Nat.eq_zero_or_pos n with rfl | pos
    · obtain ⟨trailers, lines, rfl⟩ := ih
      exact ⟨_, .last noCrlf size lines⟩
    · have state : ChunkedState.ofSize n = .data n pos := dif_neg (Nat.ne_of_gt pos)
      rw [state] at ih
      obtain ⟨d, x, y, t, parts, rfl, len, cut⟩ := ih
      exact ⟨_, .chunk noCrlf size pos len cut⟩
  | @data n pos d t _ ne le _ ih =>
    have ih := ih ended
    by_cases whole : n - d.length = 0
    · rw [whole] at ih
      obtain ⟨x, y, t, parts, rfl, cut⟩ := ih
      exact ⟨d, x, y, t, parts, (List.append_assoc _ _ _).symm, by omega, cut⟩
    · have state : ChunkedState.ofRemaining (n - d.length) = .data (n - d.length) (Nat.pos_of_ne_zero whole) :=
        dif_neg whole
      rw [state] at ih
      obtain ⟨d', x, y, t, parts, rfl, len, cut⟩ := ih
      refine ⟨d ++ d', x, y, t, parts, by simp only [List.append_assoc], ?_, cut⟩
      rw [List.length_append, len]
      omega
  | dataCrlf _ ih =>
    obtain ⟨parts, cut⟩ := ih ended
    exact ⟨_, _, _, parts, rfl, cut⟩
  | @trailer l t _ line _ ih =>
    obtain ⟨trailers, lines, rfl⟩ := ih ended
    refine ⟨l :: trailers, List.forall_mem_cons.2 ⟨line, lines⟩, ?_⟩
    rw [unlines_cons, List.append_assoc (l ++ crlf)]
  | last => exact ⟨[], fun _ mem => absurd mem List.not_mem_nil, rfl⟩

/-- The framing that was resolved stays. -/
lemma bodyFraming_feedAll {c : ResponseCodec} {framing : BodyFramingMode} (hs : c.bodyState = .ofFraming framing)
    (other : framing ≠ .chunked) (b : Bytes) :
    (Decoder.feedAll (ε := IoError) atoms c b).codec.bodyFraming = c.bodyFraming := by
  cases framing with
  | fixed n =>
    by_cases zero : n = 0
    · subst zero
      rw [feedAll_done hs]
    · rw [feedAll_fixedLength (hs.trans (dif_neg zero))]
  | chunked => exact absurd rfl other
  | untilClose => rw [feedAll_untilEof hs]
  | none => rw [feedAll_done hs]
  | invalid => rw [feedAll_untilEof hs]

/-- The end of the transport leaves the framing as it is. -/
lemma bodyFraming_atEof (c : ResponseCodec) : c.atEof.bodyFraming = c.bodyFraming := by
  rw [atEof]
  split
  · rfl
  · rfl

/-- The body bytes that are emitted behind the frames of a head. -/
lemma bodyBytes_of_atoms (fs : List HttpFrame) {is : List ResponseCodecItem} {body : Bytes}
    (out : is.flatMap atoms = (fs.map ResponseCodecItem.frame ++ [ResponseCodecItem.body body]).flatMap atoms) :
    bodyBytes is = body := by
  have frames : bodyBytes (fs.map .frame) = [] := by
    rw [bodyBytes, List.flatMap_map]
    exact List.flatMap_eq_nil_iff.2 fun _ _ => rfl
  have last : bodyBytes [.body body] = body := List.append_nil body
  rw [bodyBytes_eq_atoms, out, ← bodyBytes_eq_atoms, bodyBytes, List.flatMap_append, ← bodyBytes, ← bodyBytes, frames,
    last, List.nil_append]

/-- A body that was read to its end, and what is emitted of it. -/
lemma chunks_of_done {c : ResponseCodec} (hs : c.bodyState = .chunked .expectSize) {rest : Bytes}
    (err : (Decoder.feedAll (ε := IoError) atoms c rest).err = none)
    (done : (Decoder.feedAll (ε := IoError) atoms c rest).codec.atEof.bodyState = .done) :
    ∃ body, Chunks .expectSize body none ∧
      (Decoder.feedAll (ε := IoError) atoms c rest).out = [ResponseCodecItem.body body].flatMap atoms := by
  obtain ⟨body, st, chunks, cut, state⟩ := chunks_of_feed hs err
  cases st with
  | some st =>
    have waiting : (Decoder.feedAll (ε := IoError) atoms c rest).codec.atEof.bodyState = .chunked st := by
      rw [atEof, state]
      exact state
    cases done.symm.trans waiting
  | none =>
    have taken := chunks.feed hs (Decoder.feedAll (ε := IoError) atoms c rest).rest
    have ended := feedAll_done (c := { c with bodyState := .done }) rfl
      (Decoder.feedAll (ε := IoError) atoms c rest).rest
    rw [← cut, chunksState, ended] at taken
    refine ⟨body, chunks, ?_⟩
    rw [taken]
    simp [Decoder.Fed.after, atoms]

/-- The end of a transport whose framing was resolved to chunks and that is complete. -/
structure Accepts (e : Decoder.End ResponseCodec ResponseCodecItem IoError) : Prop where
  err : e.err = none
  framing : e.codec.bodyFraming = some .chunked
  complete : e.codec.isResponseComplete = true

/-- What was emitted behind the head are whole chunk parts up to the end. -/
theorem Accepts.chunks {ds : List Bytes} {e : Decoder.End ResponseCodec ResponseCodecItem IoError}
    (accepts : Accepts e) (dec : Decoder.Decodes new [] ds e) : Chunks .expectSize (bodyBytes e.out) none := by
  have waits : new.decode [] = (.ok none, new, []) := rfl
  obtain ⟨c, feed, codec⟩ := Decoder.Decodes.feed incremental atEof decodeEof_waiting dec waits
  rw [List.nil_append, accepts.err] at feed
  rw [accepts.err, if_neg nofun] at codec
  have framing := accepts.framing
  have complete := beq_iff_eq.1 accepts.complete
  rw [codec, bodyFraming_atEof] at framing
  rw [codec] at complete
  -- the codec is behind a head, in the state of its framing
  obtain ⟨is, c', b, r, drain⟩ := Decoder.Drain.total incremental new ds.flatten
  have same := drain.feed incremental
  rw [feed] at same
  obtain ⟨-, rfl, -, none⟩ := Decoder.Fed.mk.inj same
  have calls : Decoder.Calls new ds.flatten [] new ds.flatten := .arrive ds.flatten .start
  cases progress (calls.drain drain none.symm) with
  | head ok e => cases complete
  | @body ls _ _ _ rest ok whole _ _ _ =>
    have lines := run_lines ok rest
    rw [run, ← whole, feed] at lines
    obtain ⟨out, state, -, err⟩ := Decoder.Fed.mk.inj lines
    rw [state] at framing complete
    by_cases chunked : framingOf ls = .chunked
    · have hs : (headCodec ls).endHeaders.bodyState = .chunked .expectSize := congrArg BodyState.ofFraming chunked
      obtain ⟨body, chunks, emitted⟩ := chunks_of_done hs err.symm complete
      have bytes : bodyBytes e.out = body := by
        refine bodyBytes_of_atoms (headFrames ls ++ [.endOfHeaders]) (out.trans ?_)
        rw [emitted]
        simp [atoms]
      rw [bytes]
      exact chunks
    · have stays := bodyFraming_feedAll (c := (headCodec ls).endHeaders) rfl chunked rest
      rw [stays] at framing
      exact absurd (Option.some.inj framing) chunked

/-- However the transport is cut: what the codec accepts as a chunked body is in the grammar exactly when every size
line is clean, every chunk ends with a line ending and every trailer line is a field. -/
theorem chunkedBody_iff_clean {ds : List Bytes} {e : Decoder.End ResponseCodec ResponseCodecItem IoError}
    (dec : Decoder.Decodes new [] ds e) (accepts : Accepts e) :
    (∃ parts, Cut (bodyBytes e.out) parts) ∧
      ∀ parts, Cut (bodyBytes e.out) parts → (Rfc9112.ChunkedBody (bodyBytes e.out) ↔ parts.Clean) :=
  ⟨(accepts.chunks dec).cut rfl, fun _ cut => cut.chunkedBody_iff⟩

/-- Whole chunk parts behind a head that announces them are accepted. -/
lemma accepts_chunks {ls : List Bytes} {body : Bytes} {ds : List Bytes} (ok : HeadLines ls)
    (chunked : framingOf ls = .chunked) (chunks : Chunks .expectSize body none)
    (cut : ds.flatten = unlines ls ++ crlf ++ body) :
    ∃ e, Decoder.Decodes new [] ds e ∧ Accepts e ∧ bodyBytes e.out = body := by
  have waits : new.decode [] = (.ok none, new, []) := rfl
  obtain ⟨e, dec⟩ := Decoder.Decodes.total incremental atEof decodeEof_waiting waits ds
  obtain ⟨c, feed, codec⟩ := Decoder.Decodes.feed incremental atEof decodeEof_waiting dec waits
  have hs : (headCodec ls).endHeaders.bodyState = .chunked .expectSize := congrArg BodyState.ofFraming chunked
  have taken := chunks.feed hs []
  rw [List.append_nil] at taken
  have lines := run_lines ok body
  rw [run, ← cut, taken] at lines
  rw [List.nil_append, lines] at feed
  obtain ⟨out, rfl, -, err⟩ := Decoder.Fed.mk.inj feed
  rw [← err, if_neg (by rintro ⟨⟩)] at codec
  refine ⟨e, dec, ⟨err.symm, ?_, ?_⟩, bodyBytes_of_atoms (headFrames ls ++ [.endOfHeaders]) (out.symm.trans ?_)⟩
  · rw [codec, bodyFraming_atEof]
    exact congrArg some chunked
  · rw [codec]
    rfl
  · simp [Decoder.Fed.after, Decoder.feedAll, Decoder.Fed.start, atoms]

/-- The parts of a body with an extension and a trailer. -/
lemma cut_chunkedBody : Cut chunkedBody ⟨[lit "2;a=b", lit "00"], [crlf], [lit "T: 1"]⟩ := by
  have trailers : ∀ t ∈ [lit "T: 1"], IsLine t := List.forall_mem_singleton.2 ⟨by decide, by decide⟩
  have last : Cut (lit "00" ++ crlf ++ (unlines [lit "T: 1"] ++ crlf)) ⟨[lit "00"], [], [lit "T: 1"]⟩ :=
    .last (by decide) (by decide) trailers
  exact .chunk (l := lit "2;a=b") (d := lit "ok") (by decide) (by decide) (by decide) rfl last

/-- A body with an extension, a chunk of two bytes and a trailer is clean. -/
lemma clean_chunkedBody : Parts.Clean ⟨[lit "2;a=b", lit "00"], [crlf], [lit "T: 1"]⟩ := by
  have blank : Rfc9112.Ows [] := fun _ mem => absurd mem List.not_mem_nil
  have token : ∀ l : Bytes, l ≠ [] → l.all Rfc9112.isTchar = true → Rfc9112.Token l :=
    fun l ne all => ⟨ne, List.all_eq_true.1 all⟩
  have ext : Rfc9112.ChunkExt (lit ";a=b") :=
    @Rfc9112.ChunkExt.value [] [] (lit "a") [] [] (lit "b") [] blank blank (token _ (by decide) rfl) blank blank
      (.inl (token _ (by decide) rfl)) .nil
  have sizes : ∀ l ∈ [lit "2;a=b", lit "00"], CleanSize l :=
    List.forall_mem_cons.2 ⟨⟨⟨50, rfl, rfl⟩, ext⟩, List.forall_mem_singleton.2 ⟨⟨48, rfl, rfl⟩, .nil⟩⟩
  have value : ∀ b ∈ lit " 1", isOws b = true ∨ Rfc9112.isVisible b = true :=
    List.forall_mem_cons.2 ⟨.inl rfl, List.forall_mem_singleton.2 (.inr rfl)⟩
  have field : Rfc9112.FieldLine (lit "T: 1") := ⟨lit "T", lit " 1", token _ (by decide) rfl, value, by decide⟩
  exact ⟨sizes, List.forall_mem_singleton.2 rfl, List.forall_mem_singleton.2 field⟩

/-- It is accepted and in the grammar. -/
theorem chunkedBody_iff_clean_trailer :
    ∃ e, Decoder.Decodes new [] [unlines chunkedHead ++ crlf ++ chunkedBody] e ∧ Accepts e ∧
      Rfc9112.ChunkedBody (bodyBytes e.out) := by
  have framing : framingOf chunkedHead = .chunked := by decide +kernel
  have chunks : Chunks .expectSize chunkedBody none := by
    cases encoded_chunkedBody with
    | chunked chunks => exact chunks.chunks
  have flat : [unlines chunkedHead ++ crlf ++ chunkedBody].flatten = unlines chunkedHead ++ crlf ++ chunkedBody :=
    List.append_nil _
  obtain ⟨e, dec, accepts, bytes⟩ := accepts_chunks headLines_chunkedHead framing chunks flat
  have cut : Cut (bodyBytes e.out) _ := bytes ▸ cut_chunkedBody
  exact ⟨e, dec, accepts, ((chunkedBody_iff_clean dec accepts).2 _ cut).2 clean_chunkedBody⟩

/-- A size with a sign, and two bytes that are no line ending behind the data. -/
def looseBody : Bytes := lit "+2\r\nokXX0\r\n\r\n"

/-- The codec cuts a body with a sign in front of a size. -/
lemma cut_looseBody : Cut looseBody ⟨[lit "+2", lit "0"], [lit "XX"], []⟩ := by
  have last : Cut (lit "0" ++ crlf ++ (unlines [] ++ crlf)) ⟨[lit "0"], [], []⟩ :=
    .last (by decide) (by decide) fun _ mem => absurd mem List.not_mem_nil
  exact .chunk (l := lit "+2") (d := lit "ok") (by decide) (by decide) (by decide) rfl last

/-- It takes all of it as chunks. -/
lemma chunks_looseBody : Chunks .expectSize looseBody none := by
  have zero : Chunks .expectSize (lit "0" ++ crlf ++ crlf) none := .size (n := 0) (by decide) (by decide) .last
  have data : Chunks (.ofSize 2) (lit "ok" ++ (lit "XX" ++ (lit "0" ++ crlf ++ crlf))) none :=
    .data (by decide) (by decide) (.dataCrlf zero)
  exact .size (l := lit "+2") (n := 2) (by decide) (by decide) data

/-- It is accepted. -/
theorem not_chunkedBody_loose :
    ¬ ∀ ds e, Decoder.Decodes new [] ds e → Accepts e → Rfc9112.ChunkedBody (bodyBytes e.out) := by
  intro all
  have framing : framingOf chunkedHead = .chunked := by decide +kernel
  have flat : [unlines chunkedHead ++ crlf ++ looseBody].flatten = unlines chunkedHead ++ crlf ++ looseBody :=
    List.append_nil _
  obtain ⟨e, dec, accepts, bytes⟩ := accepts_chunks headLines_chunkedHead framing chunks_looseBody flat
  have body := all _ e dec accepts
  rw [bytes] at body
  have separator := (cut_looseBody.chunkedBody_iff.1 body).separators _ List.mem_cons_self
  exact absurd separator (by decide)

end ResponseCodec

end Railscale.Http
