import Railscale.Http.Codec
import Railscale.Http.Derive

/-!
# The response codec

Model of `carriage/src/http/response_codec.rs`: `ResponseCodec` takes the lines of a response head off
the buffer, derives the framing of the body at the empty line and then takes the body off until it is
complete. `ResponseCodec.incremental` shows that the frames and the body bytes it emits do not depend
on how the input was cut.
-/

namespace Railscale.Http

open Bytes

/-- Rust `extract_status_line_version`. -/
def extractStatusLineVersion (line : Bytes) : Bytes :=
  match memchr sp line with
  | some pos => line.take pos
  | none => line

/-- Rust `ChunkedState`; the code never waits for no bytes of data. -/
inductive ChunkedState where
  | expectSize
  | data (remaining : Nat) (pos : 0 < remaining)
  | expectDataCrlf
  | trailerOrEnd
  deriving DecidableEq

/-- Rust `BodyState`; the code never waits for no bytes of a body. -/
inductive BodyState where
  | headers
  | fixedLength (remaining : Nat) (pos : 0 < remaining)
  | chunked (state : ChunkedState)
  | untilEof
  | done
  deriving DecidableEq

/-- What is left of a body of known length: done when nothing is. -/
def BodyState.ofRemaining (remaining : Nat) : BodyState :=
  if h : remaining = 0 then .done else .fixedLength remaining (Nat.pos_of_ne_zero h)

/-- What is left of a chunk: its line ending when nothing else is. -/
def ChunkedState.ofRemaining (remaining : Nat) : ChunkedState :=
  if h : remaining = 0 then .expectDataCrlf else .data remaining (Nat.pos_of_ne_zero h)

/-- The state behind a size line: the trailers when the size is zero. -/
def ChunkedState.ofSize (size : Nat) : ChunkedState :=
  if h : size = 0 then .trailerOrEnd else .data size (Nat.pos_of_ne_zero h)

/-- The state behind the empty line of a head. -/
def BodyState.ofFraming : BodyFramingMode → BodyState
  | .fixed n => .ofRemaining n
  | .none => .done
  | .chunked => .chunked .expectSize
  | .untilClose => .untilEof
  | .invalid => .untilEof

/-- Rust `ResponseCodec`. -/
structure ResponseCodec where
  bodyState : BodyState
  firstLine : Bool
  session : DeriverSession Matcher
  bodyFraming : Option BodyFramingMode
  deriving DecidableEq

/-- Rust `ResponseCodecItem`. -/
inductive ResponseCodecItem where
  | frame (f : HttpFrame)
  | body (bs : Bytes)
  deriving DecidableEq

namespace ResponseCodec

/-- Rust `ResponseCodec::new`. -/
def new : ResponseCodec := ⟨.headers, true, .new HttpDerivationInput.allMatchers, none⟩

/-- Rust `ResponseCodec::is_response_complete`. -/
def isResponseComplete (c : ResponseCodec) : Bool := c.bodyState == .done

/-- The error of a folded header line. -/
def obsFold : IoError := ⟨.invalidData, "obs-fold in response header (RFC 9112 §5.2)"⟩

/-- The request line that stands for a status line. -/
def synthetic (line : Bytes) : Bytes := lit "GET / " ++ extractStatusLineVersion line ++ crlf

/-- The codec behind the empty line. -/
def endHeaders (c : ResponseCodec) : ResponseCodec :=
  let derived := HttpDerivationInput.resolveAll c.session
  { c with bodyFraming := some derived.bodyFraming, bodyState := .ofFraming derived.bodyFraming }

/-- Rust `decode_headers`. -/
def decodeHeaders (c : ResponseCodec) (src : Bytes) :
    Except IoError (Option HttpFrame) × ResponseCodec × Bytes :=
  if src.isEmpty then (.ok none, c, src)
  else
    match findCrlf src with
    | some 0 => (.ok (some .endOfHeaders), c.endHeaders, src.drop 2)
    | some pos =>
      let isStatus := c.firstLine
      let c := { c with firstLine := false }
      if !isStatus && (src.headD 0 == sp || src.headD 0 == tab) then (.error obsFold, c, src)
      else
        let line := src.take (pos + 2)
        let src := src.drop (pos + 2)
        if isStatus then
          let session := (c.session.feed HttpPhase.statusLine line).feed .requestLine (synthetic line)
          (.ok (some (.statusLine line)), { c with session := session }, src)
        else
          (.ok (some (.header line)), { c with session := c.session.feed HttpPhase.header line }, src)
    | none => (.ok none, c, src)

/-- Rust `decode_fixed_length`. -/
def decodeFixedLength (c : ResponseCodec) (src : Bytes) (remaining : Nat) :
    Option Bytes × ResponseCodec × Bytes :=
  if src.isEmpty then (none, c, src)
  else
    let toTake := min remaining src.length
    (some (src.take toTake), { c with bodyState := .ofRemaining (remaining - toTake) },
      src.drop toTake)

/-- The size of a size line, or the message of the error. -/
def chunkSize (sizeLine : Bytes) : Except String Nat :=
  match Str.fromUtf8 sizeLine with
  | none => .error "invalid chunk size"
  | some s =>
    match Str.fromStrRadix 16 (Str.trim ((s.splitOn 59).headD s)) with
    | none => .error "invalid chunk size hex"
    | some size => .ok size

/-- Rust `decode_chunked`. -/
def decodeChunked (c : ResponseCodec) (src : Bytes) (state : ChunkedState) :
    Except IoError (Option Bytes) × ResponseCodec × Bytes :=
  match state with
  | .expectSize =>
    match findCrlf src with
    | none => (.ok none, c, src)
    | some pos =>
      match chunkSize (src.take pos) with
      | .error message => (.error ⟨.invalidData, message⟩, c, src)
      | .ok size =>
        (.ok (some (src.take (pos + 2))), { c with bodyState := .chunked (.ofSize size) },
          src.drop (pos + 2))
  | .data remaining _ =>
    if src.isEmpty then (.ok none, c, src)
    else
      let toTake := min remaining src.length
      (.ok (some (src.take toTake)),
        { c with bodyState := .chunked (.ofRemaining (remaining - toTake)) }, src.drop toTake)
  | .expectDataCrlf =>
    if src.length < 2 then (.ok none, c, src)
    else (.ok (some (src.take 2)), { c with bodyState := .chunked .expectSize }, src.drop 2)
  | .trailerOrEnd =>
    match findCrlf src with
    | some 0 => (.ok (some (src.take 2)), { c with bodyState := .done }, src.drop 2)
    | some pos => (.ok (some (src.take (pos + 2))), c, src.drop (pos + 2))
    | none => (.ok none, c, src)

/-- Rust `ResponseCodec::decode`. -/
def decode (c : ResponseCodec) (src : Bytes) :
    Except IoError (Option ResponseCodecItem) × ResponseCodec × Bytes :=
  match c.bodyState with
  | .headers =>
    match c.decodeHeaders src with
    | (.ok (some f), c, src) => (.ok (some (.frame f)), c, src)
    | (.ok none, c, src) => (.ok none, c, src)
    | (.error e, c, src) => (.error e, c, src)
  | .fixedLength remaining _ =>
    match c.decodeFixedLength src remaining with
    | (some bs, c, src) => (.ok (some (.body bs)), c, src)
    | (none, c, src) => (.ok none, c, src)
  | .chunked state =>
    match c.decodeChunked src state with
    | (.ok (some bs), c, src) => (.ok (some (.body bs)), c, src)
    | (.ok none, c, src) => (.ok none, c, src)
    | (.error e, c, src) => (.error e, c, src)
  | .untilEof =>
    if src.isEmpty then (.ok none, c, src) else (.ok (some (.body src)), c, [])
  | .done => (.ok none, c, src)

/-- Rust `ResponseCodec::decode_eof`. -/
def decodeEof (c : ResponseCodec) (buf : Bytes) :
    Except IoError (Option ResponseCodecItem) × ResponseCodec × Bytes :=
  match c.bodyState with
  | .untilEof =>
    if buf.isEmpty then (.ok none, { c with bodyState := .done }, buf)
    else (.ok (some (.body buf)), { c with bodyState := .done }, [])
  | .done => (.ok none, c, buf)
  | _ => c.decode buf

/-- Rust `impl Decoder for ResponseCodec`. -/
instance : Decoder ResponseCodec ResponseCodecItem IoError := ⟨decode, decodeEof⟩

/-! ## What a call does -/

/-- The codec behind a status line. -/
def afterStatus (c : ResponseCodec) (line : Bytes) : ResponseCodec :=
  { c with
    firstLine := false
    session := (c.session.feed HttpPhase.statusLine line).feed .requestLine (synthetic line) }

/-- The codec behind a header line. -/
def afterHeader (c : ResponseCodec) (line : Bytes) : ResponseCodec :=
  { c with firstLine := false, session := c.session.feed HttpPhase.header line }

section headers

variable {c : ResponseCodec} (hs : c.bodyState = .headers)
include hs

/-- Without a whole line of the head the codec waits. -/
lemma decode_noCrlf {b : Bytes} (h : NoCrlf b) : c.decode b = (.ok none, c, b) := by
  simp [decode, hs, decodeHeaders, findCrlf_none.2 h]

/-- The empty line ends the head. -/
lemma decode_empty (rest : Bytes) :
    c.decode (cr :: lf :: rest) = (.ok (some (.frame .endOfHeaders)), c.endHeaders, rest) := by
  have f : findCrlf (cr :: lf :: rest) = some 0 := findCrlf_line NoCrlf.nil rest
  simp [decode, hs, decodeHeaders, f]

/-- The first line is a status line, a later line an error when it is folded and a header otherwise. -/
lemma decode_line {l : Bytes} (ne : l ≠ []) (hl : NoCrlf l) (rest : Bytes) :
    c.decode (l ++ cr :: lf :: rest) =
      if c.firstLine then
        (.ok (some (.frame (.statusLine (l ++ crlf)))), c.afterStatus (l ++ crlf), rest)
      else if HttpStreamingCodec.IsFold l then
        (.error obsFold, { c with firstLine := false }, l ++ cr :: lf :: rest)
      else (.ok (some (.frame (.header (l ++ crlf)))), c.afterHeader (l ++ crlf), rest) := by
  have f := findCrlf_line hl rest
  obtain ⟨b, l, rfl⟩ := List.exists_cons_of_ne_nil ne
  have take := take_line (b :: l) rest
  have drop := drop_line (b :: l) rest
  rw [decode]
  simp only [hs, decodeHeaders, List.cons_append, List.isEmpty_cons, Bool.false_eq_true, if_false]
  rw [← List.cons_append, f]
  simp only [List.length_cons]
  rw [← List.length_cons (a := b), take, drop]
  cases hf : c.firstLine with
  | true => simp [afterStatus, hs]
  | false =>
    by_cases fold : HttpStreamingCodec.IsFold (b :: l)
    · have : b = sp ∨ b = tab := by simpa [HttpStreamingCodec.IsFold] using fold
      simp [fold, this]
    · have : ¬ (b = sp ∨ b = tab) := by simpa [HttpStreamingCodec.IsFold] using fold
      simp [fold, this, afterHeader, hs]

end headers

section body

variable {c : ResponseCodec}

/-- Of a body with a length, what is there of it is taken. -/
lemma decode_fixedLength {n : Nat} {pos} (hs : c.bodyState = .fixedLength n pos) {b : Bytes}
    (ne : b ≠ []) :
    c.decode b = (.ok (some (.body (b.take n))),
      { c with bodyState := .ofRemaining (n - b.length) }, b.drop n) := by
  have take : b.take (min n b.length) = b.take n := by simp [List.take_eq_take_iff]
  have drop : b.drop (min n b.length) = b.drop n := by simp [List.drop_eq_drop_iff]
  have sub : n - min n b.length = n - b.length := by omega
  simp [decode, hs, decodeFixedLength, ne, take, drop, sub]

/-- A size line is taken whole, or is refused. -/
lemma decode_expectSize {l : Bytes} (hs : c.bodyState = .chunked .expectSize) (hl : NoCrlf l)
    (rest : Bytes) :
    c.decode (l ++ cr :: lf :: rest) =
      match chunkSize l with
      | .error message => (.error ⟨.invalidData, message⟩, c, l ++ cr :: lf :: rest)
      | .ok size => (.ok (some (.body (l ++ crlf))),
          { c with bodyState := .chunked (.ofSize size) }, rest) := by
  simp only [decode, hs, decodeChunked, findCrlf_line hl rest, take_line, drop_line,
    List.take_left' rfl]
  cases chunkSize l <;> rfl

/-- Of the data of a chunk, what is there of it is taken. -/
lemma decode_data {n : Nat} {pos} (hs : c.bodyState = .chunked (.data n pos)) {b : Bytes}
    (ne : b ≠ []) :
    c.decode b = (.ok (some (.body (b.take n))),
      { c with bodyState := .chunked (.ofRemaining (n - b.length)) }, b.drop n) := by
  have take : b.take (min n b.length) = b.take n := by simp [List.take_eq_take_iff]
  have drop : b.drop (min n b.length) = b.drop n := by simp [List.drop_eq_drop_iff]
  have sub : n - min n b.length = n - b.length := by omega
  simp [decode, hs, decodeChunked, ne, take, drop, sub]

/-- Two bytes are taken behind the data. -/
lemma decode_dataCrlf (hs : c.bodyState = .chunked .expectDataCrlf) (x y : UInt8) (rest : Bytes) :
    c.decode (x :: y :: rest) =
      (.ok (some (.body [x, y])), { c with bodyState := .chunked .expectSize }, rest) := by
  have two : ¬ rest.length + 1 + 1 < 2 := by omega
  simp [decode, hs, decodeChunked, two]

/-- A trailer line is taken whole, and the empty one ends the body. -/
lemma decode_trailer {l : Bytes} (hs : c.bodyState = .chunked .trailerOrEnd) (hl : NoCrlf l)
    (rest : Bytes) :
    c.decode (l ++ cr :: lf :: rest) = (.ok (some (.body (l ++ crlf))),
      if l = [] then { c with bodyState := .done } else c, rest) := by
  have f := findCrlf_line hl rest
  cases l with
  | nil =>
    rw [List.length_nil] at f
    simp only [List.nil_append] at f
    simp [decode, hs, decodeChunked, f]
  | cons x l =>
    have take := take_line (x :: l) rest
    have drop := drop_line (x :: l) rest
    simp only [decode, hs, decodeChunked, f, List.length_cons]
    rw [← List.length_cons (a := x), take, drop]
    simp

/-- Of a body up to the end of the transport, all is taken. -/
lemma decode_untilEof (hs : c.bodyState = .untilEof) {b : Bytes} (ne : b ≠ []) :
    c.decode b = (.ok (some (.body b)), c, []) := by
  simp [decode, hs, ne]

/-- Behind the body nothing is taken. -/
lemma decode_done (hs : c.bodyState = .done) (b : Bytes) : c.decode b = (.ok none, c, b) := by
  simp [decode, hs]

end body

/-! ## The output does not depend on the cut -/

/-- The indivisible parts of an item: a frame, or the bytes of a piece of the body. -/
def atoms : ResponseCodecItem → List (HttpFrame ⊕ UInt8)
  | .frame f => [.inl f]
  | .body bs => bs.map .inr

section outcome

variable {c : ResponseCodec}

/-- The pieces of a body are cut anywhere. -/
lemma atoms_body_append (bs cs : Bytes) :
    atoms (.body (bs ++ cs)) = atoms (.body bs) ++ atoms (.body cs) := by
  simp [atoms]

/-- A body state that takes up to a number of bytes as they come. -/
lemma outcome_stream (st : Nat → ResponseCodec) {n : Nat} (pos : 0 < n)
    (nil : decode (st n) [] = (.ok none, st n, []))
    (take : ∀ n b, 0 < n → b ≠ [] →
      decode (st n) b = (.ok (some (.body (b.take n))), st (n - b.length), b.drop n))
    (b : Bytes) : Decoder.Outcome atoms (st n) b := by
  by_cases ne : b = []
  · subst ne
    refine .wait fun p hp => ?_
    rw [List.prefix_nil.1 hp]
    exact nil
  have taken : b.take n ≠ [] := by
    rw [ne_eq, List.take_eq_nil_iff, not_or]
    exact ⟨by omega, ne⟩
  have d := take n b pos ne
  have feed := Decoder.feedAll_stream st ResponseCodecItem.body atoms_body_append
    (fun n b ne le => by
      have d := take n b (lt_of_lt_of_le (List.length_pos_iff.2 ne) le) ne
      rw [List.take_of_length_le le, List.drop_of_length_le le] at d
      exact d) taken (List.length_take_le n b)
  have sub : n - (b.take n).length = n - b.length := by
    rw [List.length_take]
    omega
  rw [sub] at feed
  have split : b.take n ++ b.drop n = b := List.take_append_drop n b
  rw [← split]
  exact .item taken feed (by rw [split]; exact d)

/-- In the head a call comes to the same as the bytes one by one. -/
lemma outcome_headers (hs : c.bodyState = .headers) (b : Bytes) : Decoder.Outcome atoms c b := by
  refine outcome_line _ (fun b nc => decode_noCrlf hs nc) (fun l hl => ?_) b
  cases l with
  | nil => exact .inl ⟨_, _, decode_empty hs⟩
  | cons x l =>
    have d := decode_line hs (List.cons_ne_nil x l) hl
    by_cases first : c.firstLine = true
    · simp only [if_pos first] at d
      exact .inl ⟨_, _, d⟩
    by_cases fold : HttpStreamingCodec.IsFold (x :: l)
    · simp only [if_neg first, if_pos fold] at d
      exact .inr ⟨_, _, d⟩
    · simp only [if_neg first, if_neg fold] at d
      exact .inl ⟨_, _, d⟩

/-- So it does in front of a size line. -/
lemma outcome_expectSize (hs : c.bodyState = .chunked .expectSize) (b : Bytes) :
    Decoder.Outcome atoms c b := by
  refine outcome_line _ (fun b nc => ?_) (fun l hl => ?_) b
  · show c.decode b = _
    simp [decode, hs, decodeChunked, findCrlf_none.2 nc]
  · have d := decode_expectSize hs hl
    cases size : chunkSize l with
    | error message =>
      simp only [size] at d
      exact .inr ⟨_, _, d⟩
    | ok n =>
      simp only [size] at d
      exact .inl ⟨_, _, d⟩

/-- So it does behind the data. -/
lemma outcome_dataCrlf (hs : c.bodyState = .chunked .expectDataCrlf) (b : Bytes) :
    Decoder.Outcome atoms c b := by
  have short : ∀ b : Bytes, b.length < 2 → c.decode b = (.ok none, c, b) := by
    intro b lt
    simp [decode, hs, decodeChunked, lt]
  have waits : ∀ b : Bytes, b.length < 2 → Decoder.Waits c b :=
    fun b lt p hp => short p (lt_of_le_of_lt hp.length_le lt)
  match b with
  | [] => exact .wait (waits _ (by simp))
  | [x] => exact .wait (waits _ (by simp))
  | x :: y :: rest =>
    refine .item (e := [x] ++ [y]) (by simp) ?_ (decode_dataCrlf hs x y rest)
    exact Decoder.feedAll_token atoms (waits [x] (by simp)) (decode_dataCrlf hs x y [])

/-- So it does in the trailer. -/
lemma outcome_trailer (hs : c.bodyState = .chunked .trailerOrEnd) (b : Bytes) :
    Decoder.Outcome atoms c b := by
  refine outcome_line _ (fun b nc => ?_) (fun l hl => .inl ⟨_, _, decode_trailer hs hl⟩) b
  show c.decode b = _
  simp [decode, hs, decodeChunked, findCrlf_none.2 nc]

/-- So it does in a body up to the end of the transport. -/
lemma outcome_untilEof (hs : c.bodyState = .untilEof) (b : Bytes) : Decoder.Outcome atoms c b := by
  by_cases ne : b = []
  · subst ne
    refine .wait fun p hp => ?_
    rw [List.prefix_nil.1 hp]
    show c.decode [] = _
    simp [decode, hs]
  have feed := Decoder.feedAll_stream (fun _ => c) ResponseCodecItem.body atoms_body_append
    (fun n b ne _ => decode_untilEof hs ne) ne (Nat.le_refl b.length)
  have d := decode_untilEof hs ne
  rw [← List.append_nil b]
  exact .item ne feed (by rw [List.append_nil]; exact d)

end outcome

/-- The response codec is incremental, the atoms being its frames and the bytes of the body. -/
theorem incremental : Decoder.Incremental ResponseCodec atoms := by
  refine .of_outcome fun c b => ?_
  match hs : c.bodyState with
  | .headers => exact outcome_headers hs b
  | .fixedLength n pos =>
    have e : { c with bodyState := .ofRemaining n } = c := by
      rw [BodyState.ofRemaining, dif_neg (Nat.ne_of_gt pos), ← hs]
    rw [← e]
    refine outcome_stream (fun n => { c with bodyState := .ofRemaining n }) pos ?_ ?_ b
    · rw [e]
      simp [decode, hs, decodeFixedLength]
    · intro n b pos ne
      have st : BodyState.ofRemaining n = .fixedLength n pos := dif_neg (Nat.ne_of_gt pos)
      exact decode_fixedLength st ne
  | .chunked .expectSize => exact outcome_expectSize hs b
  | .chunked (.data n pos) =>
    have e : { c with bodyState := .chunked (.ofRemaining n) } = c := by
      rw [ChunkedState.ofRemaining, dif_neg (Nat.ne_of_gt pos), ← hs]
    rw [← e]
    refine outcome_stream (fun n => { c with bodyState := .chunked (.ofRemaining n) }) pos ?_ ?_ b
    · rw [e]
      simp [decode, hs, decodeChunked]
    · intro n b pos ne
      have st : ChunkedState.ofRemaining n = .data n pos := dif_neg (Nat.ne_of_gt pos)
      exact decode_data (congrArg BodyState.chunked st) ne
  | .chunked .expectDataCrlf => exact outcome_dataCrlf hs b
  | .chunked .trailerOrEnd => exact outcome_trailer hs b
  | .untilEof => exact outcome_untilEof hs b
  | .done => exact .wait fun p _ => decode_done hs p

end ResponseCodec

end Railscale.Http
