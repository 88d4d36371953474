import Railscale.Http.Frame
import Railscale.Http.Line
import Railscale.Lib.Decoder
import Mathlib.Data.List.Infix

/-!
# The request codec

Model of `carriage/src/http/codec.rs`: `HttpStreamingCodec` takes the lines of a request head off the
buffer, one frame a line, replaces the headers its matchers name, and emits nothing more once it has
seen the empty line. `HttpStreamingCodec.incremental` shows that its frames do not depend on how the
input was cut.
-/

namespace Railscale.Http

open Bytes

/-- Substring search (Rust `memmem::Finder::find(..).is_some()`). -/
def memmem (needle haystack : Bytes) : Bool := decide (needle <:+: haystack)

/-- Rust `HttpStreamingCodec`; a matcher is the needle of a `Finder` with its replacement value. -/
structure HttpStreamingCodec where
  done : Bool
  firstLine : Bool
  matchers : List (Bytes × Bytes)
  deriving DecidableEq

namespace HttpStreamingCodec

/-- Rust `HttpStreamingCodec::new`. -/
def new (matchers : List (Bytes × Bytes)) : HttpStreamingCodec := ⟨false, true, matchers⟩

/-- Rust `HttpStreamingCodec::reset`. -/
def reset (c : HttpStreamingCodec) : HttpStreamingCodec := { c with done := false, firstLine := true }

/-- The error of a folded header line. -/
def obsFold : IoError := ⟨.invalidData, "obs-fold in header (RFC 9112 §5.2)"⟩

/-- The replacement of a header (a line without its ending) by the first matcher that finds its
needle in the name. -/
def replaced (matchers : List (Bytes × Bytes)) (header : Bytes) : Option Bytes :=
  matchers.findSome? fun m => do
    let sep ← memchr 58 header
    let name := header.take sep
    if memmem m.1 name then some (name ++ lit ": " ++ m.2 ++ crlf) else none

/-- Rust `HttpStreamingCodec::decode`. -/
def decode (c : HttpStreamingCodec) (src : Bytes) :
    Except IoError (Option HttpFrame) × HttpStreamingCodec × Bytes :=
  if c.done || src.isEmpty then (.ok none, c, src)
  else
    match findCrlf src with
    | some 0 => (.ok (some .endOfHeaders), { c with done := true }, src.drop 2)
    | some pos =>
      let isRequestLine := c.firstLine
      let c := { c with firstLine := false }
      if !isRequestLine && (src.headD 0 == sp || src.headD 0 == tab) then (.error obsFold, c, src)
      else
        let line := src.take (pos + 2)
        let src := src.drop (pos + 2)
        if isRequestLine then (.ok (some (.requestLine line)), c, src)
        else
          match replaced c.matchers (line.take (line.length - 2)) with
          | some bytes => (.ok (some (.header bytes)), c, src)
          | none => (.ok (some (.header line)), c, src)
    | none => (.ok none, c, src)

/-- Rust `HttpStreamingCodec::decode_eof`. -/
def decodeEof (c : HttpStreamingCodec) (buf : Bytes) :
    Except IoError (Option HttpFrame) × HttpStreamingCodec × Bytes :=
  if c.done then (.ok none, c, buf) else c.decode buf

/-- Rust `impl Decoder for HttpStreamingCodec`. -/
instance : Decoder HttpStreamingCodec HttpFrame IoError := ⟨decode, decodeEof⟩

/-! ## What a call does -/

/-- A line that continues the one before it. -/
def IsFold (l : Bytes) : Prop := l.head? = some sp ∨ l.head? = some tab

/-- Whether a line is folded is decided on its first byte. -/
instance (l : Bytes) : Decidable (IsFold l) := inferInstanceAs (Decidable (_ ∨ _))

/-- The frame of a line. -/
def frameOf (c : HttpStreamingCodec) (l : Bytes) : HttpFrame :=
  if c.firstLine then .requestLine (l ++ crlf)
  else .header ((replaced c.matchers l).getD (l ++ crlf))

/-- Behind its head the codec takes nothing. -/
lemma decode_done {c : HttpStreamingCodec} (h : c.done = true) (src : Bytes) :
    c.decode src = (.ok none, c, src) := by
  simp [decode, h]

/-- Without a whole line the codec waits. -/
lemma decode_noCrlf {c : HttpStreamingCodec} {src : Bytes} (h : NoCrlf src) :
    c.decode src = (.ok none, c, src) := by
  simp [decode, findCrlf_none.2 h]

/-- The empty line ends the head. -/
lemma decode_empty {c : HttpStreamingCodec} (h : c.done = false) (rest : Bytes) :
    c.decode (cr :: lf :: rest) = (.ok (some .endOfHeaders), { c with done := true }, rest) := by
  have f : findCrlf (cr :: lf :: rest) = some 0 := findCrlf_line NoCrlf.nil rest
  simp [decode, h, f]

/-- A line is an error when it is folded and not the first, and a frame otherwise. -/
lemma decode_line {c : HttpStreamingCodec} {l : Bytes} (h : c.done = false) (ne : l ≠ [])
    (hl : NoCrlf l) (rest : Bytes) :
    c.decode (l ++ cr :: lf :: rest) =
      if c.firstLine = false ∧ IsFold l then
        (.error obsFold, { c with firstLine := false }, l ++ cr :: lf :: rest)
      else (.ok (some (c.frameOf l)), { c with firstLine := false }, rest) := by
  have f := findCrlf_line hl rest
  obtain ⟨b, l, rfl⟩ := List.exists_cons_of_ne_nil ne
  have take := take_line (b :: l) rest
  have drop := drop_line (b :: l) rest
  have cut : ((b :: l) ++ crlf).take (((b :: l) ++ crlf).length - 2) = b :: l := by
    simp
  rw [decode]
  simp only [h, Bool.false_or, List.cons_append, List.isEmpty_cons, Bool.false_eq_true, if_false]
  rw [← List.cons_append, f]
  simp only [List.length_cons]
  rw [← List.length_cons (a := b), take, drop, cut]
  cases hf : c.firstLine with
  | true => simp [frameOf, hf]
  | false =>
    by_cases fold : IsFold (b :: l)
    · have : b = sp ∨ b = tab := by simpa [IsFold] using fold
      simp [fold, this]
    · have : ¬ (b = sp ∨ b = tab) := by simpa [IsFold] using fold
      simp only [fold, and_false, if_false, Bool.not_false, Bool.true_and, List.cons_append,
        List.headD_cons, Bool.or_eq_true, beq_iff_eq, this]
      cases hr : replaced c.matchers (b :: l) <;> simp [frameOf, hf, hr]

/-- The request codec is incremental, its frames being the atoms. -/
theorem incremental : Decoder.Incremental HttpStreamingCodec (fun f : HttpFrame => [f]) := by
  refine .of_outcome fun c b => ?_
  rcases Bool.eq_false_or_eq_true c.done with h | h
  · exact .wait fun p _ => decode_done h p
  refine outcome_line _ (fun b nc => decode_noCrlf nc) (fun l hl => ?_) b
  cases l with
  | nil => exact .inl ⟨_, _, decode_empty h⟩
  | cons x l =>
    have d := decode_line h (List.cons_ne_nil x l) hl
    by_cases fold : c.firstLine = false ∧ IsFold (x :: l)
    · simp only [if_pos fold] at d
      exact .inr ⟨_, _, d⟩
    · simp only [if_neg fold] at d
      exact .inl ⟨_, _, d⟩

/-! ## Reads -/

/-- A codec that is done takes nothing more. -/
lemma drain_done {c c' : HttpStreamingCodec} {b b' : Bytes} {fs : List HttpFrame} {err : Option IoError}
    (done : c.done = true) (dr : Decoder.Drain c b fs c' b' err) : fs = [] ∧ c' = c ∧ b' = b ∧ err = none := by
  have waits : Decoder.decode c b = (.ok none, c, b) := decode_done done b
  cases dr with
  | none d =>
    cases waits.symm.trans d
    exact ⟨rfl, rfl, rfl, rfl⟩
  | error d => cases waits.symm.trans d
  | some d _ => cases waits.symm.trans d

/-- Neither does it when there are more reads: what is left at their end was left behind the empty line. -/
lemma reads_done {c : HttpStreamingCodec} {b : Bytes} {ds : List Bytes}
    {e : Decoder.End HttpStreamingCodec HttpFrame IoError}
    (done : c.done = true) (reads : Decoder.Reads c b ds e) : e = ⟨[], c, b ++ ds.flatten, [], none⟩ := by
  induction reads with
  | stop => rw [List.flatten_nil, List.append_nil]
  | read dr _ ih =>
    obtain ⟨rfl, rfl, rfl, -⟩ := drain_done done dr
    rw [ih done, List.flatten_cons, List.append_assoc]
    rfl
  | error dr =>
    obtain ⟨-, -, -, err⟩ := drain_done done dr
    cases err

/-- The frames of a head do not depend on how it is cut into reads: any reads of the same bytes are decoded, and
they give the same frames up to the same error, take the same bytes and leave the same flags. A codec that is done
takes nothing more (`reads_done`), so the bytes taken are those up to the end of the head. -/
theorem reads_alike (matchers : List (Bytes × Bytes)) {ds ds' : List Bytes} (same : ds.flatten = ds'.flatten) :
    (∃ e, Decoder.Reads (new matchers) [] ds e) ∧
      ∀ e e', Decoder.Reads (new matchers) [] ds e → Decoder.Reads (new matchers) [] ds' e' →
        e.out = e'.out ∧ e.err = e'.err ∧ e.codec.done = e'.codec.done ∧ e.codec.firstLine = e'.codec.firstLine ∧
          ∃ w, ds.flatten = w ++ (e.buffer ++ e.left.flatten) ∧ ds'.flatten = w ++ (e'.buffer ++ e'.left.flatten) := by
  have waits : Decoder.decode (new matchers) [] = (.ok none, new matchers, []) := decode_noCrlf NoCrlf.nil
  refine ⟨Decoder.Reads.total incremental _ _ ds, fun e e' reads reads' => ?_⟩
  have feed := reads.feed incremental waits
  have feed' := reads'.feed incremental waits
  rw [List.nil_append, same] at feed
  rw [List.nil_append, feed] at feed'
  obtain ⟨out, codec, rest, err⟩ := Decoder.Fed.mk.inj feed'
  rw [List.flatMap_singleton', List.flatMap_singleton'] at out
  obtain ⟨w, whole⟩ := reads.suffix incremental
  rw [List.nil_append] at whole
  refine ⟨out, err, congrArg done codec, congrArg firstLine codec, w, whole.symm, ?_⟩
  rw [← same, ← rest, whole]

/-- A head with a folded line, in one read and cut inside of a line ending and around the blank. -/
theorem reads_alike_fold :
    ∃ e e', Decoder.Reads (new []) [] [lit "GET / HTTP/1.1\r\nHost: a\r\n b\r\n\r\n"] e ∧
      Decoder.Reads (new []) [] [lit "GET / HTTP/1.1\r", lit "\nHost: a\r\n", lit " ", lit "b\r\n\r\n"] e' ∧
      e.out = [.requestLine (lit "GET / HTTP/1.1\r\n"), .header (lit "Host: a\r\n")] ∧ e.err = some obsFold ∧
      e'.out = e.out ∧ e'.err = e.err ∧ e'.codec.firstLine = false := by
  have whole : Decoder.Reads (new []) [] [lit "GET / HTTP/1.1\r\nHost: a\r\n b\r\n\r\n"]
      ⟨[.requestLine (lit "GET / HTTP/1.1\r\n"), .header (lit "Host: a\r\n")], ⟨false, false, []⟩,
        lit " b\r\n\r\n", [], some obsFold⟩ :=
    .error (.some rfl (.some rfl (.error rfl)))
  have same : [lit "GET / HTTP/1.1\r", lit "\nHost: a\r\n", lit " ", lit "b\r\n\r\n"].flatten =
      [lit "GET / HTTP/1.1\r\nHost: a\r\n b\r\n\r\n"].flatten := rfl
  obtain ⟨⟨e', cut⟩, alike⟩ := reads_alike [] same
  obtain ⟨out, err, -, firstLine, -⟩ := alike e' _ cut whole
  exact ⟨_, e', whole, cut, rfl, rfl, out, err, firstLine⟩

end HttpStreamingCodec

end Railscale.Http
