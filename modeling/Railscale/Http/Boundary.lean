import Railscale.Http.Message
import Railscale.Http.Parser

/-!
# Where a request ends

A cycle of `HttpFrameStream` ends with whatever the read buffer holds when the empty line is decoded,
so it ends with the read that completes the head. `cycles_iff_aligned` says what that means for a
connection that carries well-formed requests: its cycles are the requests exactly when every request
ends with the read that completes its head.
-/

namespace Railscale.Http

open Bytes AsyncStream ReadResult

namespace HttpFrameStream

/-- The items between one `None` and the next, concatenated, for a number of cycles. -/
inductive Cycles : HttpFrameStream → List Bytes → HttpFrameStream → Prop where
  | nil {s} :
    Cycles s [] s
  | cons {s is s1 bss s'} :
    Collect s is none s1 →
    Cycles s1 bss s' →
    Cycles s (is.flatMap ParsedData.raw :: bss) s'

/-- The stream is inside a head. -/
structure InHead (s : HttpFrameStream) : Prop where
  headersDone : s.headersDone = false
  yieldedNone : s.yieldedNone = false
  live : s.inner.Live
  done : s.inner.codec.done = false
  matchers : s.inner.codec.matchers = []
  waiting : s.inner.isReadable = false → NoCrlf s.inner.buffer
  proper : ∀ r ∈ s.inner.reads, r.Proper

/-- The stream has just ended a cycle. -/
structure Ended (s : HttpFrameStream) : Prop where
  headersDone : s.headersDone = true
  yieldedNone : s.yieldedNone = true
  live : s.inner.Live
  buffer : s.inner.buffer = []
  matchers : s.inner.codec.matchers = []
  proper : ∀ r ∈ s.inner.reads, r.Proper

/-- Header lines that the codec takes in its present state. -/
structure Takes (c : HttpStreamingCodec) (ls : List Bytes) : Prop where
  line : ∀ l ∈ ls, IsLine l
  noFold : ∀ l ∈ (if c.firstLine then ls.tail else ls), ¬ HttpStreamingCodec.IsFold l

/-- Without matchers the frame of a line is the line. -/
lemma raw_frameOf {c : HttpStreamingCodec} (h : c.matchers = []) (l : Bytes) :
    (ParsedData.parsed (c.frameOf l)).raw = l ++ crlf := by
  simp only [ParsedData.raw, HttpStreamingCodec.frameOf, h]
  split
  · rfl
  · simp [HttpStreamingCodec.replaced, HttpFrame.header, Frame.asBytes]

/-- The frame of a line is not the end of the head. -/
lemma isEndOfHeaders_frameOf (c : HttpStreamingCodec) (l : Bytes) :
    (c.frameOf l).isEndOfHeaders = false := by
  rw [HttpStreamingCodec.frameOf]
  split <;> rfl

/-- The lines behind the first are taken by a codec that is past its first line. -/
lemma Takes.tail {c c' : HttpStreamingCodec} {l : Bytes} {ls : List Bytes}
    (takes : Takes c (l :: ls)) (h : c'.firstLine = false) : Takes c' ls := by
  refine ⟨fun x hx => takes.line x (List.mem_cons_of_mem _ hx), ?_⟩
  rw [h]
  intro x hx
  apply takes.noFold
  split
  · exact hx
  · exact List.mem_cons_of_mem _ hx

/-- A buffer without a line ending does not hold the head. -/
lemma length_lt_of_noCrlf {b w hd rest : Bytes} (nc : NoCrlf b) (e : b ++ w = hd ++ crlf ++ rest) :
    b.length < (hd ++ crlf).length := by
  by_contra le
  apply nc
  have pre : hd ++ crlf <+: b := by
    refine List.prefix_of_prefix_length_le ⟨rest, e.symm⟩ ⟨w, rfl⟩ (Nat.le_of_not_lt le)
  exact (List.suffix_append hd crlf).isInfix.trans pre.isInfix

/-- How many bytes of the head are still to be read. -/
def missing (s : HttpFrameStream) (ls : List Bytes) : Nat :=
  (unlines ls ++ crlf).length - s.inner.buffer.length

/-- The rest of a head, its lines being `ls`, is collected up to the read that completes it. -/
def CollectsHead (s : HttpFrameStream) (ls : List Bytes) : Prop :=
  ∃ is s', Collect s is none s' ∧ Ended s' ∧
    is.flatMap ParsedData.raw = s.inner.buffer ++ all (upto (missing s ls) s.inner.reads).1 ∧
    s'.inner.reads = (upto (missing s ls) s.inner.reads).2 ∧
    (ls ≠ [] → ∃ f is', is = .parsed f :: is')

/-- A head is collected across a pending read, when the buffer has no whole line. -/
lemma CollectsHead.of_pending {s : HttpFrameStream} {ls : List Bytes} {rs}
    (inHead : InHead s) (nc : NoCrlf s.inner.buffer) (pos : 0 < missing s ls)
    (reads : s.inner.reads = .pending :: rs)
    (later : CollectsHead { s with inner := { s.inner with isReadable := false, reads := rs } } ls) :
    CollectsHead s ls := by
  obtain ⟨is, s', coll, ended, raw, left, first⟩ := later
  have turn := FramedRead.turn_pending inHead.live
    (fun _ => HttpStreamingCodec.decode_noCrlf nc) reads
  refine ⟨is, s', ?_, ended, ?_, ?_, first⟩
  · exact (Collect.congr fun o s' => next_iff_of_pending inHead.headersDone turn).2 coll
  · rw [raw, reads, upto_cons pos]
    rfl
  · rw [left, reads, upto_cons pos]
    rfl

/-- A head is collected across a read, when the buffer has no whole line. -/
lemma CollectsHead.of_data {s : HttpFrameStream} {ls : List Bytes} {d rs}
    (inHead : InHead s) (nc : NoCrlf s.inner.buffer) (pos : 0 < missing s ls)
    (reads : s.inner.reads = .data d :: rs) (ne : d ≠ [])
    (later : CollectsHead { s with inner :=
      { s.inner with buffer := s.inner.buffer ++ d, isReadable := true, reads := rs } } ls) :
    CollectsHead s ls := by
  obtain ⟨is, s', coll, ended, raw, left, first⟩ := later
  have turn := FramedRead.turn_data inHead.live
    (fun _ => HttpStreamingCodec.decode_noCrlf nc) reads ne
  have less : missing s ls - d.length = (unlines ls ++ crlf).length - (s.inner.buffer ++ d).length := by
    simp only [missing, List.length_append]
    omega
  refine ⟨is, s', ?_, ended, ?_, ?_, first⟩
  · exact (Collect.congr fun o s' => next_iff_of_turn inHead.headersDone turn).2 coll
  · rw [raw, reads, upto_cons pos, all_cons, bytes, less, List.append_assoc]
    rfl
  · rw [left, reads, upto_cons pos, bytes, less]
    rfl

/-- A line of a head comes out as one item. -/
lemma CollectsHead.of_line {s : HttpFrameStream} {l b : Bytes} {ls : List Bytes}
    (inHead : InHead s) (line : IsLine l)
    (noFold : ¬ (s.inner.codec.firstLine = false ∧ HttpStreamingCodec.IsFold l))
    (buffer : s.inner.buffer = l ++ cr :: lf :: b) (readable : s.inner.isReadable = true)
    (later : CollectsHead { s with inner :=
      { s.inner with codec := { s.inner.codec with firstLine := false }, buffer := b } } ls) :
    CollectsHead s (l :: ls) := by
  obtain ⟨is, s', coll, ended, raw, left, -⟩ := later
  have decode := HttpStreamingCodec.decode_line inHead.done line.ne line.noCrlf b
  rw [if_neg noFold, ← buffer] at decode
  have next := next_of_turn inHead.headersDone (FramedRead.turn_item inHead.live readable decode)
  simp only [onHead, isEndOfHeaders_frameOf] at next
  have same : missing s (l :: ls) = (unlines ls ++ crlf).length - b.length := by
    simp only [missing, buffer, unlines_cons, List.length_append, List.length_cons, List.length_nil]
    omega
  refine ⟨_, s', .item next coll, ended, ?_, ?_, fun _ => ⟨_, _, rfl⟩⟩
  · rw [List.flatMap_cons, raw_frameOf inHead.matchers, raw, same, buffer]
    simp [missing]
  · rw [left, same]
    rfl

/-- The empty line ends the head. -/
lemma CollectsHead.of_empty {s : HttpFrameStream} {b : Bytes} (inHead : InHead s)
    (buffer : s.inner.buffer = cr :: lf :: b) (readable : s.inner.isReadable = true) :
    CollectsHead s [] := by
  have decode := HttpStreamingCodec.decode_empty inHead.done b
  rw [← buffer] at decode
  have next := next_of_turn inHead.headersDone (FramedRead.turn_item inHead.live readable decode)
  simp only [onHead, HttpFrame.isEndOfHeaders, HttpFrame.endOfHeaders, beq_self_eq_true, if_true]
    at next
  have zero : missing s [] = 0 := by
    simp only [missing, buffer, unlines_nil, List.length_append, List.length_cons, List.length_nil]
    omega
  refine ⟨_, _, .item next (.none (next_end rfl rfl inHead.yieldedNone)), ?_, ?_, ?_,
    fun h => absurd rfl h⟩
  · exact ⟨rfl, rfl, ⟨inHead.live.noError, inHead.live.noEof⟩, rfl, inHead.matchers, inHead.proper⟩
  · simp [zero, buffer, ParsedData.raw]
  · simp [zero]

/-- A stream inside a head collects the rest of it. Each turn takes a line of the head or a read, so
the induction is on how many of both there are. -/
theorem collectsHead {n : Nat} {s : HttpFrameStream} {ls : List Bytes} {rest : Bytes}
    (hn : ls.length + s.inner.reads.length < n) (inHead : InHead s) (takes : Takes s.inner.codec ls)
    (e : s.inner.buffer ++ all s.inner.reads = unlines ls ++ crlf ++ rest) : CollectsHead s ls := by
  induction n generalizing s ls with
  | zero => omega
  | succ n ih =>
    rcases line_or_noCrlf s.inner.buffer with nc | ⟨l, b, hl, buffer⟩
    · -- the decoder waits, so the stream reads
      have pos : 0 < missing s ls := Nat.sub_pos_of_lt (length_lt_of_noCrlf nc e)
      cases reads : s.inner.reads with
      | nil =>
        have lt := length_lt_of_noCrlf nc e
        have len := congrArg List.length e
        simp only [reads, all_nil, List.append_nil, List.length_append] at len lt
        omega
      | cons r rs =>
        have proper := inHead.proper
        rw [reads] at hn e proper
        have later : ∀ r' ∈ rs, r'.Proper := fun r' hr' => proper r' (List.mem_cons_of_mem _ hr')
        cases r with
        | pending =>
          apply CollectsHead.of_pending inHead nc pos reads
          apply ih
          · simp only [List.length_cons] at hn ⊢
            omega
          · exact { inHead with
              live := ⟨inHead.live.noError, inHead.live.noEof⟩
              waiting := fun _ => nc
              proper := later }
          · exact takes
          · exact e
        | data d =>
          apply CollectsHead.of_data inHead nc pos reads (proper _ List.mem_cons_self)
          apply ih
          · simp only [List.length_cons] at hn ⊢
            omega
          · exact { inHead with live := ⟨inHead.live.noError, inHead.live.noEof⟩, waiting := nofun, proper := later }
          · exact takes
          · rw [all_cons, bytes, ← List.append_assoc] at e
            exact e
        | error err => exact (proper _ List.mem_cons_self).elim
    · have readable : s.inner.isReadable = true := by
        by_contra h
        have nc := inHead.waiting (by simpa using h)
        rw [buffer] at nc
        exact nc ⟨l, b, by simp⟩
      rw [buffer] at e
      cases ls with
      | nil =>
        have e' : l ++ cr :: lf :: (b ++ all s.inner.reads) = [] ++ cr :: lf :: rest := by simpa using e
        obtain ⟨rfl, -⟩ := line_unique hl NoCrlf.nil e'
        exact .of_empty inHead buffer readable
      | cons l' ls =>
        have line := takes.line l' List.mem_cons_self
        have e' : l ++ cr :: lf :: (b ++ all s.inner.reads) =
            l' ++ cr :: lf :: (unlines ls ++ crlf ++ rest) := by simpa using e
        obtain ⟨rfl, rest_eq⟩ := line_unique hl line.noCrlf e'
        have noFold : ¬ (s.inner.codec.firstLine = false ∧ HttpStreamingCodec.IsFold l) := by
          rintro ⟨first, fold⟩
          have nf := takes.noFold
          rw [first] at nf
          exact nf l List.mem_cons_self fold
        apply CollectsHead.of_line inHead line noFold buffer readable
        apply ih
        · simp only [List.length_cons] at hn ⊢
          omega
        · exact { inHead with live := ⟨inHead.live.noError, inHead.live.noEof⟩, waiting := by simp [readable] }
        · exact takes.tail rfl
        · exact rest_eq

/-! ## Cycles and requests -/

/-- The stream is at the start of a cycle, with nothing read ahead. -/
inductive Ready : HttpFrameStream → Prop where
  | fresh {s} :
    InHead s →
    s.inner.codec.firstLine = true →
    s.inner.buffer = [] →
    Ready s
  | again {s} :
    Ended s →
    Ready s

/-- Behind a cycle the next one is in its head. -/
lemma Ended.inHead_reset {s : HttpFrameStream} (ended : Ended s) : InHead (reset s) :=
  ⟨rfl, rfl, ⟨ended.live.noError, ended.live.noEof⟩, rfl, ended.matchers,
    fun _ => ended.buffer ▸ NoCrlf.nil, ended.proper⟩

/-- The lines of a head are taken by a codec before its first line. -/
lemma Head.takes (h : Head) {c : HttpStreamingCodec} (first : c.firstLine = true) :
    Takes c h.lines :=
  ⟨h.headLines.line, by rw [first]; exact h.headLines.noFold⟩

/-- A cycle that starts with a well-formed head forwards everything up to the end of the read that
completes it. -/
theorem Ready.cycle {s : HttpFrameStream} (ready : Ready s) (h : Head) {rest : Bytes}
    (e : all s.inner.reads = h.bytes ++ rest) :
    ∃ is s', Collect s is none s' ∧ Ended s' ∧
      is.flatMap ParsedData.raw = all (upto h.bytes.length s.inner.reads).1 ∧
      s'.inner.reads = (upto h.bytes.length s.inner.reads).2 := by
  cases ready with
  | fresh inHead first buffer =>
    obtain ⟨is, s', coll, ended, raw, left, -⟩ := collectsHead (Nat.lt_succ_self _) inHead
      (Head.takes h first) (by rw [buffer]; exact e)
    have all_missing : missing s h.lines = h.bytes.length := by
      rw [missing, buffer]
      rfl
    rw [all_missing] at raw left
    rw [buffer] at raw
    exact ⟨is, s', coll, ended, raw, left⟩
  | again ended0 =>
    have buffer : (reset s).inner.buffer = [] := ended0.buffer
    obtain ⟨is, s', coll, ended, raw, left, first⟩ := collectsHead (Nat.lt_succ_self _)
      ended0.inHead_reset (Head.takes h rfl) (by rw [buffer]; exact e)
    have all_missing : missing (reset s) h.lines = h.bytes.length := by
      rw [missing, buffer]
      rfl
    rw [all_missing] at raw left
    rw [buffer] at raw
    -- the first item is a frame, which the stream emits in the same way after a reset
    obtain ⟨f, is', rfl⟩ := first (by simp [Head.lines])
    cases coll with
    | item next coll =>
      have next := next_of_reset ended0.headersDone ended0.buffer ended0.yieldedNone next nofun
      exact ⟨_, s', .item next coll, ended, raw, left⟩

/-- Every request ends with the read that completes its head. -/
def Aligned : List Request → List (ReadResult IoError) → Prop
  | [], _ => True
  | r :: rs, reads =>
    all (upto r.head.bytes.length reads).1 = r.bytes ∧
      Aligned rs (upto r.head.bytes.length reads).2

/-- A stream that is ready gives the requests cycle by cycle exactly when they are aligned with its reads. -/
lemma Ready.cycles_iff {s : HttpFrameStream} (ready : Ready s) {rs : List Request}
    (e : all s.inner.reads = rs.flatMap Request.bytes) :
    (∃ s', Cycles s (rs.map Request.bytes) s') ↔ Aligned rs s.inner.reads := by
  induction rs generalizing s with
  | nil => exact ⟨fun _ => trivial, fun _ => ⟨s, .nil⟩⟩
  | cons r rs ih =>
    have e' : all s.inner.reads = r.head.bytes ++ (r.body ++ rs.flatMap Request.bytes) := by
      rw [e, List.flatMap_cons, Request.bytes, List.append_assoc]
    obtain ⟨is, s1, coll, ended, raw, left⟩ := ready.cycle r.head e'
    have later : all (upto r.head.bytes.length s.inner.reads).1 = r.bytes →
        all s1.inner.reads = rs.flatMap Request.bytes := by
      intro h
      have cut := congrArg all (upto_append r.head.bytes.length s.inner.reads)
      rw [all_append, h, e, List.flatMap_cons, ← left] at cut
      exact List.append_cancel_left cut
    constructor
    · rintro ⟨s', cycles⟩
      -- the first cycle is what the stream makes of the first head, in whatever way it is cut
      generalize hb : (r :: rs).map Request.bytes = bss at cycles
      cases cycles with
      | nil => cases hb
      | cons coll' cycles =>
        obtain ⟨rfl, -, rfl⟩ := coll.unique coll'
        obtain ⟨hr, hrs⟩ := List.cons.inj hb
        have here : all (upto r.head.bytes.length s.inner.reads).1 = r.bytes := by
          rw [← raw, ← hr]
        subst hrs
        have tail := (ih (.again ended) (later here)).1 ⟨s', cycles⟩
        exact ⟨here, left ▸ tail⟩
    · rintro ⟨here, tail⟩
      rw [← left] at tail
      obtain ⟨s', cycles⟩ := (ih (.again ended) (later here)).2 tail
      refine ⟨s', ?_⟩
      rw [List.map_cons, ← here, ← raw]
      exact .cons coll cycles

end HttpFrameStream

open HttpFrameStream

/-- On a connection that carries well-formed requests, whatever the segmentation, the cycles of the
stream are the requests if and only if each request ends with the read that completes its head. -/
theorem HttpParser.cycles_iff_aligned (rs : List Request) (reads : List (ReadResult IoError))
    (proper : ∀ r ∈ reads, r.Proper) (e : all reads = rs.flatMap Request.bytes) :
    (∃ s', Cycles (HttpParser.parse [] reads) (rs.map Request.bytes) s') ↔ Aligned rs reads :=
  Ready.cycles_iff (s := HttpParser.parse [] reads)
    (.fresh ⟨rfl, rfl, ⟨rfl, rfl⟩, rfl, rfl, fun _ => NoCrlf.nil, proper⟩ rfl rfl) e

/-- A request without a body. -/
def getRequest : Request where
  head :=
    { startLine := lit "GET / HTTP/1.1"
      headers := [lit "Host: a"]
      startLine_ok := ⟨by decide, by decide⟩
      headers_ok := by
        intro l hl
        obtain rfl := List.mem_singleton.1 hl
        exact ⟨⟨by decide, by decide⟩, by decide⟩ }
  body := []
  body_ok := by
    rw [Head.requestFraming, resolveAll_feedAll]
    rfl

/-- Two requests that come in a read each are two cycles. -/
theorem HttpParser.cycles_iff_aligned_two :
    ∃ s', Cycles (HttpParser.parse [] [.data getRequest.bytes, .pending, .data getRequest.bytes])
      [getRequest.bytes, getRequest.bytes] s' :=
  (HttpParser.cycles_iff_aligned [getRequest, getRequest]
    [.data getRequest.bytes, .pending, .data getRequest.bytes]
    (by decide) (by decide)).2 ⟨by decide, by decide, trivial⟩

/-- Two requests that come in one read are not two cycles. -/
theorem HttpParser.cycles_pipelined :
    (∀ r ∈ [ReadResult.data (ε := IoError) (getRequest.bytes ++ getRequest.bytes)], r.Proper) ∧
    all [ReadResult.data (ε := IoError) (getRequest.bytes ++ getRequest.bytes)] =
      [getRequest, getRequest].flatMap Request.bytes ∧
    ¬ ∃ s', Cycles (HttpParser.parse [] [.data (getRequest.bytes ++ getRequest.bytes)])
      ([getRequest, getRequest].map Request.bytes) s' := by
  have proper : ∀ r ∈ [ReadResult.data (ε := IoError) (getRequest.bytes ++ getRequest.bytes)],
      r.Proper := by decide
  have bytes : all [ReadResult.data (ε := IoError) (getRequest.bytes ++ getRequest.bytes)] =
      [getRequest, getRequest].flatMap Request.bytes := by decide
  refine ⟨proper, bytes, ?_⟩
  intro cycles
  have aligned := (Ready.cycles_iff (s := HttpParser.parse [] [.data _])
    (.fresh ⟨rfl, rfl, ⟨rfl, rfl⟩, rfl, rfl, fun _ => NoCrlf.nil, proper⟩ rfl rfl) bytes).1 cycles
  have first : all (upto getRequest.head.bytes.length [ReadResult.data (ε := IoError)
      (getRequest.bytes ++ getRequest.bytes)]).1 = getRequest.bytes := aligned.1
  revert first
  decide

end Railscale.Http
