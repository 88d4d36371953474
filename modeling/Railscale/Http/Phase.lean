import Railscale.Http.Conservation

/-!
# The phase of the request stream

`HttpFrameStream` keeps whether its head is complete in `headers_done`, and its codec keeps the same in
`done`. The poll that starts the next head passes the first frame on without looking at it: when that is
the empty line the codec is done and the stream is not (`agrees_iff_clear`), and no frame follows any more
(`stuck_poll`).
-/

namespace Railscale.Http

open Bytes ReadResult

/-! ## What a poll does to the codec -/

namespace HttpStreamingCodec

/-- A codec that is not done becomes so with the empty line and not otherwise; one that is done gives
nothing more. -/
def Advances (c : HttpStreamingCodec) (o : Option HttpFrame) (c' : HttpStreamingCodec) : Prop :=
  if c.done then o = none ∧ c'.done = true else c'.done = o.any (·.isEndOfHeaders)

/-- The frame of a line is not the end of the head. -/
lemma frameOf_isEndOfHeaders (c : HttpStreamingCodec) (l : Bytes) :
    (c.frameOf l).isEndOfHeaders = false := by
  rw [frameOf]
  split <;> rfl

/-- A call of the codec advances it with the empty line only. -/
lemma decode_advances {c c' : HttpStreamingCodec} {b b' : Bytes} {r} (h : c.decode b = (r, c', b')) :
    Advances c (FramedRead.callItem r) c' := by
  cases done : c.done with
  | true =>
    rw [decode_done done] at h
    cases h
    simp [Advances, done, FramedRead.callItem]
  | false =>
    rcases line_or_noCrlf b with noLine | ⟨l, rest, hl, rfl⟩
    · rw [decode_noCrlf noLine] at h
      cases h
      simp [Advances, done, FramedRead.callItem]
    cases l with
    | nil =>
      rw [List.nil_append, decode_empty done] at h
      cases h
      simp [Advances, done, FramedRead.callItem, HttpFrame.isEndOfHeaders, HttpFrame.endOfHeaders]
    | cons x l =>
      rw [decode_line done (List.cons_ne_nil x l) hl] at h
      split at h
      · cases h
        simp [Advances, done, FramedRead.callItem]
      · cases h
        simp [Advances, done, FramedRead.callItem, frameOf_isEndOfHeaders]

/-- So does every call, at the end of the transport too. -/
lemma tracks : FramedRead.Tracks (ε := IoError) Advances where
  refl {c} := by cases done : c.done <;> simp [Advances, done]
  trans {c c1 o c2} h1 h2 := by
    have same : c1.done = c.done := by
      cases done : c.done with
      | true =>
        simp only [Advances, done, if_true] at h1
        exact h1.2
      | false =>
        simp only [Advances, done, Bool.false_eq_true, if_false] at h1
        exact h1
    rw [Advances, same] at h2
    exact h2
  decode h := decode_advances h
  decodeEof {c b r c' b'} h := by
    have h : c.decodeEof b = (r, c', b') := h
    rw [decodeEof] at h
    split at h
    · rename_i done
      cases h
      simp [Advances, done, FramedRead.callItem]
    · exact decode_advances h

end HttpStreamingCodec

/-! ## The first poll after a reset -/

/-- The bytes that the transport gives without waiting: those up to the first read that is not ready,
fails or reports the end. -/
def readyBytes {ε : Type} : List (ReadResult ε) → Bytes
  | .data (b :: bs) :: rs => b :: bs ++ readyBytes rs
  | _ => []

/-- Without a line end the bytes do not begin with one. -/
lemma NoCrlf.not_prefix {l : Bytes} (h : NoCrlf l) : ¬ crlf <+: l ++ [] := by
  rw [List.append_nil]
  exact fun pre => h pre.isInfix

/-- Only the empty line begins with its ending. -/
lemma crlf_prefix_line {l : Bytes} (hl : NoCrlf l) (rest : Bytes) : l = [] ↔ crlf <+: l ++ cr :: lf :: rest := by
  constructor
  · rintro rfl
    exact ⟨rest, rfl⟩
  · rintro ⟨tail, e⟩
    match l with
    | [] => rfl
    | [x] =>
      injection e with _ e
      injection e with e _
      exact absurd e (by decide)
    | x :: y :: l =>
      injection e with ex e
      injection e with ey _
      subst ex ey
      exact absurd (List.prefix_append crlf l).isInfix hl

namespace HttpFrameStream

open HttpStreamingCodec

/-- At the end of the transport part of a line stays where it is. -/
lemma poll_partEof {s : FramedRead HttpStreamingCodec IoError} (ok : s.hasErrored = false)
    (readable : s.isReadable = true) (eof : s.eof = true) (notDone : s.codec.done = false) (part : NoCrlf s.buffer) :
    s.poll.2.codec.done = false := by
  have d : Decoder.decodeEof (ι := HttpFrame) (ε := IoError) s.codec s.buffer =
      (.ok none, s.codec, s.buffer) := by
    show s.codec.decodeEof s.buffer = _
    simp [decodeEof, notDone, decode_noCrlf part]
  rw [FramedRead.poll_eq, FramedRead.turn_ended ok eof readable d]
  exact notDone

/-- What a poll makes of a buffer with a line. -/
lemma poll_line {s : FramedRead HttpStreamingCodec IoError} (live : s.Live) (readable : s.isReadable = true)
    (notDone : s.codec.done = false) {l rest : Bytes} (hl : NoCrlf l) (buffer : s.buffer = l ++ cr :: lf :: rest) :
    s.poll.2.codec.done = true ↔ l = [] := by
  cases l with
  | nil =>
    have d : Decoder.decode s.codec s.buffer = (.ok (some .endOfHeaders), { s.codec with done := true }, rest) := by
      rw [buffer]
      exact decode_empty notDone rest
    rw [FramedRead.poll_eq, FramedRead.turn_item live readable d]
    exact iff_of_true rfl rfl
  | cons x l =>
    have d := decode_line notDone (List.cons_ne_nil x l) hl rest
    rw [← buffer] at d
    split at d
    · rw [FramedRead.poll_eq, FramedRead.turn_error live readable d]
      exact iff_of_false (by simp [notDone]) (List.cons_ne_nil x l)
    · rw [FramedRead.poll_eq, FramedRead.turn_item live readable d]
      exact iff_of_false (by simp [notDone]) (List.cons_ne_nil x l)

/-- A poll that starts on part of a line ends the head when the bytes at hand begin with the line
ending. -/
lemma poll_done_iff {s : FramedRead HttpStreamingCodec IoError} (live : s.Live) (notDone : s.codec.done = false)
    (part : NoCrlf s.buffer) :
    s.poll.2.codec.done = true ↔ crlf <+: s.buffer ++ readyBytes s.reads := by
  generalize hr : s.reads = reads
  -- each turn takes one read, and only a read of some bytes goes on to the next turn
  induction reads generalizing s with
  | nil =>
    have waiting : s.Waiting := fun _ => decode_noCrlf part
    rw [FramedRead.poll_eq, FramedRead.turn_eof live waiting hr]
    refine iff_of_false ?_ (part.not_prefix)
    exact ne_true_of_eq_false (poll_partEof live.noError rfl rfl notDone part)
  | cons r reads ih =>
    have waiting : s.Waiting := fun _ => decode_noCrlf part
    match r with
    | .pending =>
      rw [FramedRead.poll_eq, FramedRead.turn_pending live waiting hr]
      exact iff_of_false (ne_true_of_eq_false notDone) (part.not_prefix)
    | .error e =>
      rw [FramedRead.poll_eq, FramedRead.turn_readError live waiting hr]
      exact iff_of_false (ne_true_of_eq_false notDone) (part.not_prefix)
    | .data [] =>
      rw [FramedRead.poll_eq, FramedRead.turn_readNothing live waiting hr]
      refine iff_of_false ?_ (part.not_prefix)
      exact ne_true_of_eq_false (poll_partEof live.noError rfl rfl notDone part)
    | .data (b :: bs) =>
      rw [FramedRead.poll_eq, FramedRead.turn_data live waiting hr (List.cons_ne_nil b bs), readyBytes,
        ← List.append_assoc]
      rcases line_or_noCrlf (s.buffer ++ b :: bs) with part' | ⟨l, rest, hl, line⟩
      · exact ih ⟨live.noError, live.noEof⟩ notDone part' rfl
      · have found := poll_line (s := { s with buffer := s.buffer ++ b :: bs, isReadable := true, reads := reads })
          ⟨live.noError, live.noEof⟩ rfl notDone hl line
        rw [found, line, List.append_assoc]
        exact crlf_prefix_line hl _

/-! ## The two flags over any number of polls -/

/-- The stream and its codec agree on the phase. -/
def Agrees (s : HttpFrameStream) : Prop := s.headersDone = s.inner.codec.done

/-- Whether the phases agree is decided by comparing them. -/
instance (s : HttpFrameStream) : Decidable s.Agrees := inferInstanceAs (Decidable (_ = _))

/-- A stream that has handed out its cycle and the `None` behind it: the next poll starts a head. -/
def CycleOver (s : HttpFrameStream) : Prop := s.headersDone = true ∧ s.inner.buffer = [] ∧ s.yieldedNone = true

/-- A poll that starts a head does not find an empty line: the bytes at hand do not begin with the line
ending, or the transport has reported its end before. -/
def Clear (s : HttpFrameStream) : Prop :=
  s.CycleOver → s.inner.eof = false → ¬ crlf <+: readyBytes s.inner.reads

/-- The inner stream was readable when the head was complete, and has not been polled since. -/
def Settled (s : HttpFrameStream) : Prop :=
  s.headersDone = true → s.inner.hasErrored = false ∧ s.inner.isReadable = true

/-- Before the end of the head a poll sets both flags or none. -/
lemma poll_head {s : HttpFrameStream} (notDone : s.headersDone = false) (agrees : s.Agrees) :
    s.poll.2.Agrees ∧ s.poll.2.Settled := by
  have advances := FramedRead.poll_tracks tracks s.inner
  rw [Advances, if_neg (by rw [← agrees, notDone]; nofun)] at advances
  rw [poll, if_neg (by rw [notDone]; nofun), pollInner]
  rcases poll : s.inner.poll with ⟨_ | _ | e | frame, inner⟩
  · rw [poll] at advances
    exact ⟨notDone.trans advances.symm, fun done => nomatch notDone.symm.trans done⟩
  · rw [poll] at advances
    exact ⟨notDone.trans advances.symm, fun done => nomatch notDone.symm.trans done⟩
  · rw [poll] at advances
    exact ⟨notDone.trans advances.symm, fun done => nomatch notDone.symm.trans done⟩
  · rw [poll] at advances
    simp only [onHead]
    split
    · rename_i isEnd
      obtain ⟨ok, readable⟩ := FramedRead.poll_item_flags poll
      exact ⟨(advances.trans isEnd).symm, fun _ => ⟨ok, readable⟩⟩
    · rename_i notEnd
      have codec : inner.codec.done = false := advances.trans (Bool.eq_false_of_not_eq_true notEnd)
      exact ⟨notDone.trans codec.symm, fun done => nomatch notDone.symm.trans done⟩

/-- The poll that starts a head leaves the flags apart when it finds an empty line. -/
lemma poll_cycleOver {s : HttpFrameStream} (isOver : s.CycleOver) (settled : s.Settled) :
    (s.poll.2.Agrees ↔ s.Clear) ∧ s.poll.2.headersDone = false := by
  obtain ⟨done, empty, again⟩ := isOver
  obtain ⟨ok, readable⟩ := settled done
  have step : s.poll = pollInner onReset (reset s) := by
    rw [poll, if_pos done, drainBuffer, if_pos empty]
    exact if_pos again
  have codec : (pollInner onReset (reset s)).2.inner.codec.done = (reset s).inner.poll.2.codec.done ∧
      (pollInner onReset (reset s)).2.headersDone = false := by
    rw [pollInner]
    rcases (reset s).inner.poll with ⟨_ | o, inner⟩ <;> exact ⟨rfl, rfl⟩
  rw [step]
  refine ⟨?_, codec.2⟩
  rw [Agrees, codec.1, codec.2]
  have part : NoCrlf (reset s).inner.buffer := by
    show NoCrlf s.inner.buffer
    rw [empty]
    exact .nil
  cases eof : s.inner.eof with
  | true =>
    -- at the end of the transport the buffer, which is empty, is all there is
    refine iff_of_true ?_ fun _ notEof => absurd (eof.symm.trans notEof) Bool.noConfusion
    exact (poll_partEof (s := (reset s).inner) ok readable eof rfl part).symm
  | false =>
    have iff := poll_done_iff (s := (reset s).inner) ⟨ok, eof⟩ rfl part
    rw [show (reset s).inner.buffer = [] from empty, List.nil_append] at iff
    constructor
    · intro agrees _ _ found
      cases agrees.trans (iff.2 found)
    · intro clear
      have notDone := mt iff.1 (clear ⟨done, empty, again⟩ eof)
      simpa using notDone

/-- Once the head is complete, and up to the next one, a poll leaves both flags as they are. -/
lemma poll_body {s : HttpFrameStream} (done : s.headersDone = true) (more : ¬ s.CycleOver) :
    s.poll.2.headersDone = true ∧ s.poll.2.inner.codec = s.inner.codec ∧
      s.poll.2.inner.hasErrored = s.inner.hasErrored ∧ s.poll.2.inner.isReadable = s.inner.isReadable := by
  by_cases empty : s.inner.buffer = []
  · have first : s.yieldedNone ≠ true := fun again => more ⟨done, empty, again⟩
    have step : s.poll = (.ready none, { s with yieldedNone := true }) := by
      rw [poll, if_pos done, drainBuffer, if_pos empty]
      exact if_neg first
    rw [step]
    exact ⟨done, rfl, rfl, rfl⟩
  · rw [poll, if_pos done, drainBuffer, if_neg empty]
    exact ⟨done, rfl, rfl, rfl⟩

/-- From agreeing flags a poll leads to agreeing flags exactly when it is clear. -/
theorem poll_agrees {s : HttpFrameStream} (agrees : s.Agrees) (settled : s.Settled) :
    (s.poll.2.Agrees ↔ s.Clear) ∧ s.poll.2.Settled := by
  cases done : s.headersDone with
  | false =>
    -- the four paths of `poll_next`: two of them poll the codec
    obtain ⟨agrees', settled'⟩ := poll_head done agrees
    exact ⟨iff_of_true agrees' fun isOver => (nomatch done.symm.trans isOver.1), settled'⟩
  | true =>
    by_cases isOver : s.CycleOver
    · obtain ⟨iff, notDone⟩ := poll_cycleOver isOver settled
      exact ⟨iff, fun done => nomatch notDone.symm.trans done⟩
    · obtain ⟨done', codec, errored, readable⟩ := poll_body done isOver
      refine ⟨iff_of_true ?_ fun h => absurd h isOver, fun _ => ?_⟩
      · rw [Agrees, done', codec, ← agrees, done]
      · rw [errored, readable]
        exact settled done

/-- The flags agree in every state up to the `n`-th poll exactly when each of these polls is clear. -/
theorem agrees_iff_clear (matchers : List (Bytes × Bytes)) (reads : List (ReadResult IoError)) (n : Nat) :
    (∀ k ≤ n, (polled k (HttpParser.parse matchers reads)).2.Agrees) ↔
      ∀ k < n, (polled k (HttpParser.parse matchers reads)).2.Clear := by
  generalize init : HttpParser.parse matchers reads = s
  have start : s.Agrees ∧ s.Settled := by
    subst init
    exact ⟨rfl, nofun⟩
  clear init
  induction n generalizing s with
  | zero =>
    refine iff_of_true (fun k le => ?_) nofun
    rw [Nat.le_zero.1 le]
    exact start.1
  | succ n ih =>
    obtain ⟨iff, settled⟩ := poll_agrees start.1 start.2
    constructor
    · intro agrees
      have first : s.poll.2.Agrees := agrees 1 (Nat.le_add_left 1 n)
      have rest := (ih s.poll.2 ⟨first, settled⟩).1 fun k le => agrees (k + 1) (Nat.succ_le_succ le)
      intro k lt
      cases k with
      | zero => exact iff.1 first
      | succ k => exact rest k (Nat.lt_of_succ_lt_succ lt)
    · intro clear
      have first : s.poll.2.Agrees := iff.2 (clear 0 (Nat.succ_pos n))
      have rest := (ih s.poll.2 ⟨first, settled⟩).2 fun k lt => clear (k + 1) (Nat.succ_lt_succ lt)
      intro k le
      cases k with
      | zero => exact start.1
      | succ k => exact rest k (Nat.le_of_succ_le_succ le)

/-- An empty line in front of the second request: the codec is done and the stream waits for headers. -/
theorem not_agrees_emptyLine :
    ¬ ∀ k, (polled k (HttpParser.parse []
      [.data (lit "GET / HTTP/1.1\r\n\r\n"), .data (lit "\r\nGET / HTTP/1.1\r\n\r\n")])).2.Agrees := by
  intro agrees
  exact absurd (agrees 4) (by decide)

/-! ## A stream whose flags are apart -/

/-- The codec is done and the stream reads on. -/
def Stuck (s : HttpFrameStream) : Prop := s.headersDone = false ∧ s.inner.codec.done = true

/-- No poll of such a stream gives an item, whatever the client sends. -/
theorem stuck_poll {s : HttpFrameStream} (stuck : s.Stuck) :
    s.poll.2.Stuck ∧ ∀ i, s.poll.1 ≠ .ready (some (.ok i)) := by
  obtain ⟨notDone, done⟩ := stuck
  have advances := FramedRead.poll_tracks tracks s.inner
  rw [Advances, if_pos done] at advances
  obtain ⟨noItem, done'⟩ := advances
  rw [poll, if_neg (by rw [notDone]; rintro ⟨⟩), pollInner]
  rcases poll : s.inner.poll with ⟨_ | _ | e | frame, inner⟩
  · rw [poll] at done'
    refine ⟨⟨notDone, done'⟩, ?_⟩
    rintro _ ⟨⟩
  · rw [poll] at done'
    refine ⟨⟨notDone, done'⟩, ?_⟩
    rintro _ ⟨⟩
  · rw [poll] at done'
    refine ⟨⟨notDone, done'⟩, ?_⟩
    rintro _ ⟨⟩
  · rw [poll] at noItem
    cases noItem

end HttpFrameStream

end Railscale.Http
