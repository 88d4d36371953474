import Railscale.Http.Client

/-!
# The bytes of the request stream

Where the bytes that `HttpFrameStream` reads go: without matchers an item of the codec is what was cut off
the read buffer, the empty line that the codec takes is handed out again in front of the drained buffer,
and everything else stays in the buffer. `polled_conserves` adds this up over any number of polls.
-/

namespace Railscale.Http

open Bytes ReadResult

/-! ## Where the bytes of a turn go -/

namespace HttpStreamingCodec

/-- A frame is what was cut off the buffer. -/
def Cut (f : HttpFrame) (b b' : Bytes) : Prop :=
  b = f.data ++ b' ∧ (f.isEndOfHeaders = true → f.data = crlf)

/-- Without matchers a frame is the line that it was. -/
lemma frameOf_data {c : HttpStreamingCodec} (plain : c.matchers = []) (l : Bytes) :
    (c.frameOf l).data = l ++ crlf ∧ (c.frameOf l).isEndOfHeaders = false := by
  rw [frameOf, plain]
  cases c.firstLine with
  | true => exact ⟨rfl, rfl⟩
  | false => exact ⟨rfl, rfl⟩

/-- Without matchers a call of the codec cuts the bytes of its frame off the front. -/
lemma decode_cut {c c' : HttpStreamingCodec} {b b' : Bytes} {r} (plain : c.matchers = [])
    (h : c.decode b = (r, c', b')) : c'.matchers = [] ∧ FramedRead.Consumed Cut r b b' := by
  cases done : c.done with
  | true =>
    rw [decode_done done] at h
    cases h
    exact ⟨plain, rfl⟩
  | false =>
    rcases line_or_noCrlf b with noLine | ⟨l, rest, hl, rfl⟩
    · rw [decode_noCrlf noLine] at h
      cases h
      exact ⟨plain, rfl⟩
    · cases l with
      | nil =>
        rw [List.nil_append, decode_empty done] at h
        cases h
        exact ⟨plain, rfl, fun _ => rfl⟩
      | cons x l =>
        rw [decode_line done (List.cons_ne_nil x l) hl] at h
        split at h
        · cases h
          exact ⟨plain, rfl⟩
        · cases h
          obtain ⟨data, notEnd⟩ := frameOf_data plain (x :: l)
          refine ⟨plain, ?_, fun isEnd => by simp [notEnd] at isEnd⟩
          rw [data, List.append_assoc]
          rfl

/-- So does every call, at the end of the transport too. -/
lemma consumes : FramedRead.Consumes (ε := IoError) (fun c : HttpStreamingCodec => c.matchers = []) Cut where
  decode plain h := decode_cut plain h
  decodeEof {c b r c' b'} plain h := by
    have h : c.decodeEof b = (r, c', b') := h
    rw [decodeEof] at h
    split at h
    · cases h
      exact ⟨plain, rfl⟩
    · exact decode_cut plain h

end HttpStreamingCodec

namespace HttpFrameStream

/-- The bytes of the item that a turn hands out. -/
def handed : Option (Poll (Option HttpItem)) → Bytes
  | some (.ready (some (.ok i))) => i.raw
  | _ => []

/-- A turn that is not ready hands nothing out. -/
lemma handed_unready {r : Option (Poll (Option HttpItem))} (h : ∀ o, r ≠ some (.ready o)) :
    handed r = [] := by
  match r with
  | none => rfl
  | some .pending => rfl
  | some (.ready o) => exact absurd rfl (h o)

/-- A turn makes at most one read, and hands the bytes out or keeps them in the read buffer. When it has
read something it hands nothing out yet. -/
structure Keeps (p : Polling) (r : Option (Poll (Option HttpItem))) (p' : Polling)
    (pre : List (ReadResult IoError)) : Prop where
  plain : p'.stream.inner.codec.matchers = []
  one : pre.length ≤ 1
  reads : p.stream.inner.reads = pre ++ p'.stream.inner.reads
  bytes : p.stream.inner.buffer ++ all pre = handed r ++ p'.stream.inner.buffer
  unready : 0 < (all pre).length → r = none

/-- A turn without a read keeps the bytes. -/
lemma Keeps.unread {p p' : Polling} {r} (plain : p'.stream.inner.codec.matchers = [])
    (reads : p.stream.inner.reads = p'.stream.inner.reads)
    (buffer : p.stream.inner.buffer = handed r ++ p'.stream.inner.buffer) : Keeps p r p' [] :=
  ⟨plain, Nat.zero_le _, reads, by rw [all_nil, List.append_nil, buffer], nofun⟩

/-- What is handed out for an item of the inner stream. -/
lemma on_keeps (m : Mode) (s : HttpFrameStream) {o inner} {b : Bytes}
    (turned : FramedRead.Turned HttpStreamingCodec.Cut (some (.ready o)) b inner.buffer) :
    (m.on s o inner).2.inner.codec = inner.codec ∧ (m.on s o inner).2.inner.reads = inner.reads ∧
      b = handed (some (.ready (m.on s o inner).1)) ++ (m.on s o inner).2.inner.buffer := by
  match o, m with
  | none, .head => exact ⟨rfl, rfl, turned.symm⟩
  | none, .reset => exact ⟨rfl, rfl, turned.symm⟩
  | some (.error e), .head => exact ⟨rfl, rfl, turned.symm⟩
  | some (.error e), .reset => exact ⟨rfl, rfl, turned.symm⟩
  | some (.ok frame), .reset => exact ⟨rfl, rfl, turned.1⟩
  | some (.ok frame), .head =>
    obtain ⟨cut, isEnd⟩ : HttpStreamingCodec.Cut frame b inner.buffer := turned
    simp only [Mode.on, onHead]
    split
    · rename_i done
      refine ⟨rfl, rfl, ?_⟩
      rw [cut, isEnd done]
      exact (List.append_nil _).symm
    · exact ⟨rfl, rfl, cut⟩

/-- Every turn keeps the bytes, of one read at most. -/
theorem turn_keeps {p p' : Polling} {r} (plain : p.stream.inner.codec.matchers = [])
    (h : p.turn = (r, p')) : ∃ pre, Keeps p r p' pre := by
  obtain ⟨stream, mode⟩ := p
  cases mode with
  | none =>
    simp only [Polling.turn, drainBuffer] at h
    split at h
    -- the head is complete: the turn drains the buffer, ends the cycle or starts the next head
    · by_cases empty : stream.inner.buffer = []
      · simp only [empty, if_true] at h
        split at h
        · cases h
          exact ⟨[], .unread plain rfl rfl⟩
        · cases h
          exact ⟨[], .unread plain rfl rfl⟩
      · simp only [empty, if_false] at h
        cases h
        exact ⟨[], .unread plain rfl (List.append_nil _).symm⟩
    · cases h
      exact ⟨[], .unread plain rfl rfl⟩
  | some m =>
    simp only [Polling.turn] at h
    rcases turn : stream.inner.turn with ⟨r', inner⟩
    obtain ⟨plain', pre, one, reads, turned⟩ :=
      FramedRead.turn_moves HttpStreamingCodec.consumes plain turn
    have unready : 0 < (all pre).length → r' = none := by
      intro some
      refine FramedRead.turn_delivers turn ?_
      rw [reads, all_append, List.length_append]
      exact Nat.lt_add_of_pos_left some
    rw [turn] at h
    rcases r' with _ | _ | o
    · cases h
      exact ⟨pre, plain', one, reads, turned.symm, fun _ => rfl⟩
    · cases h
      refine ⟨pre, plain', one, reads, turned.symm, fun some => ?_⟩
      cases unready some
    · cases h
      obtain ⟨codec, reads', bytes⟩ := on_keeps m stream turned
      refine ⟨pre, by rw [codec, plain'], one, by rw [reads, reads'], bytes, fun some => ?_⟩
      cases unready some

/-! ## A poll, and any number of them -/

/-- The bytes read and the reads they came from, between two states of a stream that have handed out
`out` in between. -/
structure Conserves (s : HttpFrameStream) (out : Bytes) (s' : HttpFrameStream) : Prop where
  plain : s'.inner.codec.matchers = []
  bytes : ∃ pre, s.inner.reads = pre ++ s'.inner.reads ∧ s.inner.buffer ++ all pre = out ++ s'.inner.buffer

/-- A turn that keeps the bytes conserves them. -/
lemma Keeps.conserves {p p' : Polling} {r pre} (keeps : Keeps p r p' pre) :
    Conserves p.stream (handed r) p'.stream :=
  ⟨keeps.plain, pre, keeps.reads, keeps.bytes⟩

/-- So do two polls, one behind the other. -/
lemma Conserves.trans {s s1 s2 : HttpFrameStream} {out1 out2 : Bytes} (c1 : Conserves s out1 s1)
    (c2 : Conserves s1 out2 s2) : Conserves s (out1 ++ out2) s2 := by
  obtain ⟨-, pre1, reads1, bytes1⟩ := c1
  obtain ⟨plain, pre2, reads2, bytes2⟩ := c2
  refine ⟨plain, pre1 ++ pre2, by rw [reads1, reads2, List.append_assoc], ?_⟩
  calc s.inner.buffer ++ all (pre1 ++ pre2)
      = (s.inner.buffer ++ all pre1) ++ all pre2 := by rw [all_append, List.append_assoc]
    _ = out1 ++ (s1.inner.buffer ++ all pre2) := by rw [bytes1, List.append_assoc]
    _ = out1 ++ out2 ++ s2.inner.buffer := by rw [bytes2, List.append_assoc]

/-- The turns of a poll conserve the bytes, since each of them does and only the last hands out. -/
lemma Turns.conserves {p : Polling} {r s} (turns : Turns p r s)
    (plain : p.stream.inner.codec.matchers = []) : Conserves p.stream (handed (some r)) s := by
  induction turns with
  | last turn =>
    obtain ⟨pre, keeps⟩ := turn_keeps plain turn
    exact keeps.conserves
  | more turn _ ih =>
    obtain ⟨pre, keeps⟩ := turn_keeps plain turn
    exact keeps.conserves.trans (ih keeps.plain)

/-- What `n` polls give, and the stream after them. -/
def polled : Nat → HttpFrameStream → List (Poll (Option HttpItem)) × HttpFrameStream
  | 0, s => ([], s)
  | n + 1, s => (s.poll.1 :: (polled n s.poll.2).1, (polled n s.poll.2).2)

/-- The bytes of the items among the results of some polls. -/
def itemBytes (rs : List (Poll (Option HttpItem))) : Bytes := rs.flatMap fun r => handed (some r)

/-- So do any polls. -/
lemma conserves_polled (n : Nat) {s : HttpFrameStream} (plain : s.inner.codec.matchers = []) :
    Conserves s (itemBytes (polled n s).1) (polled n s).2 := by
  induction n generalizing s with
  | zero => exact ⟨plain, [], rfl, List.append_nil _⟩
  | succ n ih =>
    have first := (turns_poll s).conserves plain
    exact first.trans (ih first.plain)

/-- After any number of polls, the bytes of the items handed out and then the read buffer are the bytes
that were read. -/
theorem polled_conserves (reads : List (ReadResult IoError)) (n : Nat) :
    ∃ pre, reads = pre ++ (polled n (HttpParser.parse [] reads)).2.inner.reads ∧
      itemBytes (polled n (HttpParser.parse [] reads)).1 ++
        (polled n (HttpParser.parse [] reads)).2.inner.buffer = all pre := by
  obtain ⟨-, pre, split, bytes⟩ := conserves_polled n (s := HttpParser.parse [] reads) rfl
  exact ⟨pre, split, bytes.symm⟩

end HttpFrameStream

end Railscale.Http
