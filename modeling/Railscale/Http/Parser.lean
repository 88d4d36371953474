import Railscale.Http.Codec
import Railscale.Lib.Framed

/-!
# The request parser

Model of `carriage/src/http/parser.rs`: `HttpFrameStream` emits the frames of a head, then the empty
line together with whatever the read buffer holds at that moment, then a `None` that ends the cycle,
and starts the next head when it is polled again.
-/

namespace Railscale.Http

open Bytes

/-- Rust `HttpFrameStream`. -/
structure HttpFrameStream where
  inner : FramedRead HttpStreamingCodec IoError
  headersDone : Bool
  yieldedNone : Bool

/-- The items of the request stream. -/
abbrev HttpItem := Except IoError (ParsedData HttpFrame)

namespace HttpFrameStream

/-- Rust `drain_buffer`: the whole read buffer, if it is not empty. -/
def drainBuffer (inner : FramedRead HttpStreamingCodec IoError) :
    Option (ParsedData HttpFrame) × FramedRead HttpStreamingCodec IoError :=
  if inner.buffer = [] then (none, inner)
  else (some (.passthrough inner.buffer), { inner with buffer := [] })

/-- What the stream makes of an item of the inner stream before the end of the headers: the empty line
is handed out with the rest of the read buffer. -/
def onHead (s : HttpFrameStream) (o : Option (Except IoError HttpFrame))
    (inner : FramedRead HttpStreamingCodec IoError) : Option HttpItem × HttpFrameStream :=
  match o with
  | some (.ok frame) =>
    if frame.isEndOfHeaders then
      (some (.ok (.passthrough (crlf ++ inner.buffer))),
        { s with inner := { inner with buffer := [] }, headersDone := true })
    else (some (.ok (.parsed frame)), { s with inner := inner })
  | some (.error e) => (some (.error e), { s with inner := inner })
  | none => (none, { s with inner := inner })

/-- What the stream makes of an item of the inner stream right after a reset: every frame is handed
out as it is. -/
def onReset (s : HttpFrameStream) (o : Option (Except IoError HttpFrame))
    (inner : FramedRead HttpStreamingCodec IoError) : Option HttpItem × HttpFrameStream :=
  (o.map (·.map .parsed), { s with inner := inner })

/-- Polling the inner stream and passing its item on. -/
def pollInner (on : HttpFrameStream → Option (Except IoError HttpFrame) →
      FramedRead HttpStreamingCodec IoError → Option HttpItem × HttpFrameStream)
    (s : HttpFrameStream) : Poll (Option HttpItem) × HttpFrameStream :=
  match s.inner.poll with
  | (.ready o, inner) => (.ready (on s o inner).1, (on s o inner).2)
  | (.pending, inner) => (.pending, { s with inner := inner })

/-- The stream at the start of its next head. -/
def reset (s : HttpFrameStream) : HttpFrameStream :=
  { inner := { s.inner with codec := s.inner.codec.reset }, headersDone := false, yieldedNone := false }

/-- Rust `HttpFrameStream::poll_next`. -/
def poll (s : HttpFrameStream) : Poll (Option HttpItem) × HttpFrameStream :=
  if s.headersDone then
    match drainBuffer s.inner with
    | (some data, inner) => (.ready (some (.ok data)), { s with inner := inner })
    | (none, inner) =>
      if s.yieldedNone then pollInner onReset (reset { s with inner := inner })
      else (.ready none, { s with inner := inner, yieldedNone := true })
  else pollInner onHead s

/-- Rust `impl Stream for HttpFrameStream`. -/
instance : AsyncStream HttpFrameStream HttpItem := ⟨poll⟩

end HttpFrameStream

/-- Rust `HttpParser::parse` on a transport. -/
def HttpParser.parse (matchers : List (Bytes × Bytes)) (reads : List (ReadResult IoError)) :
    HttpFrameStream :=
  { inner := .new (.new matchers) reads, headersDone := false, yieldedNone := false }

namespace HttpFrameStream

open AsyncStream

/-! ## Awaiting the next item -/

/-- Before the end of the headers an unfinished turn of the inner stream changes nothing. -/
lemma next_iff_of_turn {s s' : HttpFrameStream} {o inner1} (hd : s.headersDone = false)
    (h : s.inner.turn = (none, inner1)) : Next s o s' ↔ Next { s with inner := inner1 } o s' := by
  obtain ⟨inner, headersDone, yieldedNone⟩ := s
  cases hd
  apply next_congr
  show poll _ = poll _
  have p : inner.poll = inner1.poll := by rw [FramedRead.poll_eq, h]
  simp only [poll, Bool.false_eq_true, if_false, pollInner, p]
  rcases inner1.poll with ⟨_ | o, inner⟩
  · rfl
  · rcases o with _ | _ | frame <;> rfl

/-- Before the end of the headers a pending inner stream is polled again. -/
lemma next_iff_of_pending {s s' : HttpFrameStream} {o inner1} (hd : s.headersDone = false)
    (h : s.inner.turn = (some .pending, inner1)) :
    Next s o s' ↔ Next { s with inner := inner1 } o s' := by
  apply next_pending
  show poll s = _
  have p : s.inner.poll = (.pending, inner1) := by rw [FramedRead.poll_eq, h]
  simp [poll, hd, pollInner, p]

/-- Before the end of the headers an item of the inner stream is passed on. -/
lemma next_of_turn {s : HttpFrameStream} {o inner1} (hd : s.headersDone = false)
    (h : s.inner.turn = (some (.ready o), inner1)) :
    Next s (s.onHead o inner1).1 (s.onHead o inner1).2 := by
  refine .ready ?_
  show poll s = _
  have p : s.inner.poll = (.ready o, inner1) := by rw [FramedRead.poll_eq, h]
  simp [poll, hd, pollInner, p]

/-- The end of a cycle. -/
lemma next_end {s : HttpFrameStream} (hd : s.headersDone = true) (e : s.inner.buffer = [])
    (y : s.yieldedNone = false) : Next s none { s with yieldedNone := true } :=
  .ready (by show poll s = _; simp [poll, hd, drainBuffer, e, y])

/-- A stream at the end of a cycle awaits what its reset awaits. Only an empty line, which the reset
would hand out with the read buffer, is handed out differently: as a frame, when it is ready at
once. -/
lemma next_of_reset {s s' : HttpFrameStream} {o} (hd : s.headersDone = true)
    (e : s.inner.buffer = []) (y : s.yieldedNone = true) (n : Next (reset s) o s')
    (np : ∀ bs, o ≠ some (.ok (.passthrough bs))) : Next s o s' := by
  have p : pollNext s = pollInner onReset (reset s) := by
    show poll s = _
    simp only [poll, hd, drainBuffer, e, y, if_true]
    rfl
  have q : pollNext (reset s) = pollInner onHead (reset s) := rfl
  cases n with
  | ready h =>
    refine .ready ?_
    rw [q, pollInner] at h
    rw [p, pollInner]
    rcases hp : (reset s).inner.poll with ⟨_ | o', inner⟩
    · rw [hp] at h; cases h
    · rw [hp] at h
      rcases o' with _ | _ | frame
      · cases h; rfl
      · cases h; rfl
      · by_cases eoh : frame.isEndOfHeaders = true
        · simp only [onHead, eoh, if_true, Prod.mk.injEq, Poll.ready.injEq] at h
          exact absurd h.1.symm (np _)
        · simp only [onHead, eoh] at h
          cases h; rfl
  | pending h n =>
    rw [q, pollInner] at h
    refine .pending ?_ n
    rw [p, pollInner]
    rcases hp : (reset s).inner.poll with ⟨_ | o', inner⟩
    · rw [hp] at h; cases h; rfl
    · rw [hp] at h; cases h

end HttpFrameStream

end Railscale.Http
