import Railscale.Core.Forward
import Railscale.Http.Parser

/-!
# The client side of a connection

`do_connection` with `HttpParser`: the connection machine polls an `HttpFrameStream` over the reads of
the client, in one cycle after another. What the router, the pool and the upstream do is arbitrary.

A poll is taken apart into the turns of its `FramedRead`, so that the read buffer is seen after every
single read. `turns_poll` says that the turns of a poll are the poll.
-/

namespace Railscale.Http

open AsyncStream ReadResult

/-! ## The turns of a poll -/

namespace HttpFrameStream

/-- The two places of `poll_next` that poll the inner stream. -/
inductive Mode where
  | head
  | reset
  deriving DecidableEq

/-- What is made there of an item of the inner stream. -/
def Mode.on : Mode → HttpFrameStream → Option (Except IoError HttpFrame) →
    FramedRead HttpStreamingCodec IoError → Option HttpItem × HttpFrameStream
  | .head => onHead
  | .reset => onReset

/-- A stream between two polls, or inside one. -/
structure Polling where
  stream : HttpFrameStream
  mode : Option Mode

/-- One turn of a poll: up to the poll of the inner stream, or one turn of that. -/
def Polling.turn (p : Polling) : Option (Poll (Option HttpItem)) × Polling :=
  match p.mode with
  | none =>
    if p.stream.headersDone then
      match drainBuffer p.stream.inner with
      | (some chunk, inner) => (some (.ready (some (.ok chunk))), ⟨{ p.stream with inner := inner }, none⟩)
      | (none, inner) =>
        if p.stream.yieldedNone then (none, ⟨reset { p.stream with inner := inner }, some .reset⟩)
        else (some (.ready none), ⟨{ p.stream with inner := inner, yieldedNone := true }, none⟩)
    else (none, ⟨p.stream, some .head⟩)
  | some m =>
    match p.stream.inner.turn with
    | (none, inner) => (none, ⟨{ p.stream with inner := inner }, some m⟩)
    | (some .pending, inner) => (some .pending, ⟨{ p.stream with inner := inner }, none⟩)
    | (some (.ready o), inner) => (some (.ready (m.on p.stream o inner).1), ⟨(m.on p.stream o inner).2, none⟩)

/-- Turns up to the end of a poll. -/
inductive Turns : Polling → Poll (Option HttpItem) → HttpFrameStream → Prop where
  | last {p r s} :
    p.turn = (some r, ⟨s, none⟩) →
    Turns p r s
  | more {p p1 r s} :
    p.turn = (none, p1) →
    Turns p1 r s →
    Turns p r s

/-- The turns of the inner stream are its poll. -/
lemma turns_pollInner (m : Mode) (s : HttpFrameStream) :
    Turns ⟨s, some m⟩ (pollInner m.on s).1 (pollInner m.on s).2 := by
  generalize hn : s.inner.turns = n
  induction n using Nat.strongRecOn generalizing s with
  | ind n ih =>
    rcases turn : s.inner.turn with ⟨_ | r, inner⟩
    · have lt := FramedRead.turn_turns turn
      have poll : s.inner.poll = inner.poll := by rw [FramedRead.poll_eq, turn]
      have same : pollInner m.on s = pollInner m.on { s with inner := inner } := by
        rw [pollInner, pollInner, poll]
        rcases inner.poll with ⟨_ | o, inner'⟩
        · rfl
        · cases m <;> rcases o with _ | _ | frame <;> rfl
      rw [same]
      exact .more (by simp only [Polling.turn, turn]) (ih _ (hn ▸ lt) _ rfl)
    · have poll : s.inner.poll = (r, inner) := by rw [FramedRead.poll_eq, turn]
      rw [pollInner, poll]
      cases r with
      | pending => exact .last (by simp only [Polling.turn, turn])
      | ready o => exact .last (by simp only [Polling.turn, turn])

/-- The turns of a poll are the poll. -/
theorem turns_poll (s : HttpFrameStream) : Turns ⟨s, none⟩ s.poll.1 s.poll.2 := by
  unfold poll
  split
  · rename_i done
    split
    · rename_i drained
      exact .last (by simp only [Polling.turn, done, drained, if_true])
    · rename_i drained
      split
      · rename_i again
        refine .more ?_ (turns_pollInner .reset _)
        simp only [Polling.turn, done, drained, again, if_true]
      · rename_i first
        exact .last (by simp only [Polling.turn, done, drained, first, if_true, if_false, Bool.false_eq_true])
  · rename_i notDone
    refine .more ?_ (turns_pollInner .head s)
    simp only [Polling.turn, notDone, if_false, Bool.false_eq_true]

end HttpFrameStream

/-! ## The connection and its client -/

namespace Client

open Service HttpFrameStream

/-- A connection and the request stream of its client. `received` counts the bytes of the cycle: those
that the last cycle left in the read buffer and those that were read since. `failed` says that the
stream of the cycle has ended, or failed, before the empty line behind its head was decoded. -/
structure State (H D : Type) where
  conn : Service.State HttpFrame H D
  client : Polling
  received : Nat
  failed : Bool

/-- What happens next: a turn of the request stream, or anything else that the connection gets to see. -/
inductive Action (D : Type) where
  | turn
  | conn (a : Service.Action HttpFrame D)

/-- The end or an error of a stream. -/
def stops : Option HttpItem → Bool
  | some (.ok _) => false
  | _ => true

/-- How much a turn has read. -/
def bytesRead (p p' : Polling) : Nat :=
  (all p.stream.inner.reads).length - (all p'.stream.inner.reads).length

section machine

variable {H D : Type} [ConnectionHook H HttpFrame] (cfg : Config HttpFrame H)

/-- A connection before its first cycle. -/
def State.init (matchers : List (Bytes × Bytes)) (reads : List (ReadResult IoError)) : State H D :=
  ⟨.init cfg, ⟨HttpParser.parse matchers reads, none⟩, 0, false⟩

/-- The connection has moved without the client. -/
def State.move (s : State H D) (a : Service.Action HttpFrame D) (conn : Service.State HttpFrame H D) :
    State H D :=
  match a with
  | .release => ⟨conn, s.client, s.client.stream.inner.buffer.length, false⟩
  | _ => { s with conn := conn }

/-- One step of the connection and its request stream. -/
def step (s : State H D) (a : Action D) : Option (State H D) :=
  match a with
  | .turn =>
    if awaitsClient s.conn.pc then
      match s.client.turn with
      | (some (.ready o), client) =>
        (Service.step cfg s.conn (.clientItem (.ofIo o))).map fun conn =>
          ⟨conn, client, s.received + bytesRead s.client client,
            s.failed || (stops o && !client.stream.inner.codec.done)⟩
      | (_, client) =>
        some { s with client := client, received := s.received + bytesRead s.client client }
    else none
  | .conn (.clientItem _) => none
  | .conn a =>
    if s.client.mode.isSome then none else (Service.step cfg s.conn a).map (s.move a)

/-- Everything a step can be. -/
inductive Trans (s : State H D) : Action D → State H D → Prop where
  | waits {r client} :
    awaitsClient s.conn.pc = true →
    s.client.turn = (r, client) →
    (∀ o, r ≠ some (.ready o)) →
    Trans s .turn { s with client := client, received := s.received + bytesRead s.client client }
  | takes {o client conn} :
    awaitsClient s.conn.pc = true →
    s.client.turn = (some (.ready o), client) →
    Service.step cfg s.conn (.clientItem (.ofIo o)) = some conn →
    Trans s .turn ⟨conn, client, s.received + bytesRead s.client client,
      s.failed || (stops o && !client.stream.inner.codec.done)⟩
  | moves {a conn} :
    (∀ o, a ≠ .clientItem o) →
    Service.step cfg s.conn a = some conn →
    Trans s (.conn a) (s.move a conn)

variable {cfg}

/-- A step is one of these. -/
theorem step_cases {s s' : State H D} {a : Action D} (st : step cfg s a = some s') :
    Trans cfg s a s' := by
  unfold step at st
  split at st
  · split at st
    · rename_i awaits
      split at st
      · rename_i turn
        obtain ⟨conn, move, rfl⟩ := Option.map_eq_some_iff.1 st
        exact .takes awaits turn move
      · rename_i notReady turn
        cases st
        exact .waits awaits turn notReady
    · cases st
  · cases st
  · rename_i a notItem
    split at st
    · cases st
    · obtain ⟨conn, move, rfl⟩ := Option.map_eq_some_iff.1 st
      exact .moves notItem move

omit [ConnectionHook H HttpFrame] in
/-- A step moves the connection as it says. -/
@[simp] lemma move_conn (s : State H D) (a : Service.Action HttpFrame D)
    (conn : Service.State HttpFrame H D) : (s.move a conn).conn = conn := by
  cases a <;> rfl

omit [ConnectionHook H HttpFrame] in
/-- A step of the connection takes nothing from the client stream. -/
@[simp] lemma move_client (s : State H D) (a : Service.Action HttpFrame D)
    (conn : Service.State HttpFrame H D) : (s.move a conn).client = s.client := by
  cases a <;> rfl

omit [ConnectionHook H HttpFrame] in
/-- Only a release resets the client stream. -/
lemma move_of_ne {a : Service.Action HttpFrame D} (h : a ≠ .release) (s : State H D)
    (conn : Service.State HttpFrame H D) : s.move a conn = { s with conn := conn } := by
  cases a with
  | release => exact absurd rfl h
  | _ => rfl

end machine

end Client

end Railscale.Http
