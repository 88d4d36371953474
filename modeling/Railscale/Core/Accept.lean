import Railscale.Atom.Frame
import Railscale.Lib.Run

/-!
# The accept loop

Model of `Pipeline::run` of `train_track/src/core/service.rs`, the loop that spawns a task for every
connection that its source accepts, and of the source `TlsSource` of `trezorcarriage/src/terminator.rs`.
An action is what the `select!` of the loop, or the one of the drain behind it, gets to see. The reaper
of the pool and what a connection does are not part of the loop.
-/

namespace Railscale.Pipeline

/-- What `run` gets to see: the cancellation, the outcome of an `accept`, a connection that
`join_next` reports, and the end of `drain_timeout`. -/
inductive Action (E C : Type) where
  | cancelled
  | accepted (r : Except E C)
  | joined
  | drainTimeout

/-- Where `run` is. -/
inductive Pc where
  | accepting
  | draining
  | returned (r : Except RailscaleError Unit)

/-- The state of `run`: the connections that `handle_connection` was spawned for, in order, and how
many of their tasks the `JoinSet` holds. -/
structure State (C : Type) where
  pc : Pc
  spawned : List C
  joinSet : Nat

section loop

variable {E C : Type}

/-- The loop before its first `accept`. -/
def State.init : State C := ⟨.accepting, [], 0⟩

/-- Drain until the `JoinSet` is empty. -/
def State.drain (s : State C) : State C :=
  if s.joinSet = 0 then { s with pc := .returned (.ok ()) } else { s with pc := .draining }

/-- Rust `Pipeline::run`. A `JoinSet` that is dropped, or told to, aborts its tasks. -/
def step (into : E → RailscaleError) (s : State C) (a : Action E C) : Option (State C) :=
  match s.pc, a with
  | .accepting, .cancelled => some s.drain
  | .accepting, .accepted (.ok c) =>
    some { s with spawned := s.spawned ++ [c], joinSet := s.joinSet + 1 }
  | .accepting, .accepted (.error e) =>
    some { s with pc := .returned (.error (into e)), joinSet := 0 }
  | .draining, .joined => some { s with joinSet := s.joinSet - 1 }.drain
  | .draining, .drainTimeout => some { s with pc := .returned (.ok ()), joinSet := 0 }
  | _, _ => none

/-- The connections among some outcomes. -/
def connections (os : List (Except E C)) : List C := os.filterMap Except.toOption

/-- Before the cancellation, at every point of the sequence of outcomes, the loop still accepts and has
spawned a task for every connection so far. -/
def Serves (into : E → RailscaleError) (os : List (Except E C)) : Prop :=
  ∀ p q, os = p ++ q →
    ∃ s, Run (step into) .init (p.map .accepted) s ∧ s.pc = .accepting ∧ s.spawned = connections p

/-- The outcomes of a source of which none is an error. -/
def AllOk (os : List (Except E C)) : Prop := ∀ o ∈ os, ∃ c, o = .ok c

variable {into : E → RailscaleError}

/-- The loop behind an outcome. -/
def State.onAccept (into : E → RailscaleError) (s : State C) : Except E C → State C
  | .ok c => { s with spawned := s.spawned ++ [c], joinSet := s.joinSet + 1 }
  | .error e => { s with pc := .returned (.error (into e)), joinSet := 0 }

/-- An outcome is seen by a loop that accepts, and by no other. -/
lemma step_accepted_iff {s s1 : State C} {o : Except E C} :
    step into s (.accepted o) = some s1 ↔ s.pc = .accepting ∧ s.onAccept into o = s1 := by
  obtain ⟨pc, spawned, joinSet⟩ := s
  cases pc with
  | accepting => cases o <;> simp [step, State.onAccept]
  | draining => simp [step]
  | returned r => simp [step]

/-- Connections are spawned one by one. -/
lemma run_accepting {os : List (Except E C)} (ok : AllOk os) {s : State C} (pc : s.pc = .accepting) :
    ∃ s', Run (step into) s (os.map .accepted) s' ∧ s'.pc = .accepting ∧
      s'.spawned = s.spawned ++ connections os := by
  induction os generalizing s with
  | nil => exact ⟨s, .nil, pc, (List.append_nil _).symm⟩
  | cons o os ih =>
    obtain ⟨c, rfl⟩ := ok o List.mem_cons_self
    have st := step_accepted_iff.2 ⟨pc, (rfl : s.onAccept into (.ok c) = _)⟩
    obtain ⟨s', run, pc', spawned⟩ :=
      ih (fun o ho => ok o (List.mem_cons_of_mem _ ho)) (s := s.onAccept into (.ok c)) pc
    refine ⟨s', .cons st run, pc', ?_⟩
    rw [spawned, State.onAccept, List.append_assoc]
    rfl

/-- A loop that still accepts has seen no error. -/
lemma allOk_of_run {os : List (Except E C)} {s s' : State C}
    (run : Run (step into) s (os.map .accepted) s') (pc : s'.pc = .accepting) : AllOk os := by
  induction os generalizing s with
  | nil => nofun
  | cons o os ih =>
    cases run with
    | @cons _ s1 _ _ _ st run =>
      obtain ⟨-, rfl⟩ := step_accepted_iff.1 st
      -- behind an error the loop has returned: it cannot accept at the end, and it sees no more
      have ok : ∃ c, o = .ok c := by
        cases o with
        | ok c => exact ⟨c, rfl⟩
        | error e =>
          cases os with
          | nil =>
            cases run
            cases pc
          | cons o' os =>
            cases run with
            | cons st' _ => cases (step_accepted_iff.1 st').1
      intro o' ho'
      rcases List.mem_cons.1 ho' with rfl | ho'
      · exact ok
      · exact ih run o' ho'

/-- If every connection is served, no accept fails. -/
lemma Serves.allOk {os : List (Except E C)} (serves : Serves into os) : AllOk os := by
  obtain ⟨s, run, pc, -⟩ := serves os [] (List.append_nil os).symm
  exact allOk_of_run run pc

/-- If no accept fails, every connection is served. -/
lemma AllOk.serves {os : List (Except E C)} (ok : AllOk os) : Serves into os := by
  intro p q e
  have front : AllOk p := fun o ho => ok o (e ▸ List.mem_append_left _ ho)
  obtain ⟨s, run, pc, spawned⟩ := run_accepting front (s := State.init) rfl
  exact ⟨s, run, pc, spawned⟩

/-- The loop serves every connection of a sequence of outcomes, and goes on until it is cancelled, if
and only if no outcome is an error. -/
theorem serves_iff (os : List (Except E C)) : Serves into os ↔ AllOk os :=
  ⟨Serves.allOk, AllOk.serves⟩

end loop

section tls

variable {T S : Type}

/-- Rust `TlsSource::accept`: a connection of the listener, and its handshake. -/
def TlsSource.accept (acceptor : T → Except IoError S) (listener : Except IoError T) :
    Except IoError S := do
  let tcpStream ← listener
  acceptor tcpStream

/-- The outcomes of a `TlsSource`. -/
def TlsSource.outcomes (acceptor : T → Except IoError S) (listener : List (Except IoError T)) :
    List (Except IoError S) :=
  listener.map (accept acceptor)

/-- A client whose handshake fails is an error of the source. -/
lemma TlsSource.accept_eq_ok {acceptor : T → Except IoError S} {listener : Except IoError T} {c : S} :
    accept acceptor listener = .ok c ↔ ∃ t, listener = .ok t ∧ acceptor t = .ok c := by
  cases listener with
  | ok t =>
    constructor
    · intro ok
      exact ⟨t, rfl, ok⟩
    · rintro ⟨_, e, ok⟩
      cases e
      exact ok
  | error e => exact ⟨nofun, fun ⟨_, h, _⟩ => nomatch h⟩

/-- Behind a `TlsSource` that serves every connection every handshake succeeds. -/
lemma handshakes_of_serves {acceptor : T → Except IoError S} {listener : List (Except IoError T)}
    (serves : Serves RailscaleError.ofIo (TlsSource.outcomes acceptor listener)) :
    ∀ l ∈ listener, ∃ t c, l = .ok t ∧ acceptor t = .ok c := by
  intro l hl
  obtain ⟨c, ok⟩ := serves.allOk _ (List.mem_map_of_mem hl)
  obtain ⟨t, e, ok⟩ := TlsSource.accept_eq_ok.1 ok
  exact ⟨t, c, e, ok⟩

/-- An acceptor that takes a client hello, by its first byte, for a handshake. -/
def firstByteAcceptor (hello : Bytes) : Except IoError Bytes :=
  match hello with
  | 22 :: _ => .ok hello
  | _ => .error ⟨.invalidData, "received corrupt message"⟩

/-- A client that does not speak TLS keeps the one behind it from being served. -/
theorem not_serves_tls :
    ¬ Serves RailscaleError.ofIo
      (TlsSource.outcomes firstByteAcceptor [.ok (Bytes.lit "GET / HTTP/1.1\r\n"), .ok [22, 3, 1]]) := by
  intro serves
  obtain ⟨t, c, e, ok⟩ := handshakes_of_serves serves _ List.mem_cons_self
  cases e
  cases ok

end tls

end Railscale.Pipeline
