import Railscale.Core.Accept
import Railscale.Core.Gauge

/-!
# The server

`Pipeline::run` with the tasks that it spawns: `run` accepts and drains (`Core.Accept`), every task is one
`handle_connection`, and the connections share a pool. A task waits until it is first polled, runs `do_connection`,
and ends with the entry of its request in the recorder. Dropping the `JoinSet` aborts the tasks that it still holds,
and so does the end of `drain_timeout`. An aborted task is not gone at once: it stops at its next `await`, and until
then it goes on, and may come to its end.

A `run` that returns `Ok` in time has lost nothing: every connection that it has accepted has been handled to its end
(`drained_of_run`). The gauge of the active connections counts a connection whose task was stopped for ever
(`active_of_run`).
-/

namespace Railscale

namespace Server

open Service

/-- Rust `RequestEntry`, without its times. -/
structure RequestEntry where
  reqBytes : Nat
  respBytes : Nat
  error : Bool
  deriving DecidableEq

/-- A task: it waits to be polled, runs connection `i`, has ended, or was stopped with or without a connection. -/
inductive Task where
  | waiting
  | running (i : Nat)
  | ended (i : Nat)
  | stopped (started : Option Nat)
  deriving DecidableEq

/-- The connection of a task. -/
def Task.conn : Task → Option Nat
  | .waiting => none
  | .running i => some i
  | .ended i => some i
  | .stopped o => o

/-- The connection of a task that has ended. -/
def Task.done : Task → Option Nat
  | .ended i => some i
  | _ => none

/-- The task counts as active: it has called `conn_start` and not `conn_end`. -/
def Task.active : Task → Bool
  | .running _ => true
  | .stopped (some _) => true
  | _ => false

/-- `run`, its tasks and how many of them `join_next` has reported, the connections and their pool, and the recorder. -/
structure State (F H C : Type) where
  loop : Pipeline.State C
  tasks : List Task
  joined : Nat
  pool : Pool.State F H
  active : Int
  entries : List RequestEntry

/-- What happens next: a step of `run`, the first poll of a task, a step of a connection or of the reaper, the end
of a task, and the stop of an aborted one. -/
inductive Action (F E C : Type) where
  | loop (a : Pipeline.Action E C)
  | start (t : Nat)
  | conn (a : Pool.Action F)
  | finish (t : Nat)
  | stop (t : Nat)

/-- The connection that a step is of. -/
def connOf {F : Type} : Pool.Action F → Option Nat
  | .accept => none
  | .conn i _ => some i
  | .pop i _ => some i
  | .remove i => some i
  | .route i _ => some i
  | .release i _ => some i
  | .reap _ => none

/-- A step that may come next: of the reaper, or of a connection whose task runs. -/
def goes {F : Type} (tasks : List Task) : Pool.Action F → Bool
  | .accept => false
  | .reap _ => true
  | a => (connOf a).any fun i => tasks.contains (.running i)

section system

variable {F H E C : Type}

/-- The entry that `handle_connection` logs. -/
def entryOf (c : Pool.Conn F H) (r : Except RailscaleError Unit) : RequestEntry where
  reqBytes := c.state.total.requestBytes
  respBytes := c.state.total.responseBytes
  error := r.toOption.isNone

/-- The entry of connection `i`, when it has returned. -/
def entry (p : Pool.State F H) (i : Nat) : Option RequestEntry :=
  match p.conns[i]? with
  | some c =>
    match c.state.pc with
    | .finished r => some (entryOf c r)
    | _ => none
  | none => none

/-- Stop a task where it waits: in front of its first poll or in `do_connection`. Behind that it has nothing to wait
for. -/
def stop (p : Pool.State F H) : Task → Option Task
  | .waiting => some (.stopped none)
  | .running i => if (entry p i).isNone then some (.stopped (some i)) else none
  | _ => none

/-- The connections of the tasks that have ended. -/
def State.done (g : State F H C) : List Nat := g.tasks.filterMap Task.done

variable [Frame F] [ConnectionHook H F] (cfg : Config F H) (into : E → RailscaleError)

/-- Before the first `accept`. -/
def State.init (config : StablingConfig) : State F H C := ⟨.init, [], 0, .init config, 0, []⟩

/-- A step of `run`. Its return aborts the tasks that the `JoinSet` holds: from then on they may be stopped. -/
def stepLoop (g : State F H C) (a : Pipeline.Action E C) : Option (State F H C) :=
  match Pipeline.step into g.loop a with
  | none => none
  | some loop =>
    match a with
    | .cancelled => some { g with loop := loop }
    | .accepted (.ok _) => some { g with loop := loop, tasks := g.tasks ++ [.waiting] }
    | .accepted (.error _) => some { g with loop := loop }
    | .joined => if g.joined < g.done.length then some { g with loop := loop, joined := g.joined + 1 } else none
    | .drainTimeout => some { g with loop := loop }

/-- One step of the server. -/
def step (g : State F H C) (a : Action F E C) : Option (State F H C) :=
  match a with
  | .loop a => stepLoop into g a
  | .start t =>
    if g.tasks[t]? = some .waiting then
      (Pool.step cfg g.pool .accept).map fun p =>
        { g with pool := p, tasks := g.tasks.set t (.running g.pool.conns.length), active := g.active + 1 }
    else none
  | .conn a => if goes g.tasks a then (Pool.step cfg g.pool a).map fun p => { g with pool := p } else none
  | .finish t =>
    match g.tasks[t]? with
    | some (.running i) =>
      (entry g.pool i).map fun e =>
        { g with tasks := g.tasks.set t (.ended i), active := g.active - 1, entries := g.entries ++ [e] }
    | _ => none
  | .stop t =>
    match g.loop.pc with
    | .returned _ => ((g.tasks[t]?).bind (stop g.pool)).map fun t' => { g with tasks := g.tasks.set t t' }
    | _ => none

/-- What the tasks, the connections and the recorder have to do with each other. -/
structure Fits (tasks : List Task) (p : Pool.State F H) (active : Int) (entries : List RequestEntry) : Prop where
  conns : (tasks.filterMap Task.conn).Perm (List.range p.conns.length)
  entries : ∃ ended : List Nat, ended.Perm (tasks.filterMap Task.done) ∧ ended.map (entry p) = entries.map some
  active : active = tasks.countP Task.active

/-- What `run` and its tasks have to do with each other. -/
structure Holds (loop : Pipeline.State C) (tasks : List Task) (joined : Nat) : Prop where
  spawned : tasks.length = loop.spawned.length
  reported : joined ≤ (tasks.filterMap Task.done).length
  joinSet : (∀ r, loop.pc ≠ .returned r) → loop.joinSet + joined = tasks.length
  going : (∀ r, loop.pc ≠ .returned r) → ∀ o, .stopped o ∉ tasks

variable {cfg into} {g g' : State F H C} {tasks : List Task} {p p' : Pool.State F H} {active : Int}
  {entries : List RequestEntry} {loop loop' : Pipeline.State C} {joined : Nat} {l1 l2 : List Task}

/-! ## The tasks, the connections and the recorder -/

/-- A task that is stopped has waited or run, and keeps its connection. -/
inductive Stops (p : Pool.State F H) : Task → Task → Prop where
  | waiting :
    Stops p .waiting (.stopped none)
  | running {i} :
    entry p i = none →
    Stops p (.running i) (.stopped (some i))

omit [Frame F] [ConnectionHook H F] in
/-- The two ways to stop a task. -/
lemma stops_of_stop {t t' : Task} (stopped : stop p t = some t') : Stops p t t' := by
  cases t with
  | waiting =>
    cases stopped
    exact .waiting
  | running i =>
    simp only [stop, Option.ite_none_right_eq_some, Option.isNone_iff_eq_none, Option.some.injEq] at stopped
    obtain ⟨here, rfl⟩ := stopped
    exact .running here
  | ended i => cases stopped
  | stopped o => cases stopped

omit [Frame F] [ConnectionHook H F] in
/-- A task that is stopped has not ended. -/
lemma Stops.done {t t' : Task} (stops : Stops p t t') : t.done = none := by
  cases stops with
  | waiting => rfl
  | running _ => rfl

omit [Frame F] [ConnectionHook H F] in
/-- Stopping a task leaves the connections and the recorder as they are. -/
lemma Fits.stop {t t' : Task} (fits : Fits (l1 ++ t :: l2) p active entries) (stops : Stops p t t') :
    Fits (l1 ++ t' :: l2) p active entries := by
  have conn : t'.conn = t.conn := by
    cases stops with
    | waiting => rfl
    | running _ => rfl
  have done : t'.done = t.done := by
    cases stops with
    | waiting => rfl
    | running _ => rfl
  have counts : t'.active = t.active := by
    cases stops with
    | waiting => rfl
    | running _ => rfl
  obtain ⟨conns, ⟨ended, perm, known⟩, count⟩ := fits
  refine ⟨?_, ⟨ended, ?_, known⟩, ?_⟩
  · rw [List.filterMap_append, List.filterMap_cons, conn, ← List.filterMap_cons, ← List.filterMap_append]
    exact conns
  · rw [List.filterMap_append, List.filterMap_cons, done, ← List.filterMap_cons, ← List.filterMap_append]
    exact perm
  · rw [List.countP_append, List.countP_cons, counts, ← List.countP_cons, ← List.countP_append]
    exact count

omit [Frame F] [ConnectionHook H F] in
/-- A new task waits to be polled. -/
lemma Fits.spawn (fits : Fits tasks p active entries) : Fits (tasks ++ [.waiting]) p active entries := by
  refine ⟨?_, ?_, ?_⟩
  · rw [List.filterMap_append]
    exact (List.append_nil _).symm ▸ fits.conns
  · rw [List.filterMap_append]
    exact (List.append_nil _).symm ▸ fits.entries
  · rw [fits.active, List.countP_append]
    rfl

/-- A connection that has returned keeps its entry. -/
lemma entry_step {a : Pool.Action F} (st : Pool.step cfg p a = some p') {i : Nat} {e : RequestEntry}
    (known : entry p i = some e) : entry p' i = some e := by
  rw [entry] at known
  split at known
  · rename_i c here
    split at known
    · rename_i r pc
      have there := (Pool.step_moves st).finished here pc
      rw [entry, there]
      dsimp only
      rw [pc]
      exact known
    · cases known
  · cases known

omit [Frame F] [ConnectionHook H F] in
/-- A connection with an entry has returned. -/
lemma exists_of_entry {i : Nat} {e : RequestEntry} (known : entry p i = some e) :
    ∃ c r, p.conns[i]? = some c ∧ c.state.pc = .finished r := by
  rw [entry] at known
  split at known
  · rename_i c here
    split at known
    · rename_i r pc
      exact ⟨c, r, here, pc⟩
    · cases known
  · cases known

/-- The entries of connections that have returned stay. -/
lemma entries_step {a : Pool.Action F} (st : Pool.step cfg p a = some p') {ended : List Nat}
    (known : ended.map (entry p) = entries.map some) : ended.map (entry p') = entries.map some := by
  rw [← known]
  refine List.map_congr_left fun i mem => ?_
  have mem : entry p i ∈ entries.map some := by
    rw [← known]
    exact List.mem_map_of_mem mem
  obtain ⟨e, -, same⟩ := List.mem_map.1 mem
  rw [← same, entry_step st same.symm]

/-- A task that begins gets the next connection. -/
lemma Fits.start (fits : Fits (l1 ++ .waiting :: l2) p active entries)
    (st : Pool.step cfg p .accept = some p') : Fits (l1 ++ .running p.conns.length :: l2) p' (active + 1) entries := by
  obtain ⟨conns, ⟨ended, perm, known⟩, count⟩ := fits
  have more : p'.conns.length = p.conns.length + 1 := by
    cases st
    exact List.length_append
  refine ⟨?_, ⟨ended, ?_, entries_step st known⟩, ?_⟩
  · rw [List.filterMap_append, List.filterMap_cons] at conns ⊢
    rw [more, List.range_succ]
    exact List.perm_middle.trans ((conns.cons _).trans (List.perm_append_singleton _ _).symm)
  · rw [List.filterMap_append, List.filterMap_cons] at perm ⊢
    exact perm
  · rw [List.countP_append, List.countP_cons] at count ⊢
    rw [count]
    show ((_ + (_ + 0) : Nat) : Int) + 1 = ((_ + (_ + 1) : Nat) : Int)
    omega

/-- A step of the connections of the tasks. -/
lemma Fits.conn {a : Pool.Action F} (fits : Fits tasks p active entries) (st : Pool.step cfg p a = some p')
    (same : p'.conns.length = p.conns.length) : Fits tasks p' active entries := by
  obtain ⟨conns, ⟨ended, perm, known⟩, count⟩ := fits
  exact ⟨same ▸ conns, ⟨ended, perm, entries_step st known⟩, count⟩

omit [Frame F] [ConnectionHook H F] in
/-- A task that ends logs its entry. -/
lemma Fits.finish {i : Nat} {e : RequestEntry} (fits : Fits (l1 ++ .running i :: l2) p active entries)
    (known : entry p i = some e) : Fits (l1 ++ .ended i :: l2) p (active - 1) (entries ++ [e]) := by
  obtain ⟨conns, ⟨ended, perm, each⟩, count⟩ := fits
  refine ⟨?_, ⟨ended ++ [i], ?_, ?_⟩, ?_⟩
  · rw [List.filterMap_append, List.filterMap_cons] at conns ⊢
    exact conns
  · rw [List.filterMap_append, List.filterMap_cons] at perm ⊢
    exact (List.perm_append_singleton i ended).trans ((perm.cons i).trans List.perm_middle.symm)
  · rw [List.map_append, List.map_append, each, List.map_singleton, known]
    rfl
  · rw [List.countP_append, List.countP_cons] at count ⊢
    rw [count]
    show ((_ + (_ + 1) : Nat) : Int) - 1 = ((_ + (_ + 0) : Nat) : Int)
    omega

/-- A step of a connection accepts no other. -/
lemma length_advance {q : Pool.State F H} {i : Nat} {a : Service.Action F Nat}
    (st : q.advance cfg i a = some p') (conns : q.conns = p.conns) : p'.conns.length = p.conns.length := by
  obtain ⟨c, -, rest⟩ := Option.bind_eq_some_iff.1 st
  obtain ⟨s, -, same⟩ := Option.bind_eq_some_iff.1 rest
  cases same
  exact List.length_set.trans (congrArg List.length conns)

/-- Only `start` brings a connection. -/
lemma length_step {a : Pool.Action F} (st : Pool.step cfg p a = some p') (may : goes tasks a = true) :
    p'.conns.length = p.conns.length := by
  cases a with
  | accept => cases may
  | conn i a =>
    simp only [Pool.step, Option.ite_none_right_eq_some] at st
    exact length_advance st.2 rfl
  | pop i now =>
    simp only [Pool.step] at st
    split at st
    · split at st
      · obtain ⟨c, -, same⟩ := Option.bind_eq_some_iff.1 st
        cases same
        exact List.length_set
      · exact length_advance st rfl
    · cases st
  | remove i =>
    simp only [Pool.step] at st
    split at st
    · exact length_advance st rfl
    · cases st
  | route i r =>
    cases r with
    | error err => exact length_advance st rfl
    | ok u =>
      simp only [Pool.step] at st
      split at st
      · exact length_advance st rfl
      · cases st
  | release i now =>
    simp only [Pool.step] at st
    split at st
    · split at st
      · exact length_advance st rfl
      · exact length_advance st rfl
    · cases st
  | reap now =>
    cases st
    rfl

/-! ## `run` and its tasks -/

/-- A step of `run`. -/
inductive Loops (into : E → RailscaleError) (loop : Pipeline.State C) :
    Pipeline.Action E C → Pipeline.State C → Prop where
  | cancelled :
    loop.pc = .accepting →
    Loops into loop .cancelled loop.drain
  | accepted {c} :
    loop.pc = .accepting →
    Loops into loop (.accepted (.ok c)) { loop with spawned := loop.spawned ++ [c], joinSet := loop.joinSet + 1 }
  | failed {e} :
    loop.pc = .accepting →
    Loops into loop (.accepted (.error e)) { loop with pc := .returned (.error (into e)), joinSet := 0 }
  | joined :
    loop.pc = .draining →
    Loops into loop .joined (Pipeline.State.drain { loop with joinSet := loop.joinSet - 1 })
  | timeout :
    loop.pc = .draining →
    Loops into loop .drainTimeout { loop with pc := .returned (.ok ()), joinSet := 0 }

/-- Every step of `run` is one of these. -/
lemma loops_of_step {a : Pipeline.Action E C} (st : Pipeline.step into loop a = some loop') :
    Loops into loop a loop' := by
  unfold Pipeline.step at st
  split at st
  · rename_i here
    cases st
    exact .cancelled here
  · rename_i here
    cases st
    exact .accepted here
  · rename_i here
    cases st
    exact .failed here
  · rename_i here
    cases st
    exact .joined here
  · rename_i here
    cases st
    exact .timeout here
  · cases st

/-- Before `run` returns, the tasks in the `JoinSet` are those that have not been reported. -/
lemma Holds.going_of (holds : Holds loop tasks joined) {pc : Pipeline.Pc} (here : loop.pc = pc)
    (other : ∀ r, pc ≠ .returned r) :
    loop.joinSet + joined = tasks.length ∧ ∀ o, .stopped o ∉ tasks :=
  ⟨holds.joinSet fun r => here ▸ other r, holds.going fun r => here ▸ other r⟩

/-- When every task is reported, they all have ended. -/
lemma done_of_joined (reported : joined ≤ (tasks.filterMap Task.done).length) (all : tasks.length ≤ joined) :
    ∀ t ∈ tasks, t.done ≠ none := by
  have whole : (tasks.filterMap Task.done).length = tasks.length :=
    Nat.le_antisymm (List.length_filterMap_le _ _) (Nat.le_trans all reported)
  intro t mem none
  have isSome := List.filterMap_length_eq_length.1 whole t mem
  rw [none] at isSome
  cases isSome

/-- Draining goes on, or returns when every task is reported. -/
lemma Holds.drain (spawned : tasks.length = loop.spawned.length)
    (reported : joined ≤ (tasks.filterMap Task.done).length) (joinSet : loop.joinSet + joined = tasks.length)
    (going : ∀ o, .stopped o ∉ tasks) : Holds loop.drain tasks joined := by
  rw [Pipeline.State.drain]
  split
  · exact ⟨spawned, reported, fun not => absurd rfl (not _), fun not => absurd rfl (not _)⟩
  · exact ⟨spawned, reported, fun _ => joinSet, fun _ => going⟩

/-- Returning asks nothing more of the tasks. -/
lemma Holds.returns {r : Except RailscaleError Unit} (holds : Holds loop tasks joined) (pc : loop'.pc = .returned r)
    (spawned : loop'.spawned = loop.spawned) : Holds loop' tasks joined where
  spawned := holds.spawned.trans (congrArg _ spawned.symm)
  reported := holds.reported
  joinSet not := absurd pc (not r)
  going not := absurd pc (not r)

/-! ## Whole runs -/

/-- What every step keeps. -/
structure Inv (g : State F H C) : Prop where
  fits : Fits g.tasks g.pool g.active g.entries
  holds : Holds g.loop g.tasks g.joined

omit [Frame F] [ConnectionHook H F] in
/-- At the start there is no task. -/
lemma Inv.init (config : StablingConfig) : Server.Inv (State.init config : State F H C) where
  fits := ⟨.nil, ⟨[], .nil, rfl⟩, rfl⟩
  holds := by
    exact ⟨rfl, Nat.le_refl 0, fun _ => rfl, fun _ _ => List.not_mem_nil⟩

/-- A task that has not ended takes a step. It is stopped only behind the return. -/
lemma Holds.replace {t : Task} (holds : Holds loop (l1 ++ t :: l2) joined) (done : t.done = none)
    (t' : Task) (live : (∀ r, loop.pc ≠ .returned r) → ∀ o, t' ≠ .stopped o) : Holds loop (l1 ++ t' :: l2) joined := by
  have length : (l1 ++ t' :: l2).length = (l1 ++ t :: l2).length := by
    rw [List.length_append, List.length_append]
    rfl
  refine ⟨length.trans holds.spawned, ?_, fun not => (holds.joinSet not).trans length.symm, fun not o there => ?_⟩
  · refine Nat.le_trans holds.reported ?_
    rw [List.filterMap_append, List.filterMap_append, List.filterMap_cons, done, List.length_append, List.length_append]
    exact Nat.add_le_add_left ((List.sublist_cons_self t' l2).filterMap _).length_le _
  · refine holds.going not o ?_
    rcases List.mem_append.1 there with there | there
    · exact List.mem_append_left _ there
    · rcases List.mem_cons.1 there with same | there
      · exact absurd same.symm (live not o)
      · exact List.mem_append_right _ (List.mem_cons_of_mem _ there)

/-- A connection that is accepted gets its task. -/
lemma Holds.spawn {c : C} (holds : Holds loop tasks joined) (here : loop.pc = .accepting) :
    Holds { loop with spawned := loop.spawned ++ [c], joinSet := loop.joinSet + 1 } (tasks ++ [.waiting]) joined := by
  obtain ⟨joinSet, going⟩ := holds.going_of here nofun
  refine ⟨?_, ?_, fun _ => ?_, fun _ o there => ?_⟩
  · rw [List.length_append, List.length_append, holds.spawned]
    rfl
  · rw [List.filterMap_append, List.length_append]
    exact Nat.le_add_right_of_le holds.reported
  · rw [List.length_append, ← joinSet]
    exact Nat.add_right_comm _ _ _
  · rcases List.mem_append.1 there with there | there
    · exact going o there
    · cases List.mem_singleton.1 there

omit [Frame F] [ConnectionHook H F] in
/-- A step of `run`, with its tasks. -/
lemma Inv.turn {a : Pipeline.Action E C} (inv : Server.Inv g) (st : stepLoop into g a = some g') : Server.Inv g' := by
  obtain ⟨fits, holds⟩ := inv
  unfold stepLoop at st
  split at st
  · cases st
  rename_i loop' move
  cases loops_of_step move with
  | cancelled here =>
    obtain ⟨joinSet, going⟩ := holds.going_of here nofun
    cases st
    exact ⟨fits, .drain holds.spawned holds.reported joinSet going⟩
  | accepted here =>
    cases st
    exact ⟨fits.spawn, holds.spawn here⟩
  | failed here =>
    cases st
    exact ⟨fits, holds.returns rfl rfl⟩
  | joined here =>
    obtain ⟨joinSet, going⟩ := holds.going_of here nofun
    simp only [Option.ite_none_right_eq_some] at st
    obtain ⟨less, st⟩ := st
    cases st
    have most : g.done.length ≤ g.tasks.length := List.length_filterMap_le _ _
    refine ⟨fits, .drain holds.spawned less ?_ going⟩
    show g.loop.joinSet - 1 + (g.joined + 1) = g.tasks.length
    omega
  | timeout here =>
    cases st
    exact ⟨fits, holds.returns rfl rfl⟩

/-- What it takes to stop a task. -/
lemma exists_of_stop {t : Nat} (st : Server.step cfg into g (.stop t) = some g') :
    ∃ r t0 t', g.loop.pc = .returned r ∧ g.tasks[t]? = some t0 ∧ Stops g.pool t0 t' ∧
      g' = { g with tasks := g.tasks.set t t' } := by
  simp only [Server.step] at st
  split at st
  · rename_i r pc
    obtain ⟨t', stopped, rfl⟩ := Option.map_eq_some_iff.1 st
    obtain ⟨t0, here, stopped⟩ := Option.bind_eq_some_iff.1 stopped
    exact ⟨r, t0, t', pc, here, stops_of_stop stopped, rfl⟩
  · cases st

/-- A step keeps the invariant. -/
lemma Inv.step {a : Action F E C} (inv : Server.Inv g) (st : Server.step cfg into g a = some g') : Server.Inv g' := by
  cases a with
  | loop a => exact inv.turn st
  | start t =>
    simp only [Server.step, Option.ite_none_right_eq_some] at st
    obtain ⟨waits, st⟩ := st
    obtain ⟨p, move, rfl⟩ := Option.map_eq_some_iff.1 st
    obtain ⟨l1, l2, split, set⟩ := exists_split_of_getElem? waits
    obtain ⟨fits, holds⟩ := inv
    rw [split] at fits holds
    have fits' := fits.start move
    have holds' := holds.replace rfl (.running g.pool.conns.length) nofun
    rw [← set] at fits' holds'
    exact ⟨fits', holds'⟩
  | conn a =>
    simp only [Server.step, Option.ite_none_right_eq_some] at st
    obtain ⟨may, st⟩ := st
    obtain ⟨p, move, rfl⟩ := Option.map_eq_some_iff.1 st
    exact ⟨inv.fits.conn move (length_step move may), inv.holds⟩
  | finish t =>
    simp only [Server.step] at st
    split at st
    · rename_i i runs
      obtain ⟨e, known, rfl⟩ := Option.map_eq_some_iff.1 st
      obtain ⟨l1, l2, split, set⟩ := exists_split_of_getElem? runs
      obtain ⟨fits, holds⟩ := inv
      rw [split] at fits holds
      have fits' := fits.finish known
      have holds' := holds.replace rfl (.ended i) nofun
      rw [← set] at fits' holds'
      exact ⟨fits', holds'⟩
    · cases st
  | stop t =>
    obtain ⟨r, t0, t', pc, here, stops, rfl⟩ := exists_of_stop st
    obtain ⟨l1, l2, split, set⟩ := exists_split_of_getElem? here
    obtain ⟨fits, holds⟩ := inv
    rw [split] at fits holds
    have fits' := fits.stop stops
    have holds' := holds.replace stops.done t' fun not => absurd pc (not r)
    rw [← set] at fits' holds'
    exact ⟨fits', holds'⟩

/-! ### Draining in time -/

/-- Nothing has been stopped unless an `accept` has failed. -/
structure InTime (g : State F H C) : Prop where
  stopped : ∀ o, .stopped o ∈ g.tasks → ∃ e, g.loop.pc = .returned (.error e)
  joined : g.loop.pc = .returned (.ok ()) → g.joined = g.tasks.length

omit [Frame F] [ConnectionHook H F] in
/-- At the start nothing has been stopped. -/
lemma InTime.init (config : StablingConfig) : InTime (State.init config : State F H C) where
  stopped _ mem := absurd mem List.not_mem_nil
  joined pc := by cases pc

omit [Frame F] [ConnectionHook H F] in
/-- A drain that returns has reported all tasks. -/
lemma drain_joined (joinSet : loop.joinSet + joined = tasks.length) (pc : loop.drain.pc = .returned (.ok ())) :
    joined = tasks.length := by
  rw [Pipeline.State.drain] at pc
  split at pc
  · rename_i empty
    rw [← joinSet, empty, Nat.zero_add]
  · cases pc

omit [Frame F] [ConnectionHook H F] in
/-- A step of `run` other than the end of `drain_timeout` stops nothing before its time. -/
lemma InTime.of_turn {a : Pipeline.Action E C} (inv : Server.Inv g) (other : a ≠ .drainTimeout)
    (st : stepLoop into g a = some g') : InTime g' := by
  obtain ⟨fits, holds⟩ := inv
  unfold stepLoop at st
  split at st
  · cases st
  rename_i loop' move
  cases loops_of_step move with
  | cancelled here =>
    obtain ⟨joinSet, going⟩ := holds.going_of here nofun
    cases st
    exact ⟨fun o mem => absurd mem (going o), fun pc => drain_joined joinSet pc⟩
  | accepted here =>
    obtain ⟨-, going⟩ := holds.going_of here nofun
    cases st
    refine ⟨fun o mem => ?_, fun pc => ?_⟩
    · rcases List.mem_append.1 mem with mem | mem
      · exact absurd mem (going o)
      · cases List.mem_singleton.1 mem
    · cases here.symm.trans pc
  | failed here =>
    cases st
    exact ⟨fun o mem => ⟨_, rfl⟩, nofun⟩
  | joined here =>
    obtain ⟨joinSet, going⟩ := holds.going_of here nofun
    simp only [Option.ite_none_right_eq_some] at st
    obtain ⟨less, st⟩ := st
    cases st
    have most : g.done.length ≤ g.tasks.length := List.length_filterMap_le _ _
    refine ⟨fun o mem => absurd mem (going o), fun pc => drain_joined ?_ pc⟩
    show g.loop.joinSet - 1 + (g.joined + 1) = g.tasks.length
    omega
  | timeout here => exact absurd rfl other

/-- Nor does any other step. -/
lemma InTime.step {a : Action F E C} (inTime : InTime g) (inv : Server.Inv g) (other : a ≠ .loop .drainTimeout)
    (st : Server.step cfg into g a = some g') : InTime g' := by
  have keeps : ∀ (t : Nat) (b : Task), (∀ o, b ≠ .stopped o) → ∀ o, .stopped o ∈ g.tasks.set t b →
      ∃ e, g.loop.pc = .returned (.error e) := by
    intro t b live o mem
    rcases List.mem_or_eq_of_mem_set mem with mem | same
    · exact inTime.stopped o mem
    · exact absurd same.symm (live o)
  cases a with
  | loop a => exact .of_turn inv (fun same => other (congrArg _ same)) st
  | start t =>
    simp only [Server.step, Option.ite_none_right_eq_some] at st
    obtain ⟨-, st⟩ := st
    obtain ⟨p, -, rfl⟩ := Option.map_eq_some_iff.1 st
    exact ⟨keeps t _ nofun, fun pc => (inTime.joined pc).trans List.length_set.symm⟩
  | conn a =>
    simp only [Server.step, Option.ite_none_right_eq_some] at st
    obtain ⟨-, st⟩ := st
    obtain ⟨p, -, rfl⟩ := Option.map_eq_some_iff.1 st
    exact ⟨inTime.stopped, inTime.joined⟩
  | finish t =>
    simp only [Server.step] at st
    split at st
    · obtain ⟨e, -, rfl⟩ := Option.map_eq_some_iff.1 st
      exact ⟨keeps t _ nofun, fun pc => (inTime.joined pc).trans List.length_set.symm⟩
    · cases st
  | stop t =>
    obtain ⟨r, t0, t', pc, here, stops, rfl⟩ := exists_of_stop st
    -- a return in time leaves no task to stop
    have failed : ∃ e, g.loop.pc = .returned (.error e) := by
      cases r with
      | error e => exact ⟨e, pc⟩
      | ok _ =>
        have all := done_of_joined inv.holds.reported (Nat.le_of_eq (inTime.joined pc).symm)
        exact absurd stops.done (all t0 (List.mem_of_getElem? here))
    exact ⟨fun _ _ => failed, fun pc => (inTime.joined pc).trans List.length_set.symm⟩

/-- What the steps of a run keep that does not time out. -/
lemma inTime_of_run {as : List (Action F E C)} (run : Run (Server.step cfg into) g as g') (inv : Server.Inv g)
    (start : InTime g) (never : .loop .drainTimeout ∉ as) : Server.Inv g' ∧ InTime g' := by
  induction run with
  | nil => exact ⟨inv, start⟩
  | cons st _ ih =>
    have other := List.ne_of_not_mem_cons never
    exact ih (inv.step st) (start.step inv (Ne.symm other) st) (List.not_mem_of_not_mem_cons never)

/-- `run` returns `Ok` before the end of `drain_timeout` only when every connection that it has accepted has been
handled: `do_connection` has returned on each, nothing counts as active, and the recorder has one entry for each. -/
theorem drained_of_run {config : StablingConfig} {as : List (Action F E C)}
    (run : Run (Server.step cfg into) (State.init config) as g) (ok : g.loop.pc = .returned (.ok ()))
    (never : .loop .drainTimeout ∉ as) :
    (∀ t ∈ g.tasks, ∃ i c r, t = .ended i ∧ g.pool.conns[i]? = some c ∧ c.state.pc = .finished r) ∧
      g.tasks.length = g.loop.spawned.length ∧ g.pool.conns.length = g.loop.spawned.length ∧ g.active = 0 ∧
      (g.entries.map some).Perm ((List.range g.pool.conns.length).map (entry g.pool)) := by
  obtain ⟨⟨⟨conns, ⟨ended, perm, known⟩, active⟩, holds⟩, inTime⟩ :=
    inTime_of_run run (.init config) (.init config) never
  have all : ∀ t ∈ g.tasks, ∃ i, t = .ended i := by
    intro t mem
    have isDone := done_of_joined holds.reported (Nat.le_of_eq (inTime.joined ok).symm) t mem
    cases t with
    | ended i => exact ⟨i, rfl⟩
    | _ => exact absurd rfl isDone
  have same : g.tasks.filterMap Task.done = g.tasks.filterMap Task.conn := by
    refine List.filterMap_congr fun t mem => ?_
    obtain ⟨i, rfl⟩ := all t mem
    rfl
  have everyone : ended.Perm (List.range g.pool.conns.length) := perm.trans (same ▸ conns)
  have count : (g.tasks.filterMap Task.conn).length = g.tasks.length := by
    refine List.filterMap_length_eq_length.2 fun t mem => ?_
    obtain ⟨i, rfl⟩ := all t mem
    rfl
  refine ⟨fun t mem => ?_, holds.spawned, ?_, ?_, known ▸ everyone.map _⟩
  · obtain ⟨i, rfl⟩ := all t mem
    have mem : i ∈ ended := perm.mem_iff.2 (List.mem_filterMap.2 ⟨_, mem, rfl⟩)
    have mem : entry g.pool i ∈ g.entries.map some := by
      rw [← known]
      exact List.mem_map_of_mem mem
    obtain ⟨e, -, same⟩ := List.mem_map.1 mem
    obtain ⟨c, r, here, pc⟩ := exists_of_entry same.symm
    exact ⟨i, c, r, rfl, here, pc⟩
  · have length := conns.length_eq
    rw [List.length_range, count, holds.spawned] at length
    exact length.symm
  · rw [active]
    refine Int.natCast_eq_zero.2 (List.countP_eq_zero.2 fun t mem => ?_)
    obtain ⟨i, rfl⟩ := all t mem
    exact nofun

end system

section http

open Http Pool

/-- Two connections that share a destination, from their `accept` to the return of `run`. -/
def drainedActions : List (Action HttpFrame Empty Unit) :=
  [.loop (.accepted (.ok ())), .loop (.accepted (.ok ())), .start 0, .start 1] ++
    (sharedActions.drop 2 ++ Pool.Action.conn 0 (.clientItem none) :: Gauge.endOf 1 3).map .conn ++
    [.loop .cancelled, .finish 0, .finish 1, .loop .joined, .loop .joined]

/-- Both have been handled. -/
theorem drained_of_run_shared :
    ∃ g, Run (Server.step pooledConfig Empty.elim) (State.init {}) drainedActions g ∧ g.loop.pc = .returned (.ok ()) ∧
      (∀ t ∈ g.tasks, ∃ i c r, t = .ended i ∧ g.pool.conns[i]? = some c ∧ c.state.pc = .finished r) ∧
      g.entries = [⟨18, 0, false⟩, ⟨18, 0, false⟩] := by
  have run : Run (Server.step pooledConfig Empty.elim) (State.init {}) drainedActions _ := .of_exec rfl
  have never : .loop .drainTimeout ∉ drainedActions := by
    intro mem
    rw [drainedActions, List.mem_append, List.mem_append, List.mem_map] at mem
    rcases mem with (mem | ⟨a, -, same⟩) | mem
    · simp at mem
    · cases same
    · simp at mem
  exact ⟨_, run, rfl, (drained_of_run run rfl never).1, rfl⟩

end http

section system

variable {F H E C : Type} [Frame F] [ConnectionHook H F] {cfg : Config F H} {into : E → RailscaleError}
  {g g' : State F H C}

/-! ### Behind the return -/

/-- A task that was stopped on its connection. -/
def Task.lost : Task → Bool
  | .stopped (some _) => true
  | _ => false

/-- A task that takes no step any more. -/
def Task.settled : Task → Bool
  | .ended _ => true
  | .stopped _ => true
  | _ => false

/-- The connections, their tasks and the recorder stay as they are. -/
structure Stays (g g' : State F H C) : Prop where
  loop : g'.loop = g.loop
  tasks : g'.tasks = g.tasks
  conns : g'.pool.conns = g.pool.conns
  active : g'.active = g.active
  entries : g'.entries = g.entries

omit [Frame F] [ConnectionHook H F] in
/-- Nothing changes from a state to itself. -/
lemma Stays.refl (g : State F H C) : Stays g g := by
  constructor <;> rfl

omit [Frame F] [ConnectionHook H F] in
/-- What stays twice stays. -/
lemma Stays.trans {g1 g2 g3 : State F H C} (first : Stays g1 g2) (second : Stays g2 g3) : Stays g1 g3 where
  loop := second.loop.trans first.loop
  tasks := second.tasks.trans first.tasks
  conns := second.conns.trans first.conns
  active := second.active.trans first.active
  entries := second.entries.trans first.entries

/-- Behind the return of `run`, when every task has ended or was stopped, only the reaper goes on. -/
lemma stays_of_step {a : Action F E C} {r : Except RailscaleError Unit} (pc : g.loop.pc = .returned r)
    (settled : ∀ t ∈ g.tasks, t.settled = true) (st : Server.step cfg into g a = some g') : Stays g g' := by
  cases a with
  | loop a =>
    simp only [Server.step, stepLoop] at st
    split at st
    · cases st
    · rename_i loop' move
      cases loops_of_step move with
      | cancelled here | accepted here | failed here | joined here | timeout here => cases here.symm.trans pc
  | start t =>
    simp only [Server.step, Option.ite_none_right_eq_some] at st
    cases settled _ (List.mem_of_getElem? st.1)
  | conn a =>
    simp only [Server.step, Option.ite_none_right_eq_some] at st
    obtain ⟨may, st⟩ := st
    have idle : ∀ i, g.tasks.contains (.running i) = true → False := by
      intro i runs
      cases settled _ (List.contains_iff_mem.1 runs)
    cases a with
    | accept => cases may
    | reap now =>
      cases st
      exact ⟨rfl, rfl, rfl, rfl, rfl⟩
    | _ => exact (idle _ may).elim
  | finish t =>
    simp only [Server.step] at st
    split at st
    · rename_i i runs
      cases settled _ (List.mem_of_getElem? runs)
    · cases st
  | stop t =>
    obtain ⟨-, t0, t', -, here, stops, -⟩ := exists_of_stop st
    have settled := settled _ (List.mem_of_getElem? here)
    cases stops with
    | waiting => cases settled
    | running _ => cases settled

/-- So it is for ever. -/
lemma stays_of_run {as : List (Action F E C)} {r : Except RailscaleError Unit}
    (run : Run (Server.step cfg into) g as g') (pc : g.loop.pc = .returned r)
    (settled : ∀ t ∈ g.tasks, t.settled = true) : Stays g g' := by
  induction run with
  | nil => exact .refl _
  | cons st _ ih =>
    have stays := stays_of_step pc settled st
    exact stays.trans (ih (stays.loop ▸ pc) (stays.tasks ▸ settled))

omit [Frame F] [ConnectionHook H F] in
/-- A task that is replaced was not lost. -/
lemma lost_set {t : Nat} {t0 : Task} (here : g.tasks[t]? = some t0) (live : t0.lost = false) (t' : Task) :
    g.tasks.countP Task.lost ≤ (g.tasks.set t t').countP Task.lost := by
  obtain ⟨l1, l2, split, set⟩ := exists_split_of_getElem? here
  rw [set, split, List.countP_append, List.countP_append, List.countP_cons, List.countP_cons, live]
  exact Nat.add_le_add_left (Nat.add_le_add_left (Nat.zero_le _) _) _

/-- No step takes back that a connection is lost. -/
lemma lost_of_step {a : Action F E C} (st : Server.step cfg into g a = some g') :
    g.tasks.countP Task.lost ≤ g'.tasks.countP Task.lost := by
  cases a with
  | loop a =>
    simp only [Server.step, stepLoop] at st
    split at st
    · cases st
    · rename_i loop' move
      cases loops_of_step move with
      | cancelled here | failed here | timeout here =>
        cases st
        exact Nat.le_refl _
      | accepted here =>
        cases st
        exact ((List.sublist_append_left g.tasks [.waiting]).countP_le)
      | joined here =>
        simp only [Option.ite_none_right_eq_some] at st
        cases st.2
        exact Nat.le_refl _
  | start t =>
    simp only [Server.step, Option.ite_none_right_eq_some] at st
    obtain ⟨waits, st⟩ := st
    obtain ⟨p, -, rfl⟩ := Option.map_eq_some_iff.1 st
    exact lost_set waits rfl _
  | conn a =>
    simp only [Server.step, Option.ite_none_right_eq_some] at st
    obtain ⟨-, st⟩ := st
    obtain ⟨p, -, rfl⟩ := Option.map_eq_some_iff.1 st
    exact Nat.le_refl _
  | finish t =>
    simp only [Server.step] at st
    split at st
    · rename_i i runs
      obtain ⟨e, -, rfl⟩ := Option.map_eq_some_iff.1 st
      exact lost_set runs rfl _
    · cases st
  | stop t =>
    obtain ⟨-, t0, t', -, here, stops, rfl⟩ := exists_of_stop st
    apply lost_set here
    cases stops with
    | waiting => rfl
    | running _ => rfl

/-- So it is over whole runs. -/
lemma lost_of_run {as : List (Action F E C)} (run : Run (Server.step cfg into) g as g') :
    g.tasks.countP Task.lost ≤ g'.tasks.countP Task.lost := by
  induction run with
  | nil => exact Nat.le_refl _
  | cons st _ ih => exact Nat.le_trans (lost_of_step st) ih

/-- A task that may still take a step can end, when its connection has returned, or be stopped. -/
lemma exists_settling {r : Except RailscaleError Unit} {t : Nat} {t0 : Task} (pc : g.loop.pc = .returned r)
    (here : g.tasks[t]? = some t0) (live : t0.settled = false) :
    ∃ (a : Action F E C) (g' : State F H C) (t' : Task), Server.step cfg into g a = some g' ∧ g'.loop = g.loop ∧
      g'.tasks = g.tasks.set t t' ∧ t'.settled = true := by
  cases t0 with
  | waiting =>
    refine ⟨.stop t, { g with tasks := g.tasks.set t (.stopped none) }, _, ?_, rfl, rfl, rfl⟩
    simp only [Server.step, pc, here, Option.bind_some, stop, Option.map_some]
  | running i =>
    cases known : entry g.pool i with
    | some e =>
      refine ⟨.finish t,
        { g with tasks := g.tasks.set t (.ended i), active := g.active - 1, entries := g.entries ++ [e] },
        _, ?_, rfl, rfl, rfl⟩
      simp only [Server.step, here, known, Option.map_some]
    | none =>
      refine ⟨.stop t, { g with tasks := g.tasks.set t (.stopped (some i)) }, _, ?_, rfl, rfl, rfl⟩
      simp only [Server.step, pc, here, Option.bind_some, stop, known, Option.isNone_none, if_true, Option.map_some]
  | ended i => cases live
  | stopped o => cases live

/-- Behind the return every task comes to its end or is stopped. -/
lemma exists_settled {r : Except RailscaleError Unit} (pc : g.loop.pc = .returned r) :
    ∃ (bs : List (Action F E C)) (g' : State F H C), Run (Server.step cfg into) g bs g' ∧ g'.loop = g.loop ∧
      ∀ t ∈ g'.tasks, t.settled = true := by
  generalize left : g.tasks.countP (fun t => !t.settled) = n
  induction n generalizing g with
  | zero =>
    refine ⟨[], g, .nil, rfl, fun t mem => ?_⟩
    have none := List.countP_eq_zero.1 left t mem
    rw [Bool.not_eq_true', Bool.not_eq_false] at none
    exact none
  | succ n ih =>
    obtain ⟨t0, mem, live⟩ := List.countP_pos_iff.1 (left ▸ Nat.succ_pos n : 0 < g.tasks.countP fun t => !t.settled)
    rw [Bool.not_eq_true'] at live
    obtain ⟨t, here⟩ := List.mem_iff_getElem?.1 mem
    obtain ⟨a, g1, t', st, loop, tasks, settled⟩ := exists_settling pc here live
    obtain ⟨l1, l2, split, set⟩ := exists_split_of_getElem? here
    have fewer : g1.tasks.countP (fun t => !t.settled) = n := by
      rw [tasks, set, List.countP_append, List.countP_cons, settled]
      rw [split, List.countP_append, List.countP_cons, live] at left
      exact Nat.succ.inj left
    obtain ⟨bs, g', run, loop', all⟩ := ih (loop ▸ pc) fewer
    exact ⟨a :: bs, g', .cons st run, loop'.trans loop, all⟩

/-- The gauge of the active connections is right at every moment. A connection whose task was stopped counts for ever.
When `run` has returned, its tasks come to their ends or are stopped, and when they all have, the gauge counts the
connections that were stopped, and nothing but the reaper goes on. -/
theorem active_of_run {config : StablingConfig} {as : List (Action F E C)}
    (run : Run (Server.step cfg into) (State.init config) as g) :
    g.active = g.tasks.countP Task.active ∧
      (∀ bs g', Run (Server.step cfg into) g bs g' → g.tasks.countP Task.lost ≤ g'.active) ∧
      ∀ r, g.loop.pc = .returned r →
        (∃ bs g', Run (Server.step cfg into) g bs g' ∧ ∀ t ∈ g'.tasks, t.settled = true) ∧
          ((∀ t ∈ g.tasks, t.settled = true) → g.active = g.tasks.countP Task.lost ∧
            ∀ bs g', Run (Server.step cfg into) g bs g' → Stays g g') := by
  have inv : Server.Inv g := run.invariant (fun _ _ _ inv st => inv.step st) (.init config)
  refine ⟨inv.fits.active, fun bs g' more => ?_, fun r pc => ⟨?_, fun settled => ⟨?_, fun bs g' more => ?_⟩⟩⟩
  · have inv' : Server.Inv g' := more.invariant (fun _ _ _ inv st => inv.step st) inv
    have counted : g'.tasks.countP Task.lost ≤ g'.tasks.countP Task.active := by
      refine List.countP_mono_left fun t _ lost => ?_
      cases t with
      | stopped o =>
        cases o with
        | none => cases lost
        | some i => rfl
      | _ => cases lost
    rw [inv'.fits.active]
    exact Int.ofNat_le.2 (Nat.le_trans (lost_of_run more) counted)
  · obtain ⟨bs, g', more, -, settled⟩ := exists_settled pc
    exact ⟨bs, g', more, settled⟩
  · rw [inv.fits.active]
    refine congrArg _ (List.countP_congr fun t mem => ?_)
    cases t with
    | waiting => cases settled _ mem
    | running i => cases settled _ mem
    | ended i => rfl
    | stopped o =>
      cases o with
      | none => rfl
      | some i => rfl
  · exact stays_of_run more pc settled

end system

section http

open Http Pool

/-- A connection that is stopped because the next `accept` fails. -/
def lostActions : List (Action HttpFrame Unit Unit) :=
  [.loop (.accepted (.ok ())), .start 0, .conn (requestLineOf 0), .loop (.accepted (.error ())), .stop 0]

/-- It counts as active for ever. -/
theorem active_of_run_lost :
    ∃ g, Run (Server.step pooledConfig fun _ => .ofKind .connectionClosed) (State.init {}) lostActions g ∧
      g.active = 1 ∧ g.active = g.tasks.countP Task.lost ∧
      ∀ (bs : List (Action HttpFrame Unit Unit)) g',
        Run (Server.step pooledConfig fun _ => .ofKind .connectionClosed) g bs g' → Stays g g' := by
  have run : Run (Server.step pooledConfig fun _ => .ofKind .connectionClosed) (State.init {}) lostActions _ :=
    .of_exec rfl
  obtain ⟨-, -, behind⟩ := active_of_run run
  have settled : ∀ t ∈ [Task.stopped (some 0)], t.settled = true := by decide
  obtain ⟨counts, stays⟩ := (behind _ rfl).2 settled
  exact ⟨_, run, rfl, counts, stays⟩

end http

end Server

end Railscale
