import Railscale.Core.Relay
import Railscale.Lib.Run

/-!
# The phase of an error

`do_connection` names a phase in each error it returns. Whatever the streams, the pool and the router do, the phase
says how far the last request has got: it was not written to a destination and the client was told, or a write of it
was begun and failed, or it was written whole and the response was lost. The requests before it were all written
(`report_of_run`).
-/

namespace Railscale.Service

variable {F H D : Type}

/-! ## The phase that a step names -/

/-- The phases of the exits before the write. -/
inductive Unsent (err : RailscaleError) : Prop where
  | parse :
    err.phase = some .parse →
    Unsent err
  | routing :
    err.phase = some .routing →
    Unsent err
  | overflow :
    err.phase = some .forward →
    err.kind = .bufferLimitExceeded →
    Unsent err

/-- The phases of the exits behind the write, by the place. -/
inductive Sent (pc : Pc H D) (err : RailscaleError) : Prop where
  | forward {key dest} :
    pc = .writing key dest →
    err.phase = some .forward →
    Sent pc err
  | relay :
    (∀ key dest, pc ≠ .writing key dest) →
    err.phase = some .relay →
    Sent pc err

section exits

variable [Frame F] [ConnectionHook H F] {cfg : Config F H} {s s' : State F H D} {a : Action F D} {err : RailscaleError}

omit [Frame F] [ConnectionHook H F] in
/-- Failing returns the error that it is given. -/
lemma unsent_fail {t : State F H D} {cr : ConnectionResult} {e : RailscaleError} (unsent : Unsent e)
    (pc : (t.fail cfg cr e).pc = .finished (.error err)) : Unsent err := by
  rw [State.fail_eq] at pc
  cases pc
  exact unsent

omit [Frame F] [ConnectionHook H F] in
/-- The end of the pre-route loop fails with such a phase. -/
lemma unsent_endPreRoute {t : State F H D} {closed : Bool}
    (pc : (t.endPreRoute cfg closed).pc = .finished (.error err)) :
    Unsent err := by
  rw [State.endPreRoute] at pc
  split at pc
  · cases pc
  · exact unsent_fail (.parse rfl) pc

/-- An item of the client in the pre-route loop fails with such a phase. -/
lemma unsent_onPreRoute {o : Item F} (here : s.pc = .preRoute) (pc : (s.onPreRoute cfg o).pc = .finished (.error err)) :
    Unsent err := by
  have stays : s.pc = .finished (.error err) → Unsent err := fun pc => by cases here.symm.trans pc
  cases o with
  | none => exact unsent_endPreRoute pc
  | some r =>
    cases r with
    | error e =>
      simp only [State.onPreRoute] at pc
      split at pc
      · exact unsent_endPreRoute pc
      · exact unsent_fail (.parse rfl) pc
    | ok i =>
      simp only [State.onPreRoute] at pc
      split at pc
      · exact unsent_fail (.parse rfl) pc
      · cases i with
        | passthrough bs => exact stays pc
        | parsed f =>
          simp only at pc
          split at pc
          · rw [State.toAcquire] at pc
            split at pc
            · cases pc
            · cases pc
          · exact stays pc

omit [Frame F] in
/-- The checks behind the join fail with such a phase. -/
lemma unsent_afterJoin {key : Bytes} {dest : Except RailscaleError D}
    (pc : (s.afterJoin cfg key dest).pc = .finished (.error err)) : Unsent err := by
  simp only [State.afterJoin] at pc
  split at pc
  · exact unsent_fail (.overflow rfl rfl) pc
  · split at pc
    · exact unsent_fail (.parse rfl) pc
    · cases dest with
      | error e => exact unsent_fail (.routing rfl) pc
      | ok d => cases pc

omit [Frame F] in
/-- The end of the collecting future fails with such a phase. -/
lemma unsent_endPostRoute {key : Bytes} {dest : Option (Except RailscaleError D)}
    (pc : (s.endPostRoute cfg key dest).pc = .finished (.error err)) : Unsent err := by
  cases dest with
  | none => cases pc
  | some r => exact unsent_afterJoin pc

/-- An item of the client in the post-route loop fails with such a phase. -/
lemma unsent_onPostRoute {key : Bytes} {dest : Option (Except RailscaleError D)} {b : Bool} {o : Item F}
    (here : s.pc = .joining key dest b) (pc : (s.onPostRoute cfg key dest o).pc = .finished (.error err)) :
    Unsent err := by
  have stays : s.pc = .finished (.error err) → Unsent err := fun pc => by cases here.symm.trans pc
  cases o with
  | none => exact unsent_endPostRoute pc
  | some r =>
    cases r with
    | error e => exact unsent_endPostRoute pc
    | ok i =>
      simp only [State.onPostRoute] at pc
      split at pc
      · exact unsent_endPostRoute pc
      · cases i with
        | passthrough bs => exact stays pc
        | parsed f => exact stays pc

/-- A step up to the write fails with one of the early phases. -/
lemma unsent_of_step (early : ¬ s.pc.After) (st : step cfg s a = some s') (pc : s'.pc = .finished (.error err)) :
    Unsent err := by
  have late : ∀ {P : Prop} {pc'}, s.pc = pc' → pc'.After → P := fun here after => absurd (here ▸ after) early
  cases step_cases st with
  | preRoute here => exact unsent_onPreRoute here pc
  | acquired here => cases pc
  | postRoute here => exact unsent_onPostRoute here pc
  | routed here => cases pc
  | joined here => exact unsent_afterJoin pc
  | wrote here => exact late here trivial
  | writeError here => exact late here trivial
  | relay here => exact late here trivial
  | flushed here => exact late here trivial
  | flushedLast here => exact late here trivial
  | flushError here => exact here.elim (late · trivial) (late · trivial)
  | flushedError here => exact late here trivial
  | copied here => exact late here trivial
  | copyError here => exact late here trivial
  | released here _ => exact late here trivial
  | dropped here _ => exact late here trivial

omit [Frame F] [ConnectionHook H F] in
/-- The end of a cycle returns no error. -/
lemma endCycle_ne_error {key : Bytes} {dest : D} {n : Nat} {close : Bool} :
    (s.endCycle key dest n close).pc ≠ .finished (.error err) := by
  intro pc
  rw [State.endCycle] at pc
  split at pc
  · cases pc
  · cases pc

/-- A step behind the write fails with one of the late phases. -/
lemma sent_of_step (after : s.pc.After) (st : step cfg s a = some s') (pc : s'.pc = .finished (.error err)) :
    Sent s.pc err := by
  have early : ∀ {P : Prop} {pc'}, s.pc = pc' → ¬ pc'.After → P := fun here before => absurd (here ▸ after) before
  have relay : ∀ {pc'}, s.pc = pc' → (∀ key dest, pc' ≠ .writing key dest) → err.phase = some .relay → Sent s.pc err :=
    fun here other phase => .relay (here ▸ other) phase
  cases step_cases st with
  | preRoute here => exact early here id
  | acquired here => exact early here id
  | postRoute here => exact early here id
  | routed here => exact early here id
  | joined here => exact early here id
  | wrote here =>
    rw [State.toRelay] at pc
    split at pc
    · cases pc
    · cases pc
  | writeError here =>
    cases pc
    exact .forward here rfl
  | @relay r o here =>
    rcases o with _ | e | i
    · simp only [State.onRelay] at pc
      split at pc
      · cases pc
      · exact absurd pc endCycle_ne_error
    · simp only [State.onRelay] at pc
      split at pc
      · cases pc
      · cases pc
        exact relay here (fun _ _ same => by cases same) rfl
    · simp only [State.onRelay] at pc
      split at pc
      · cases pc
      · cases pc
  | flushed here => cases pc
  | flushedLast here => exact absurd pc endCycle_ne_error
  | flushError here =>
    cases pc
    rcases here with here | here
    · exact relay here (fun _ _ same => by cases same) rfl
    · exact relay here (fun _ _ same => by cases same) rfl
  | flushedError here =>
    cases pc
    exact relay here (fun _ _ same => by cases same) rfl
  | copied here => exact absurd pc endCycle_ne_error
  | copyError here =>
    cases pc
    exact relay here (fun _ _ same => by cases same) rfl
  | released here _ => cases pc
  | dropped here _ => cases pc

end exits

/-! ## How far a request gets -/

/-- The error responses of a log. -/
def told (log : List (Event F H D)) : List Bytes :=
  log.filterMap fun
    | .errorResponse bs => some bs
    | _ => none

/-- The write to the destination was good. -/
def Action.accepts : Action F D → Bool
  | .wrote (.ok _) => true
  | _ => false

/-- The writes of the running cycle that have begun. -/
def Pc.begun : Pc H D → Nat
  | .preRoute => 0
  | .acquiring _ => 0
  | .joining _ _ _ => 0
  | _ => 1

/-- The writes of the running cycle that were good. -/
def Pc.accepted : Pc H D → Nat
  | .writing _ _ => 0
  | pc => pc.begun

/-- Before the write none has begun. -/
lemma Pc.begun_of_not_after {pc : Pc H D} (early : ¬ pc.After) :
    pc.begun = 0 ∧ pc.accepted = 0 ∧ ∀ r, pc ≠ .finished r := by
  cases pc with
  | preRoute => exact ⟨rfl, rfl, fun r same => by cases same⟩
  | acquiring key => exact ⟨rfl, rfl, fun r same => by cases same⟩
  | joining key dest b => exact ⟨rfl, rfl, fun r same => by cases same⟩
  | _ => exact absurd trivial early

/-- Behind the write one has begun and was good. -/
lemma Pc.begun_of_not_early {pc : Pc H D} (late : ¬ pc.Early) : pc.begun = 1 ∧ pc.accepted = 1 := by
  cases pc with
  | preRoute => exact absurd trivial late
  | acquiring key => exact absurd trivial late
  | joining key dest b => exact absurd trivial late
  | writing key dest => exact absurd trivial late
  | _ => exact ⟨rfl, rfl⟩

/-- The one place of both kinds is the write itself. -/
lemma Pc.writing_of_after {pc : Pc H D} (after : pc.After) (early : pc.Early) : ∃ key dest, pc = .writing key dest := by
  cases pc with
  | writing key dest => exact ⟨key, dest, rfl⟩
  | preRoute => exact after.elim
  | acquiring key => exact after.elim
  | joining key dest b => exact after.elim
  | _ => exact early.elim

/-- One request was written in each past cycle, and `begun` in the running one; `n` is the number of those that were
written whole. These are the error responses, and before the write the client gets nothing else. -/
structure Reached (s : State F H D) (n begun accepted : Nat) (answers : List Bytes) : Prop where
  earlier : ∀ log ∈ s.past, (writes log).length = 1
  last : (writes s.log).length = begun
  accepted : n = s.past.length + accepted
  answered : (s.past ++ [s.log]).flatMap told = answers
  alone : begun = 0 → clientBytes s.log = answers.flatten

/-- How far a connection has got that returns this. -/
inductive Report (cfg : Config F H) (s : State F H D) (n : Nat) : Except RailscaleError Unit → Prop where
  | unsent {err} :
    Unsent err →
    Reached s n 0 0 (cfg.errorResponder.toList.map (· err)) →
    Report cfg s n (.error err)
  | begun {err} :
    err.phase = some .forward →
    Reached s n 1 0 [] →
    Report cfg s n (.error err)
  | accepted {err} :
    err.phase = some .relay →
    Reached s n 1 1 [] →
    Report cfg s n (.error err)
  | returned {k} :
    Reached s n k k [] →
    Report cfg s n (.ok ())

/-- What holds in every state. -/
structure Staged (cfg : Config F H) (s : State F H D) (n : Nat) : Prop where
  going : (∀ r, s.pc ≠ .finished r) → Reached s n s.pc.begun s.pc.accepted []
  ended : ∀ r, s.pc = .finished r → Report cfg s n r

section reached

variable {s s' : State F H D} {n : Nat}

/-- What comes in is no error response. -/
lemma told_inward {es : List (Event F H D)} (inward : ∀ e ∈ es, e.Inward) : told es = [] := by
  refine List.filterMap_eq_nil_iff.2 fun e mem => ?_
  have inward := inward e mem
  cases e with
  | errorResponse _ => exact inward.elim
  | _ => rfl

/-- Behind the write there is no error response. -/
lemma told_late {es : List (Event F H D)} (late : ∀ e ∈ es, e.Late) : told es = [] := by
  refine List.filterMap_eq_nil_iff.2 fun e mem => ?_
  have late := late e mem
  cases e with
  | errorResponse _ => exact late.elim
  | _ => rfl

/-- What a step hears is no write. -/
lemma Hears.writes_eq {a : Action F D} {es : List (Event F H D)} (hears : Hears s a es) : writes es = [] := by
  cases hears with
  | pre _ => rfl
  | post _ => rfl
  | route _ => rfl

/-- An error is answered with the configured response, if there is one. -/
lemma told_errorEvents (cfg : Config F H) (err : RailscaleError) :
    told (State.errorEvents cfg err : List (Event F H D)) = cfg.errorResponder.toList.map (· err) := by
  rw [State.errorEvents]
  cases cfg.errorResponder with
  | none => rfl
  | some responder => rfl

/-- Logging something in the same cycle. -/
lemma Reached.log {begun begun' accepted accepted' n' : Nat} {answers answers' : List Bytes} {es : List (Event F H D)}
    (reached : Reached s n begun accepted answers) (past : s'.past = s.past) (log : s'.log = s.log ++ es)
    (wrote : begun' = begun + (writes es).length) (took : n' + accepted = n + accepted')
    (say : answers' = answers ++ told es) (speak : begun' = 0 → clientBytes es = (told es).flatten) :
    Reached s' n' begun' accepted' answers' := by
  obtain ⟨earlier, last, number, same, alone⟩ := reached
  refine ⟨past ▸ earlier, ?_, ?_, ?_, fun unsent => ?_⟩
  · rw [log, writes_append, List.length_append, last, wrote]
  · rw [past]
    omega
  · rw [List.flatMap_append, List.flatMap_singleton] at same
    rw [past, log, say, List.flatMap_append, List.flatMap_singleton, told, List.filterMap_append, ← List.append_assoc]
    exact congrArg (· ++ told es) same
  · have none : begun = 0 := by omega
    rw [log, clientBytes_append, alone none, speak unsent, say, List.flatten_append]

/-- The top of the loop again. -/
lemma Reached.renew {cfg : Config F H} (reached : Reached s n 1 1 []) : Reached (s.nextCycle cfg) n 0 0 [] := by
  obtain ⟨earlier, last, number, same, -⟩ := reached
  refine ⟨?_, rfl, ?_, ?_, fun _ => rfl⟩
  · exact List.forall_mem_append.2 ⟨earlier, List.forall_mem_singleton.2 last⟩
  · show n = (s.past ++ [s.log]).length + 0
    rw [number, List.length_append]
    rfl
  · show (s.past ++ [s.log] ++ [[]]).flatMap told = []
    rw [List.flatMap_append, List.flatMap_singleton, told, List.filterMap_nil, List.append_nil]
    exact same

/-- The client gets that response. -/
lemma clientBytes_errorEvents (cfg : Config F H) (err : RailscaleError) :
    clientBytes (State.errorEvents cfg err : List (Event F H D)) = (cfg.errorResponder.toList.map (· err)).flatten := by
  rw [State.errorEvents]
  cases cfg.errorResponder with
  | none => rfl
  | some responder => rfl

end reached

section staged

variable {cfg : Config F H} {s s' : State F H D} {n : Nat}

/-- No write has begun at the start. -/
lemma Staged.init : Staged cfg (State.init cfg : State F H D) 0 :=
  ⟨fun _ => ⟨List.forall_mem_nil _, rfl, rfl, rfl, fun _ => rfl⟩, fun _ pc => by cases pc⟩

/-- Before the write. -/
lemma Staged.of_unsent (reached : Reached s n 0 0 []) (early : ¬ s.pc.After ∨ s.pc = .finished (.ok ())) :
    Staged cfg s n := by
  rcases early with early | here
  · obtain ⟨begun, accepted, going⟩ := Pc.begun_of_not_after early
    refine ⟨fun _ => ?_, fun r pc => absurd pc (going r)⟩
    rw [begun, accepted]
    exact reached
  · refine ⟨fun going => absurd here (going _), fun r pc => ?_⟩
    cases here.symm.trans pc
    exact .returned reached

/-- Behind a good write. -/
lemma Staged.of_sent (reached : Reached s n 1 1 []) (late : ¬ s.pc.Early)
    (relay : ∀ err, s.pc = .finished (.error err) → err.phase = some .relay) : Staged cfg s n := by
  refine ⟨fun _ => ?_, fun r pc => ?_⟩
  · obtain ⟨begun, accepted⟩ := Pc.begun_of_not_early late
    rw [begun, accepted]
    exact reached
  · cases r with
    | ok u => exact .returned reached
    | error err => exact .accepted (relay err pc) reached

variable [Frame F] [ConnectionHook H F] {a : Action F D}

/-- Behind the write a cycle goes on to its end. -/
lemma not_early_of_step (after : s.pc.After) (stay : a ≠ .release) (st : step cfg s a = some s') : ¬ s'.pc.Early := by
  have early : ∀ {P : Prop} {pc'}, s.pc = pc' → ¬ pc'.After → P := fun here before => absurd (here ▸ after) before
  cases step_cases st with
  | preRoute here => exact early here id
  | acquired here => exact early here id
  | postRoute here => exact early here id
  | routed here => exact early here id
  | joined here => exact early here id
  | wrote here =>
    rw [State.toRelay]
    split
    · exact id
    · exact id
  | relay here => exact not_early_onRelay _ _
  | flushedLast here => exact (over_endRelay _).1.not_early
  | copied here => exact id
  | released _ _ => exact absurd rfl stay
  | dropped _ _ => exact absurd rfl stay
  | _ => exact id

/-- A good write is followed by the relay. -/
lemma relays_of_accepts (accepts : a.accepts = true) (st : step cfg s a = some s') :
    (∃ key dest, s.pc = .writing key dest) ∧ ∀ err, s'.pc ≠ .finished (.error err) := by
  cases step_cases st with
  | wrote here =>
    refine ⟨⟨_, _, here⟩, fun err pc => ?_⟩
    rw [State.toRelay] at pc
    split at pc
    · cases pc
    · cases pc
  | _ => cases accepts

/-- What a step up to the write makes of it. -/
lemma Staged.early (staged : Staged cfg s n) (early : ¬ s.pc.After) (st : step cfg s a = some s') :
    Staged cfg s' (n + if a.accepts then 1 else 0) := by
  obtain ⟨begun, accepted, going⟩ := Pc.begun_of_not_after early
  have reached := staged.going going
  rw [begun, accepted] at reached
  have refused : a.accepts = false := by
    refine Bool.eq_false_iff.2 fun accepts => ?_
    obtain ⟨⟨key, dest, here⟩, -⟩ := relays_of_accepts accepts st
    rw [here] at early
    exact early trivial
  rw [refused]
  have unsent := fun err (pc : s'.pc = .finished (.error err)) => unsent_of_step early st pc
  obtain ⟨past, es, log, step⟩ := step_early early st
  have quiet (none : writes es = []) (inward : ∀ e ∈ es, e.Inward) : Reached s' n 0 0 [] :=
    reached.log past log (by rw [none]; rfl) rfl (by rw [told_inward inward]; rfl)
      fun _ => by rw [told_inward inward, clientBytes_inward inward]; rfl
  generalize here : s'.pc = pc' at step unsent
  have goes (none : writes es = []) (place : ¬ pc'.After) : Staged cfg s' n :=
    .of_unsent (quiet none (step.inward fun err same => place (same ▸ trivial))) (.inl (here ▸ place))
  cases step with
  | @skipped i _ _ => exact goes (itemEvents_seen i).2.2 id
  | @found f _ _ _ _ place =>
    rcases place with rfl | rfl
    · exact goes (itemEvents_seen (.parsed f)).2.2 id
    · exact goes (itemEvents_seen (.parsed f)).2.2 id
  | acquired _ => exact goes rfl id
  | answered _ => exact goes rfl id
  | @kept _ _ i _ => exact goes (itemEvents_seen i).2.2 id
  | collected _ => exact goes rfl id
  | @forwarded _ es key d t hears _ =>
    have one : (writes (es ++ t.forwardEvents d)).length = 1 := by
      rw [writes_append, hears.writes_eq, writes_forwardEvents]
      rfl
    have silent := told_inward (List.forall_mem_append.2 ⟨hears.inward, inward_forwardEvents (s := t) d⟩)
    refine ⟨fun _ => ?_, fun r pc => by cases here.symm.trans pc⟩
    rw [here]
    exact reached.log past log (by rw [one]; rfl) rfl (by rw [silent]; rfl) fun none => by cases none
  | @failed _ es fs err hears validated =>
    have quiet : ∀ e ∈ fs, e.Quiet ∧ e.Inward := by
      rcases validated with rfl | ⟨hook, r, rfl⟩
      · exact List.forall_mem_nil _
      · exact List.forall_mem_singleton.2 ⟨trivial, trivial⟩
    have none : writes (es ++ (fs ++ State.errorEvents cfg err)) = [] := by
      rw [writes_append, writes_append, hears.writes_eq, (quiet_nil fun e mem => (quiet e mem).1).2.2,
        (quiet_nil (quiet_errorEvents err)).2.2]
      rfl
    have answer : told (es ++ (fs ++ State.errorEvents cfg err)) = cfg.errorResponder.toList.map (· err) := by
      rw [told, List.filterMap_append, List.filterMap_append, ← told, ← told, ← told, told_inward hears.inward,
        told_inward fun e mem => (quiet e mem).2, told_errorEvents]
      rfl
    refine ⟨fun going => absurd here (going _), fun r pc => ?_⟩
    cases here.symm.trans pc
    refine .unsent (unsent _ rfl) (reached.log past log (by rw [none]; rfl) rfl (by rw [answer]; rfl) fun _ => ?_)
    rw [answer, clientBytes_append, clientBytes_append, clientBytes_inward hears.inward,
      clientBytes_inward fun e mem => (quiet e mem).2, clientBytes_errorEvents]
    rfl
  | returned _ => exact .of_unsent (quiet rfl (List.forall_mem_singleton.2 trivial)) (.inr here)

/-- A bad one ends the connection. -/
lemma fails_of_refused {key : Bytes} {dest : D} (here : s.pc = .writing key dest) (refused : a.accepts = false)
    (st : step cfg s a = some s') : ∃ err, err.phase = some .forward ∧ s'.pc = .finished (.error err) := by
  unfold step at st
  rw [here] at st
  cases a with
  | wrote r =>
    cases r with
    | ok u => cases refused
    | error err =>
      cases st
      exact ⟨_, rfl, rfl⟩
  | _ => cases st

/-- What a step behind the write makes of it, inside its cycle. -/
lemma Staged.late (staged : Staged cfg s n) (after : s.pc.After) (stay : a ≠ .release) (st : step cfg s a = some s') :
    Staged cfg s' (n + if a.accepts then 1 else 0) := by
  have reached := staged.going fun r pc => not_step_finished pc st
  have late := not_early_of_step after stay st
  have phase := fun err (pc : s'.pc = .finished (.error err)) => sent_of_step after st pc
  cases step_after after st with
  | next _ release => exact absurd release stay
  | @stay es quiet _ log past _ =>
    have none : writes es = [] := (quiet_nil fun e mem => (quiet e mem).quiet).2.2
    have silent : told es = [] := told_late quiet
    cases accepts : a.accepts with
    | true =>
      obtain ⟨⟨key, dest, here⟩, fine⟩ := relays_of_accepts accepts st
      rw [here] at reached
      exact .of_sent (reached.log past log (by rw [none]; rfl) rfl (by rw [silent]; rfl) fun none => by cases none) late
        fun err pc => absurd pc (fine err)
    | false =>
      by_cases early : s.pc.Early
      · obtain ⟨key, dest, here⟩ := Pc.writing_of_after after early
        obtain ⟨err, forward, failed⟩ := fails_of_refused here accepts st
        rw [here] at reached
        refine ⟨fun going => absurd failed (going _), fun r pc => ?_⟩
        cases failed.symm.trans pc
        refine .begun forward (reached.log past log ?_ rfl ?_ fun none => by cases none)
        · rw [none]
          rfl
        · rw [silent]
          rfl
      · obtain ⟨begun, accepted⟩ := Pc.begun_of_not_early early
        rw [begun, accepted] at reached
        have logged : Reached s' n 1 1 [] := by
          refine reached.log past log ?_ rfl ?_ fun none => by cases none
          · rw [none]
            rfl
          · rw [silent]
            rfl
        refine .of_sent logged late fun err pc => ?_
        cases phase err pc with
        | forward here _ => exact absurd (here ▸ trivial) early
        | relay _ relay => exact relay

/-- The step to the next cycle. -/
lemma Staged.renews (staged : Staged cfg s n) (st : Service.step cfg s .release = some s') : Staged cfg s' n := by
  have reached := staged.going fun r pc => not_step_finished pc st
  cases step_cases st with
  | @released key dest here _ =>
    rw [here] at reached
    have logged : Reached (s.emit [.released key dest]) n 1 1 [] :=
      reached.log rfl rfl rfl rfl rfl fun none => by cases none
    have next : Reached ((s.emit [.released key dest]).nextCycle cfg) n 0 0 [] := logged.renew
    exact .of_unsent next (.inl id)
  | dropped here _ =>
    rw [here] at reached
    have next : Reached (s.nextCycle cfg) n 0 0 [] := reached.renew
    exact .of_unsent next (.inl id)

/-- A step keeps it. -/
lemma Staged.step (staged : Staged cfg s n) (st : Service.step cfg s a = some s') :
    Staged cfg s' (n + if a.accepts then 1 else 0) := by
  by_cases after : s.pc.After
  · by_cases release : a = .release
    · subst release
      exact staged.renews st
    · exact staged.late after release st
  · exact staged.early after st

/-- The number of good writes in a run. -/
def accepted (as : List (Action F D)) : Nat := as.countP Action.accepts

/-- The stages hold in every run. -/
lemma staged_of_run {as : List (Action F D)} (run : Run (Service.step cfg) (State.init cfg) as s) :
    Staged cfg s (accepted as) := by
  have staged : Staged cfg s (0 + accepted as) := run.invariant_count (fun _ _ _ _ staged st => staged.step st) .init
  rw [Nat.zero_add] at staged
  exact staged

/-- A connection that fails before it writes its last request. -/
lemma reached_of_run {as : List (Action F D)} (run : Run (Service.step cfg) (State.init cfg) as s)
    {err : RailscaleError} (pc : s.pc = .finished (.error err)) (unwritten : writes s.log = []) :
    Reached s (accepted as) 0 0 (cfg.errorResponder.toList.map (· err)) := by
  have wrote : (writes s.log).length = 0 := by rw [unwritten, List.length_nil]
  cases (staged_of_run run).ended _ pc with
  | unsent _ reached => exact reached
  | begun _ reached => cases wrote.symm.trans reached.last
  | accepted _ reached => cases wrote.symm.trans reached.last

/-- The phase of the error that a connection returns says how far its last request has got, in every run. With an
early phase no byte of it was written, and the client has been told; with `Forward` its write was begun and has
failed; with `Relay` it was written whole. All requests before it were written whole, and the client gets no error
response but this one. -/
theorem report_of_run {as : List (Action F D)} {r : Except RailscaleError Unit}
    (run : Run (Service.step cfg) (State.init cfg) as s) (pc : s.pc = .finished r) : Report cfg s (accepted as) r :=
  (staged_of_run run).ended r pc

end staged

section http

open Http

/-- The write of a request fails. -/
def brokenActions : List (Action HttpFrame Nat) :=
  httpActions ++ [.wrote (.error (.ofIo ⟨.brokenPipe, "broken pipe"⟩))]

/-- Its write was begun and not finished, and the error is one of `Forward`. -/
theorem report_of_run_broken :
    ∃ s, Run (step httpConfig) (State.init httpConfig) brokenActions s ∧
      Report httpConfig s (accepted brokenActions) (.error ⟨.io ⟨.brokenPipe, "broken pipe"⟩, some .forward⟩) := by
  have run : Run (step httpConfig) (State.init httpConfig) brokenActions _ := .of_exec rfl
  exact ⟨_, run, report_of_run run rfl⟩

end http

end Railscale.Service
