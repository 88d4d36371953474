import Railscale.Core.Steps

/-!
# Answers to failed requests

A connection with the number of response bytes of the running cycle that have reached the client. The exits before
`dest.write` answer an error, and no byte of a response is out there; the exits behind it do not, whatever is out.
So every error is answered, and no answer is mixed into a response, exactly in the runs whose exits behind the
write come after the first byte (`answered_iff_told`).
-/

namespace Railscale

namespace Service

variable {F H D : Type}

/-! ## Answers in a log -/

/-- The event is an answer to an error. -/
def Event.isAnswer : Event F H D → Bool
  | .errorResponse _ => true
  | _ => false

/-- The number of error responses. -/
def answers (log : List (Event F H D)) : Nat := log.countP Event.isAnswer

/-- The error responses of two logs, one behind the other. -/
@[simp] lemma answers_append (l m : List (Event F H D)) : answers (l ++ m) = answers l + answers m :=
  List.countP_append

/-- The write to the client that was begun last. -/
def pendingWrite (log : List (Event F H D)) : Bytes :=
  (log.reverse.findSome? fun
    | .clientWrite bs => some bs
    | _ => none).getD []

/-- The places where no byte of the response has been asked for. -/
def Pc.Unsent : Pc H D → Prop
  | .preRoute => True
  | .acquiring _ => True
  | .joining _ _ _ => True
  | .writing _ _ => True
  | .copying _ _ => True
  | _ => False

/-- The places of a cycle that is not over. -/
def Pc.Going : Pc H D → Prop
  | .finished _ => False
  | _ => True

/-- A cycle that goes on has not returned. -/
lemma Pc.Going.ne_finished {pc : Pc H D} (going : pc.Going) (r : Except RailscaleError Unit) : pc ≠ .finished r := by
  rintro rfl
  exact going

/-- Before the response the cycle goes on. -/
lemma Pc.Unsent.going {pc : Pc H D} (unsent : pc.Unsent) : pc.Going := by
  cases pc with
  | finished r => exact unsent.elim
  | _ => trivial

/-- What a step before the write leads to: it goes on without an answer, or fails with one, or returns. -/
inductive Fair (s : State F H D) : Prop where
  | goes :
    s.pc.Unsent →
    answers s.log = 0 →
    Fair s
  | told {e} :
    s.pc = .finished (.error e) →
    answers s.log = 1 →
    Fair s
  | ended :
    s.pc = .finished (.ok ()) →
    Fair s

section fair

variable {cfg : Config F H} {s : State F H D}

/-- With a responder an error is answered once. -/
lemma answers_errorEvents (responder : cfg.errorResponder.isSome = true) (err : RailscaleError) :
    answers (State.errorEvents cfg err : List (Event F H D)) = 1 := by
  obtain ⟨respond, some⟩ := Option.isSome_iff_exists.1 responder
  rw [State.errorEvents, some]
  rfl

/-- What comes in is no answer. -/
lemma answers_inward {es : List (Event F H D)} (inward : ∀ e ∈ es, e.Inward) : answers es = 0 := by
  refine List.countP_eq_zero.2 fun e mem => ?_
  have inward := inward e mem
  cases e with
  | errorResponse _ => exact inward.elim
  | _ => nofun

/-- Logging no answer. -/
lemma answers_emit (none : answers s.log = 0) {es : List (Event F H D)} (silent : answers es = 0) :
    answers (s.log ++ es) = 0 := by
  rw [answers_append, none, silent]

variable [Frame F] {s' : State F H D} {a : Action F D}

/-- A step up to the write answers what it fails with, and nothing else. -/
lemma Early.fair {es : List (Event F H D)} (early : Early cfg s a es s'.pc) (log : s'.log = s.log ++ es)
    (responder : cfg.errorResponder.isSome = true) (none : answers s.log = 0) : Fair s' := by
  generalize here' : s'.pc = pc' at early
  have goes (unsent : pc'.Unsent) : Fair s' :=
    .goes (here' ▸ unsent) (log ▸ answers_emit none (answers_inward (early.inward fun _ => unsent.going.ne_finished _)))
  cases early with
  | found _ _ place =>
    rcases place with rfl | rfl
    · exact goes trivial
    · exact goes trivial
  | @failed _ es fs err hears validated =>
    have silent : answers fs = 0 := by
      rcases validated with rfl | ⟨hook, r, rfl⟩
      · rfl
      · rfl
    refine .told here' ?_
    rw [log, answers_append, answers_append, answers_append, none, answers_inward hears.inward, silent,
      answers_errorEvents responder]
  | returned _ => exact .ended here'
  | _ => exact goes trivial

end fair

end Service

/-! ## What has reached the client -/

namespace Answer

open Service

/-- A connection and the response bytes of the running cycle that the client has been sent. -/
structure State (F H D : Type) where
  conn : Service.State F H D
  sent : Nat

section machine

variable {F H D : Type} [Frame F] [ConnectionHook H F] (cfg : Config F H)

/-- A connection before its first cycle. -/
def State.init : State F H D := ⟨.init cfg, 0⟩

/-- How many bytes can go to the client with an action: all that are pending, some of them when the write fails, and
what was copied. -/
def delivers (log : List (Event F H D)) (n : Nat) : Service.Action F D → Bool
  | .clientWrote (.ok ()) => n == (pendingWrite log).length
  | .clientWrote (.error _) => n < (pendingWrite log).length
  | .copied (.ok m) => n == m
  | .copied (.error _) => true
  | _ => n == 0

/-- One step of the connection, with the number of bytes that go to the client. -/
def step (s : State F H D) (a : Nat × Service.Action F D) : Option (State F H D) :=
  if delivers s.conn.log a.1 a.2 then
    (Service.step cfg s.conn a.2).map fun conn =>
      ⟨conn, match a.2 with
        | .release => 0
        | _ => s.sent + a.1⟩
  else none

/-- An error is answered once when nothing has been sent, and not when something has. -/
def Answered (s : State F H D) : Prop :=
  ∀ e, s.conn.pc = .finished (.error e) →
    (s.sent = 0 → answers s.conn.log = 1) ∧ (0 < s.sent → answers s.conn.log = 0)

/-- An exit behind the write comes after the first byte of the response. -/
def Told (s : State F H D) (a : Nat × Service.Action F D) : Prop :=
  match s.conn.pc, a.2 with
  | .writing _ _, .wrote (.error _) => False
  | .relaying r, .responseItem (some (.error _)) => 0 < r.batch.length ∨ 0 < s.sent
  | .flushing _, .clientWrote (.error _) => 0 < s.sent + a.1
  | .flushingLast _, .clientWrote (.error _) => 0 < s.sent + a.1
  | .flushingError _ _, .clientWrote _ => 0 < s.sent + a.1
  | .copying _ _, .copied (.error _) => 0 < a.1
  | _, _ => True

/-- No answer while the cycle runs, and no byte before the response. -/
structure Inv (s : State F H D) : Prop where
  unanswered : (∀ r, s.conn.pc ≠ .finished r) → answers s.conn.log = 0
  unsent : s.conn.pc.Unsent → s.sent = 0

variable {cfg} {s s' : State F H D}

omit [Frame F] [ConnectionHook H F] in
/-- Nothing has been sent at the start. -/
lemma Inv.init : Inv (State.init cfg : State F H D) := ⟨fun _ => rfl, fun _ => rfl⟩

omit [Frame F] [ConnectionHook H F] in
/-- No error has been returned at the start. -/
lemma answered_init : Answered (State.init cfg : State F H D) := nofun

/-- A state that is as it should be. -/
structure Sound (s : State F H D) : Prop where
  inv : Inv s
  answered : Answered s

section places

variable {conn : Service.State F H D} {n : Nat}

omit [Frame F] [ConnectionHook H F]

/-- A place where the cycle goes on. -/
lemma Sound.goes (going : conn.pc.Going) (quiet : answers conn.log = 0) (unsent : conn.pc.Unsent → n = 0) :
    Sound (⟨conn, n⟩ : State F H D) :=
  ⟨⟨fun _ => quiet, unsent⟩, fun _ here => absurd here (going.ne_finished _)⟩

/-- The end of the connection. -/
lemma Sound.returns (pc : conn.pc = .finished (.ok ())) : Sound (⟨conn, n⟩ : State F H D) := by
  refine ⟨⟨fun running => absurd pc (running _), fun unsent => ?_⟩, fun e here => nomatch pc.symm.trans here⟩
  rw [show conn.pc = _ from pc] at unsent
  exact unsent.elim

/-- A step before the write. -/
lemma Sound.fair (fair : Fair conn) (zero : n = 0) : Sound (⟨conn, n⟩ : State F H D) := by
  cases fair with
  | goes pc quiet => exact .goes pc.going quiet fun _ => zero
  | told pc once =>
    refine ⟨⟨fun running => absurd pc (running _), fun _ => zero⟩, fun _ _ => ⟨fun _ => once, fun sent => ?_⟩⟩
    exact absurd zero (Nat.ne_of_gt sent)
  | ended pc => exact .returns pc

/-- The end of a cycle. -/
lemma Sound.endCycle (quiet : answers conn.log = 0) (key : Bytes) (dest : D) (k : Nat) (close : Bool) :
    Sound (⟨conn.endCycle key dest k close, n⟩ : State F H D) := by
  unfold State.endCycle
  cases close with
  | true => exact .returns rfl
  | false => exact .goes trivial quiet False.elim

/-- An error without an answer. -/
lemma exits {e : RailscaleError} (pc : conn.pc = .finished (.error e)) (quiet : answers conn.log = 0) :
    Inv (⟨conn, n⟩ : State F H D) ∧ (Answered (⟨conn, n⟩ : State F H D) ↔ 0 < n) := by
  refine ⟨⟨fun running => absurd pc (running _), fun unsent => ?_⟩, fun answered => ?_, fun sent e' _ => ?_⟩
  · rw [show conn.pc = _ from pc] at unsent
    exact unsent.elim
  · refine Nat.pos_of_ne_zero fun zero => ?_
    have once : answers conn.log = 1 := (answered e pc).1 zero
    rw [quiet] at once
    cases once
  · exact ⟨fun zero => absurd zero (Nat.ne_of_gt sent), fun _ => quiet⟩

/-- A step that leads to a sound state and is told of keeps everything. -/
lemma Sound.told {a : Nat × Service.Action F D} (sound : Sound s') (told : Told s a) :
    Inv s' ∧ (Answered s' ↔ Told s a) :=
  ⟨sound.inv, iff_of_true sound.answered told⟩

end places

/-- A turn of the relay loop. -/
lemma onRelay_told {r : Relay H D} (quiet : answers s.conn.log = 0) (here : s.conn.pc = .relaying r) (o : Item F) :
    Inv (⟨s.conn.onRelay cfg r o, s.sent⟩ : State F H D) ∧
      (Answered (⟨s.conn.onRelay cfg r o, s.sent⟩ : State F H D) ↔ Told s (0, .responseItem o)) := by
  unfold State.onRelay
  match o with
  | none =>
    refine Sound.told ?_ (by simp only [Told, here])
    simp only
    split
    · exact .goes trivial (answers_emit quiet rfl) False.elim
    · exact .endCycle quiet _ _ _ _
  | some (.error err) =>
    simp only
    split
    · rename_i pending
      refine Sound.told (.goes trivial (answers_emit quiet rfl) False.elim) ?_
      simp only [Told, here]
      exact .inl pending
    · rename_i empty
      have iff : Told s (0, .responseItem (some (.error err))) ↔ 0 < s.sent := by
        simp only [Told, here]
        exact or_iff_right empty
      rw [iff]
      exact exits rfl quiet
  | some (.ok i) =>
    refine Sound.told ?_ (by simp only [Told, here])
    simp only
    split
    · exact .goes trivial (answers_emit quiet rfl) False.elim
    · exact .goes trivial quiet False.elim

/-- A step keeps the invariant, and answers as it should exactly when it is no exit before the first byte. -/
theorem step_told (responder : cfg.errorResponder.isSome = true) {a : Nat × Service.Action F D} (inv : Inv s)
    (st : step cfg s a = some s') : Inv s' ∧ (Answered s' ↔ Told s a) := by
  obtain ⟨n, a⟩ := a
  rw [step, Option.ite_none_right_eq_some] at st
  obtain ⟨delivered, st⟩ := st
  obtain ⟨conn, move, rfl⟩ := Option.map_eq_some_iff.1 st
  clear st
  dsimp only at delivered move ⊢
  have quiet : ∀ {pc}, s.conn.pc = pc → pc.Going → answers s.conn.log = 0 :=
    fun here going => inv.unanswered fun r => here ▸ going.ne_finished r
  -- nothing is sent before the response
  have zero : ∀ {pc}, s.conn.pc = pc → pc.Unsent → (n == 0) = true → s.sent + n = 0 := by
    intro pc here unsent none
    rw [inv.unsent (here ▸ unsent), beq_iff_eq.1 none]
  have fair : ∀ {pc}, s.conn.pc = pc → pc.Going → ¬ pc.After → Fair conn := by
    intro pc here going early
    obtain ⟨-, es, log, early⟩ := step_early (here ▸ early) move
    exact early.fair log responder (quiet here going)
  cases Service.step_cases move with
  | preRoute here =>
    refine Sound.told ?_ (by simp only [Told, here])
    exact .fair (fair here trivial id) (zero here trivial delivered)
  | acquired here =>
    refine Sound.told ?_ (by simp only [Told, here])
    exact .fair (fair here trivial id) (zero here trivial delivered)
  | postRoute here =>
    refine Sound.told ?_ (by simp only [Told, here])
    exact .fair (fair here trivial id) (zero here trivial delivered)
  | routed here =>
    refine Sound.told ?_ (by simp only [Told, here])
    exact .fair (fair here trivial id) (zero here trivial delivered)
  | joined here =>
    refine Sound.told ?_ (by simp only [Told, here])
    exact .fair (fair here trivial id) (zero here trivial delivered)
  | wrote here =>
    refine Sound.told ?_ (by simp only [Told, here])
    rw [State.toRelay]
    split
    · exact .goes trivial (quiet here trivial) fun _ => zero here trivial delivered
    · exact .goes trivial (quiet here trivial) fun _ => zero here trivial delivered
  | @writeError _ _ err here =>
    have iff : Told s (n, .wrote (.error err)) ↔ 0 < s.sent + n := by
      simp only [Told, here]
      rw [zero here trivial delivered]
      exact iff_of_false id (Nat.lt_irrefl 0)
    rw [iff]
    exact exits rfl (quiet here trivial)
  | relay here =>
    obtain rfl := beq_iff_eq.1 delivered
    exact onRelay_told (quiet here trivial) here _
  | flushed here =>
    refine Sound.told ?_ (by simp only [Told, here])
    exact .goes trivial (quiet here trivial) False.elim
  | flushedLast here =>
    refine Sound.told ?_ (by simp only [Told, here])
    exact .endCycle (quiet here trivial) _ _ _ _
  | @flushError r err here =>
    have iff : Told s (n, .clientWrote (.error err)) ↔ 0 < s.sent + n := by
      rcases here with here | here
      · simp only [Told, here]
      · simp only [Told, here]
    rw [iff]
    exact exits rfl (here.elim (fun here => quiet here trivial) fun here => quiet here trivial)
  | @flushedError r err res here =>
    have iff : Told s (n, .clientWrote res) ↔ 0 < s.sent + n := by simp only [Told, here]
    rw [iff]
    exact exits rfl (quiet here trivial)
  | copied here =>
    refine Sound.told ?_ (by simp only [Told, here])
    exact .endCycle (quiet here trivial) _ _ _ _
  | @copyError _ _ err here =>
    have iff : Told s (n, .copied (.error err)) ↔ 0 < s.sent + n := by
      simp only [Told, here]
      rw [inv.unsent (by rw [here]; trivial), Nat.zero_add]
    rw [iff]
    exact exits rfl (quiet here trivial)
  | released here _ =>
    refine Sound.told ?_ (by simp only [Told, here])
    exact .goes trivial rfl fun _ => rfl
  | dropped here _ =>
    refine Sound.told ?_ (by simp only [Told, here])
    exact .goes trivial rfl fun _ => rfl

/-- In every run, errors are answered once before the first byte of a response and never behind it, exactly when no
exit behind the write comes before that byte. -/
theorem answered_iff_told (responder : cfg.errorResponder.isSome = true) (as : List (Nat × Service.Action F D)) :
    Always (step cfg) Answered (State.init cfg) as ↔ Every (step cfg) Told (State.init cfg) as :=
  always_iff_every (fun _ _ _ inv _ st => step_told responder inv st) .init answered_init

end machine

section http

open Http

/-- A service for HTTP that answers errors. -/
def answeringConfig : Config HttpFrame HttpDeriverHook :=
  { httpConfig with
    errorResponder := some fun _ => Bytes.lit "HTTP/1.1 502 Bad Gateway\r\n\r\n"
    responseParser := true }

/-- A request that is forwarded, up to the write. -/
def forwardActions : List (Nat × Service.Action HttpFrame Nat) := httpActions.map fun a => (0, a)

/-- A response that fails behind its status line, which has gone to the client. -/
def cutResponse : List (Nat × Service.Action HttpFrame Nat) :=
  forwardActions ++
    [(0, .wrote (.ok ())), (0, .responseItem (some (.ok (.passthrough (Bytes.lit "HTTP/1.1 200 OK\r\n"))))),
      (0, .responseItem (some (.error (.ofKind .connectionClosed)))), (17, .clientWrote (.ok ()))]

/-- The error behind the status line is not answered. -/
theorem answered_iff_told_cut :
    ∃ s, Run (step answeringConfig) (State.init answeringConfig) cutResponse s ∧ s.sent = 17 ∧ Answered s := by
  have run : Run (step answeringConfig) (State.init answeringConfig) cutResponse _ := .of_exec rfl
  have told : Every (step answeringConfig) Told (State.init answeringConfig) cutResponse := by
    refine .cons rfl trivial (.cons rfl trivial (.cons rfl trivial (.cons rfl trivial (.cons rfl trivial ?_))))
    refine .cons rfl trivial (.cons rfl trivial (.cons rfl (.inl (Nat.succ_pos _)) ?_))
    exact .cons rfl (Nat.succ_pos 16) trivial
  exact ⟨_, run, rfl, ((answered_iff_told rfl cutResponse).2 told).run run⟩

/-- A request whose write fails is not answered. -/
theorem not_answered_write :
    ¬ ∀ as : List (Nat × Service.Action HttpFrame Nat),
      Always (step answeringConfig) Answered (State.init answeringConfig) as := by
  intro all
  have run : Run (step answeringConfig) (State.init answeringConfig)
      (forwardActions ++ [(0, .wrote (.error (.ofIo ⟨.brokenPipe, "broken pipe"⟩)))]) _ := .of_exec rfl
  have once := ((all _).run run _ rfl).1 rfl
  cases once

end http

end Answer

end Railscale
