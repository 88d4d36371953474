import Railscale.Core.Forward

/-!
# The steps up to the write

`step_cases` follows the code of `do_connection`, one function in another. Here its steps up to the write to the
destination are laid out flat: what each of them logs, and the place it leads to (`step_early`). With `step_after`,
for the steps behind the write, this is all that most results about the logs need to know.
-/

namespace Railscale.Service

variable {F H D : Type}

/-- The steps that end the collecting loops, and what is logged of their action. -/
inductive Hears (s : State F H D) : Action F D → List (Event F H D) → Prop where
  | pre {o} :
    s.pc = .preRoute →
    Hears s (.clientItem o) [.took o]
  | post {key r o} :
    s.pc = .joining key (some r) false →
    Hears s (.clientItem o) [.took o]
  | route {key r} :
    s.pc = .joining key none true →
    Hears s (.routed r) [.routed key r]

/-- What a step up to the write logs, and the place it leads to. -/
inductive Early [Frame F] (cfg : Config F H) (s : State F H D) : Action F D → List (Event F H D) → Pc H D → Prop where
  | skipped {i} :
    s.pc = .preRoute →
    (∀ f, i.frame? = some f → Frame.routingKey f = none) →
    Early cfg s (.clientItem (some (.ok i))) (State.itemEvents i) .preRoute
  | found {f key pc'} :
    s.pc = .preRoute →
    Frame.routingKey f = some key →
    pc' = .acquiring key ∨ pc' = .joining key none false →
    Early cfg s (.clientItem (some (.ok (.parsed f)))) (State.itemEvents (.parsed f)) pc'
  | acquired {key dest} :
    s.pc = .acquiring key →
    Early cfg s (.acquired dest) [.acquired key dest] (.joining key (dest.map .ok) false)
  | answered {key r} :
    s.pc = .joining key none false →
    Early cfg s (.routed r) [.routed key r] (.joining key (some r) false)
  | kept {key dest i} :
    s.pc = .joining key dest false →
    Early cfg s (.clientItem (some (.ok i))) (State.itemEvents i) (.joining key dest false)
  | collected {key o} :
    s.pc = .joining key none false →
    Early cfg s (.clientItem o) [.took o] (.joining key none true)
  | forwarded {a es key d t} :
    Hears s a es →
    s.pc ≠ .preRoute →
    Early cfg s a (es ++ State.forwardEvents t d) (.writing key d)
  | failed {a es fs err} :
    Hears s a es →
    fs = [] ∨ (∃ hook r, fs = [.validated hook r]) →
    Early cfg s a (es ++ (fs ++ State.errorEvents cfg err)) (.finished (.error err))
  | returned {o} :
    s.pc = .preRoute →
    Early cfg s (.clientItem o) [.took o] (.finished (.ok ()))

section early

variable [Frame F] {cfg : Config F H} {s s' : State F H D} {a : Action F D}

/-- The state behind a step up to the write. -/
def Behind (cfg : Config F H) (s : State F H D) (a : Action F D) (s' : State F H D) : Prop :=
  s'.past = s.past ∧ ∃ es, s'.log = s.log ++ es ∧ Early cfg s a es s'.pc

/-- Failing behind some events. -/
lemma Behind.fail (t : State F H D) {es fs : List (Event F H D)} (hears : Hears s a es) (past : t.past = s.past)
    (log : t.log = s.log ++ (es ++ fs)) (validated : fs = [] ∨ ∃ hook r, fs = [.validated hook r])
    (cr : ConnectionResult) (err : RailscaleError) : Behind cfg s a (t.fail cfg cr err) := by
  rw [State.fail_eq]
  refine ⟨past, es ++ (fs ++ State.errorEvents cfg err), ?_, .failed hears validated⟩
  show t.log ++ _ = _
  rw [log]
  simp only [List.append_assoc]

/-- The end of the pre-route loop is a step up to the write. -/
lemma Behind.endPreRoute (t : State F H D) {o : Item F} (here : s.pc = .preRoute) (past : t.past = s.past)
    (log : t.log = s.log ++ [.took o]) (clientClosed : Bool) :
    Behind cfg s (.clientItem o) (t.endPreRoute cfg clientClosed) := by
  rw [State.endPreRoute]
  split
  · exact ⟨past, _, log, .returned here⟩
  · exact .fail t (.pre here) past (log.trans (by rw [List.append_nil])) (.inl rfl) _ _

variable [ConnectionHook H F]

/-- The checks behind the join are steps up to the write. -/
lemma Behind.afterJoin (t : State F H D) {es : List (Event F H D)} (hears : Hears s a es) (joining : s.pc ≠ .preRoute)
    (past : t.past = s.past) (log : t.log = s.log ++ es) (key : Bytes) (dest : Except RailscaleError D) :
    Behind cfg s a (t.afterJoin cfg key dest) := by
  have validated : ∀ e, (t.emit [e]).log = s.log ++ (es ++ [e]) := by
    intro e
    rw [State.emit_log, log, List.append_assoc]
  have joined := State.afterJoin_cases cfg t key dest
  generalize t.afterJoin cfg key dest = s' at joined ⊢
  cases joined with
  | overflow _ => exact .fail t hears past (log.trans (by rw [List.append_nil])) (.inl rfl) _ _
  | invalid _ _ => exact .fail (t.emit _) hears past (validated _) (.inr ⟨_, _, rfl⟩) _ _
  | unrouted _ _ => exact .fail (t.emit _) hears past (validated _) (.inr ⟨_, _, rfl⟩) _ _
  | @forwarded d _ _ =>
    refine ⟨past, es ++ t.forwardEvents d, ?_, .forwarded hears joining⟩
    rw [State.emit_log, log, List.append_assoc]

/-- The end of the collecting future is a step up to the write. -/
lemma Behind.endPostRoute (t : State F H D) {key : Bytes} {dest : Option (Except RailscaleError D)} {o : Item F}
    (here : s.pc = .joining key dest false) (past : t.past = s.past) (log : t.log = s.log ++ [.took o]) :
    Behind cfg s (.clientItem o) (t.endPostRoute cfg key dest) := by
  cases dest with
  | some r => exact .afterJoin t (.post here) (by rw [here]; nofun) past log key r
  | none => exact ⟨past, _, log, .collected here⟩

/-- An item of the client in the pre-route loop is a step up to the write. -/
lemma Behind.onPreRoute (here : s.pc = .preRoute) (o : Item F) : Behind cfg s (.clientItem o) (s.onPreRoute cfg o) := by
  have turn := State.onPreRoute_cases cfg s o
  generalize s.onPreRoute cfg o = s' at turn ⊢
  cases turn with
  | ended => exact .endPreRoute (s.emit _) here rfl rfl _
  | closed _ _ => exact .endPreRoute (s.emit _) here rfl rfl _
  | failed => exact .fail (s.emit _) (.pre here) rfl rfl (.inl rfl) _ _
  | @overflow i c _ _ _ _ =>
    exact .fail { s.emit [.took (some (.ok i))] with cycle := c } (.pre here) rfl rfl (.inl rfl) _ _
  | kept _ unkeyed =>
    refine ⟨rfl, _, rfl, ?_⟩
    show Early cfg s _ _ s.pc
    rw [here]
    exact .skipped here unkeyed
  | routed _ keyed =>
    rw [State.toAcquire]
    split
    · exact ⟨rfl, _, rfl, .found here keyed (.inl rfl)⟩
    · exact ⟨rfl, _, rfl, .found here keyed (.inr rfl)⟩

/-- An item of the client in the post-route loop is a step up to the write. -/
lemma Behind.onPostRoute {key : Bytes} {dest : Option (Except RailscaleError D)} (here : s.pc = .joining key dest false)
    (o : Item F) : Behind cfg s (.clientItem o) (s.onPostRoute cfg key dest o) := by
  have turn := State.onPostRoute_cases cfg s key dest o
  generalize s.onPostRoute cfg key dest o = s' at turn ⊢
  cases turn with
  | stopped _ => exact .endPostRoute (s.emit _) here rfl rfl
  | @overflow i c _ _ _ => exact .endPostRoute { s.emit [.took (some (.ok i))] with cycle := c } here rfl rfl
  | kept _ =>
    refine ⟨rfl, _, rfl, ?_⟩
    show Early cfg s _ _ s.pc
    rw [here]
    exact .kept here

/-- A step up to the write is one of these. -/
theorem step_early (early : ¬ s.pc.After) (st : step cfg s a = some s') : Behind cfg s a s' := by
  have late : ∀ {P : Prop} {pc'}, s.pc = pc' → pc'.After → P := fun here after => absurd (here ▸ after) early
  cases step_cases st with
  | preRoute here => exact .onPreRoute here _
  | acquired here => exact ⟨rfl, _, rfl, .acquired here⟩
  | postRoute here => exact .onPostRoute here _
  | routed here => exact ⟨rfl, _, rfl, .answered here⟩
  | joined here => exact .afterJoin (s.emit _) (.route here) (by rw [here]; nofun) rfl rfl _ _
  | wrote here => exact late here trivial
  | writeError here => exact late here trivial
  | relay here => exact late here trivial
  | flushed here => exact late here trivial
  | flushedLast here => exact late here trivial
  | flushError here => exact here.elim (late · trivial) (late · trivial)
  | flushedError here => exact late here trivial
  | copied here => exact late here trivial
  | copyError here => exact late here trivial
  | released here _ => exact late here trivial
  | dropped here _ => exact late here trivial

end early

/-! ## What is read off the steps -/

/-- The item of the client that a step takes. -/
def Action.items : Action F D → List (Item F)
  | .clientItem o => [o]
  | _ => []

section events

variable {cfg : Config F H} {s : State F H D} {a : Action F D} {es : List (Event F H D)} {pc' : Pc H D}

/-- What a step hears is what its action brings. -/
lemma Hears.takes (hears : Hears s a es) : takes es = a.items := by
  cases hears with
  | pre _ => rfl
  | post _ => rfl
  | route _ => rfl

/-- A step up to the write logs the item that it takes. -/
lemma Early.takes [Frame F] (early : Early cfg s a es pc') : takes es = a.items := by
  cases early with
  | @skipped i _ _ => exact (itemEvents_seen i).1
  | @found f _ _ _ _ _ => exact (itemEvents_seen (.parsed f)).1
  | acquired _ => rfl
  | answered _ => rfl
  | @kept _ _ i _ => exact (itemEvents_seen i).1
  | collected _ => rfl
  | forwarded hears _ => rw [takes_append, hears.takes, takes_forwardEvents, List.append_nil]
  | @failed _ _ fs err hears validated =>
    have silent : takes (fs ++ State.errorEvents cfg err) = [] := by
      rw [takes_append, (quiet_nil (quiet_errorEvents err)).1, List.append_nil]
      rcases validated with rfl | ⟨hook, r, rfl⟩
      · rfl
      · rfl
    rw [takes_append, hears.takes, silent, List.append_nil]
  | returned _ => rfl

/-- An event that sends nothing to the client. -/
def Event.Inward : Event F H D → Prop
  | .clientWrite _ => False
  | .errorResponse _ => False
  | _ => True

/-- What is logged of an item comes in. -/
lemma inward_itemEvents (i : ParsedData F) : ∀ e ∈ (State.itemEvents i : List (Event F H D)), e.Inward := by
  cases i with
  | parsed f => exact List.forall_mem_cons.2 ⟨trivial, List.forall_mem_singleton.2 trivial⟩
  | passthrough bs => exact List.forall_mem_singleton.2 trivial

/-- The write of the request is not for the client. -/
lemma inward_forwardEvents (d : D) : ∀ e ∈ s.forwardEvents d, e.Inward := by
  have opened : ∀ e ∈ (State.openEvents s.cycle : List (Event F H D)), e.Inward := by
    rw [State.openEvents]
    split
    · exact List.forall_mem_singleton.2 trivial
    · exact List.forall_mem_nil _
  rw [State.forwardEvents, List.cons_append, List.forall_mem_cons, List.forall_mem_append]
  exact ⟨trivial, opened, List.forall_mem_cons.2 ⟨trivial, List.forall_mem_singleton.2 trivial⟩⟩

/-- What a step hears comes in. -/
lemma Hears.inward (hears : Hears s a es) : ∀ e ∈ es, e.Inward := by
  cases hears with
  | pre _ => exact List.forall_mem_singleton.2 trivial
  | post _ => exact List.forall_mem_singleton.2 trivial
  | route _ => exact List.forall_mem_singleton.2 trivial

/-- A step up to the write that does not fail sends nothing to the client. -/
lemma Early.inward [Frame F] (early : Early cfg s a es pc') (going : ∀ err, pc' ≠ .finished (.error err)) :
    ∀ e ∈ es, e.Inward := by
  cases early with
  | skipped _ _ => exact inward_itemEvents _
  | found _ _ _ => exact inward_itemEvents (.parsed _)
  | acquired _ => exact List.forall_mem_singleton.2 trivial
  | answered _ => exact List.forall_mem_singleton.2 trivial
  | kept _ => exact inward_itemEvents _
  | collected _ => exact List.forall_mem_singleton.2 trivial
  | forwarded hears _ => exact List.forall_mem_append.2 ⟨hears.inward, inward_forwardEvents _⟩
  | failed _ _ => exact absurd rfl (going _)
  | returned _ => exact List.forall_mem_singleton.2 trivial

/-- An item of the client is taken up to the write. -/
lemma early_of_clientItem [Frame F] [ConnectionHook H F] {s' : State F H D} {o : Item F}
    (st : step cfg s (.clientItem o) = some s') : ¬ s.pc.After := by
  cases step_cases st with
  | preRoute here =>
    rw [here]
    exact id
  | postRoute here =>
    rw [here]
    exact id

/-- A connection that has returned takes no step. -/
lemma not_step_finished [Frame F] [ConnectionHook H F] {s' : State F H D} {r : Except RailscaleError Unit}
    (pc : s.pc = .finished r) : step cfg s a ≠ some s' := by
  intro st
  unfold step at st
  rw [pc] at st
  cases st

end events

end Railscale.Service
