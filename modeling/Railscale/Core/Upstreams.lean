import Railscale.Core.Accounting

/-!
# The upstreams of a connection

`do_connection` calls `upstream_open` in every cycle that forwards its request to a fresh destination, and its result
says whether it has forwarded a request at all. Both are read off the logs of the cycles: the calls are the cycles that
are `fresh`, and the result is that some cycle has `forwarded` its request (`Metered`).
-/

namespace Railscale

namespace Service

variable {F H D : Type}

/-! ## The upstreams of a cycle -/

/-- The cycle has got a destination out of the pool. -/
def pooled (log : List (Event F H D)) : Bool :=
  log.any fun
    | .acquired _ (some _) => true
    | _ => false

/-- The cycle has forwarded its request. -/
def forwarded (log : List (Event F H D)) : Bool :=
  log.any fun
    | .destWrite _ _ => true
    | _ => false

/-- The cycle has forwarded its request to a fresh destination. -/
def fresh (log : List (Event F H D)) : Bool := forwarded log && !pooled log

/-- The calls of `upstream_open` in a cycle. -/
def opens (log : List (Event F H D)) : Nat :=
  log.countP fun
    | .upstreamOpen => true
    | _ => false

/-- The cycles of a connection. -/
def State.cycles (s : State F H D) : List (List (Event F H D)) := s.past ++ [s.log]

/-- An event that says nothing about the upstream. -/
def Event.Aside : Event F H D → Prop
  | .acquired _ _ => False
  | .upstreamOpen => False
  | .destWrite _ _ => False
  | _ => True

section logs

variable {l m es : List (Event F H D)}

/-- A cycle got a pooled connection in one part of its log or in the other. -/
lemma pooled_append : pooled (l ++ m) = (pooled l || pooled m) := List.any_append

/-- A cycle has forwarded its request in one part of its log or in the other. -/
lemma forwarded_append : forwarded (l ++ m) = (forwarded l || forwarded m) := List.any_append

/-- The calls of `upstream_open` in two logs, one behind the other. -/
lemma opens_append : opens (l ++ m) = opens l + opens m := List.countP_append

/-- Such events show in none of the three. -/
lemma aside_nil (aside : ∀ e ∈ es, e.Aside) : pooled es = false ∧ forwarded es = false ∧ opens es = 0 := by
  induction es with
  | nil => exact ⟨rfl, rfl, rfl⟩
  | cons e es ih =>
    obtain ⟨head, tail⟩ := List.forall_mem_cons.1 aside
    obtain ⟨p, f, o⟩ := ih tail
    cases e with
    | acquired _ _ => exact head.elim
    | upstreamOpen => exact head.elim
    | destWrite _ _ => exact head.elim
    | _ => exact ⟨p, f, o⟩

/-- What comes behind the write opens nothing. -/
lemma Event.Late.aside {e : Event F H D} (late : e.Late) : e.Aside := by
  cases e <;> first | exact late.elim | trivial

/-- The three behind such events. -/
lemma append_aside (aside : ∀ e ∈ es, e.Aside) :
    pooled (l ++ es) = pooled l ∧ forwarded (l ++ es) = forwarded l ∧ opens (l ++ es) = opens l := by
  obtain ⟨p, f, o⟩ := aside_nil aside
  rw [pooled_append, forwarded_append, opens_append, p, f, o]
  exact ⟨Bool.or_false _, Bool.or_false _, rfl⟩

/-- The calls of `upstream_open` of some cycles. -/
lemma opens_flatten {ls : List (List (Event F H D))} (each : ∀ log ∈ ls, opens log = (fresh log).toNat) :
    opens ls.flatten = ls.countP fresh := by
  induction ls with
  | nil => rfl
  | cons l ls ih =>
    obtain ⟨head, tail⟩ := List.forall_mem_cons.1 each
    rw [List.flatten_cons, opens_append, head, ih tail, List.countP_cons, Nat.add_comm]
    cases fresh l with
    | true => rfl
    | false => rfl

/-- The three behind late events. -/
lemma append_late (late : ∀ e ∈ es, e.Late) :
    pooled (l ++ es) = pooled l ∧ forwarded (l ++ es) = forwarded l ∧ opens (l ++ es) = opens l :=
  append_aside fun e mem => (late e mem).aside

end logs

/-! ## The steps up to the write -/

/-- The places where the destination and the rest of the request are awaited. -/
def Pc.Joins : Pc H D → Prop
  | .joining _ _ _ => True
  | _ => False

/-- The places before. -/
def Pc.Searches : Pc H D → Prop
  | .preRoute => True
  | .acquiring _ => True
  | _ => False

/-- What a step up to the write does about the upstream. -/
inductive Opens (s s' : State F H D) : Prop where
  | searches {es} :
    (∀ e ∈ es, e.Aside) →
    s'.log = s.log ++ es →
    s.pc.Searches →
    s'.pc.Searches →
    Opens s s'
  | bypassed {es} :
    (∀ e ∈ es, e.Aside) →
    s'.log = s.log ++ es →
    s.pc.Searches →
    s'.pc.Joins →
    s'.cycle.needRoute = true →
    Opens s s'
  | acquired {key dest} :
    s'.log = s.log ++ [.acquired key dest] →
    s.pc.Searches →
    s'.pc.Joins →
    s'.cycle.needRoute = dest.isNone →
    Opens s s'
  | joins {es} :
    (∀ e ∈ es, e.Aside) →
    s'.log = s.log ++ es →
    s.pc.Joins →
    s'.pc.Joins →
    s'.cycle.needRoute = s.cycle.needRoute →
    Opens s s'
  | forwarded {es key d bs} :
    (∀ e ∈ es, e.Aside) →
    s'.log = s.log ++ (es ++ (State.openEvents s.cycle ++ [.captureRequest bs, .destWrite d bs])) →
    s.pc.Joins →
    s'.pc = .writing key d →
    Opens s s'
  | returned {es r} :
    (∀ e ∈ es, e.Aside) →
    s'.log = s.log ++ es →
    s'.pc = .finished r →
    Opens s s'

section steps

variable {cfg : Config F H} {s s' : State F H D} {a : Action F D}

/-- An error response opens nothing. -/
lemma aside_errorEvents (err : RailscaleError) : ∀ e ∈ (State.errorEvents cfg err : List (Event F H D)), e.Aside := by
  rw [State.errorEvents]
  split
  · exact List.forall_mem_singleton.2 trivial
  · exact List.forall_mem_nil _

/-- An item of the client opens nothing. -/
lemma aside_itemEvents (i : ParsedData F) : ∀ e ∈ (State.itemEvents i : List (Event F H D)), e.Aside := by
  cases i with
  | parsed f => exact List.forall_mem_cons.2 ⟨trivial, List.forall_mem_singleton.2 trivial⟩
  | passthrough bs => exact List.forall_mem_singleton.2 trivial

/-- Failing behind some events. -/
lemma Opens.fail {t : State F H D} {es : List (Event F H D)} (aside : ∀ e ∈ es, e.Aside) (log : t.log = s.log ++ es)
    (cr : ConnectionResult) (err : RailscaleError) : Opens s (t.fail cfg cr err) := by
  rw [State.fail_eq]
  have asides : ∀ e ∈ es ++ State.errorEvents cfg err, e.Aside :=
    List.forall_mem_append.2 ⟨aside, aside_errorEvents err⟩
  refine .returned asides ?_ rfl
  show t.log ++ _ = _
  rw [log, List.append_assoc]

/-- The end of the pre-route loop opens nothing but with the write. -/
lemma Opens.endPreRoute {t : State F H D} {o : Item F} (log : t.log = s.log ++ [.took o]) (clientClosed : Bool) :
    Opens s (t.endPreRoute cfg clientClosed) := by
  have aside : ∀ e ∈ ([.took o] : List (Event F H D)), e.Aside := List.forall_mem_singleton.2 trivial
  rw [State.endPreRoute]
  split
  · exact .returned aside log rfl
  · exact .fail aside log _ _

variable [Frame F] [ConnectionHook H F]

/-- An item of the client in the pre-route loop opens nothing but with the write. -/
lemma Opens.onPreRoute (here : s.pc = .preRoute) (o : Item F) : Opens s (s.onPreRoute cfg o) := by
  have took : ∀ o, ∀ e ∈ ([.took o] : List (Event F H D)), e.Aside := fun _ => List.forall_mem_singleton.2 trivial
  have searches : s.pc.Searches := here ▸ trivial
  have turn := State.onPreRoute_cases cfg s o
  generalize s.onPreRoute cfg o = s' at turn ⊢
  cases turn with
  | ended => exact .endPreRoute (t := s.emit _) rfl _
  | closed _ _ => exact .endPreRoute (t := s.emit _) rfl _
  | failed => exact .fail (t := s.emit _) (took _) rfl _ _
  | @overflow i c _ _ _ _ => exact .fail (t := { s.emit [.took (some (.ok i))] with cycle := c }) (took _) rfl _ _
  | kept _ _ => exact .searches (aside_itemEvents _) rfl searches searches
  | routed _ _ =>
    rw [State.toAcquire]
    split
    · exact .searches (aside_itemEvents _) rfl searches trivial
    · exact .bypassed (aside_itemEvents _) rfl searches trivial rfl

omit [Frame F] in
/-- The checks behind the join open nothing but with the write. -/
lemma Opens.afterJoin {t : State F H D} {es : List (Event F H D)} (joins : s.pc.Joins)
    (aside : ∀ e ∈ es, e.Aside) (log : t.log = s.log ++ es) (need : t.cycle.needRoute = s.cycle.needRoute)
    (key : Bytes) (dest : Except RailscaleError D) : Opens s (t.afterJoin cfg key dest) := by
  have validated : ∀ hook r, ∀ e ∈ es ++ [.validated hook r], e.Aside :=
    fun _ _ => List.forall_mem_append.2 ⟨aside, List.forall_mem_singleton.2 trivial⟩
  have emitted : ∀ es', (t.emit es').log = s.log ++ (es ++ es') := by
    intro es'
    rw [State.emit_log, log, List.append_assoc]
  have joined := State.afterJoin_cases cfg t key dest
  generalize t.afterJoin cfg key dest = s' at joined ⊢
  cases joined with
  | overflow _ => exact .fail aside log _ _
  | invalid _ _ => exact .fail (t := t.emit _) (validated _ _) (emitted _) _ _
  | unrouted _ _ => exact .fail (t := t.emit _) (validated _ _) (emitted _) _ _
  | @forwarded d _ _ =>
    have events : es ++ t.forwardEvents d = es ++ [.validated t.cycle.hook (.ok ())] ++ (State.openEvents s.cycle ++
        [.captureRequest (t.cycle.preRouteBuf ++ t.cycle.postRouteBuf).flatten,
          .destWrite d (t.cycle.preRouteBuf ++ t.cycle.postRouteBuf).flatten]) := by
      rw [State.forwardEvents, State.openEvents, State.openEvents, need, List.append_assoc]
      rfl
    exact .forwarded (validated _ _) ((emitted _).trans (congrArg _ events)) joins rfl

omit [Frame F] in
/-- The end of the collecting future opens nothing but with the write. -/
lemma Opens.endPostRoute {t : State F H D} {es : List (Event F H D)} (joins : s.pc.Joins)
    (aside : ∀ e ∈ es, e.Aside) (log : t.log = s.log ++ es) (need : t.cycle.needRoute = s.cycle.needRoute)
    (key : Bytes) (dest : Option (Except RailscaleError D)) : Opens s (t.endPostRoute cfg key dest) := by
  cases dest with
  | some r => exact .afterJoin joins aside log need key r
  | none => exact .joins aside log joins trivial need

/-- An item of the client in the post-route loop opens nothing but with the write. -/
lemma Opens.onPostRoute (joins : s.pc.Joins) (key : Bytes) (dest : Option (Except RailscaleError D)) (o : Item F) :
    Opens s (s.onPostRoute cfg key dest o) := by
  have took : ∀ e ∈ ([.took o] : List (Event F H D)), e.Aside := List.forall_mem_singleton.2 trivial
  have counted : ∀ i : ParsedData F, (State.count i s.cycle).needRoute = s.cycle.needRoute := by
    intro i
    cases i with
    | parsed f => rfl
    | passthrough bs => rfl
  unfold State.onPostRoute
  match o with
  | none => exact .endPostRoute (t := s.emit _) joins took rfl rfl key dest
  | some (.error err) => exact .endPostRoute (t := s.emit _) joins took rfl rfl key dest
  | some (.ok i) =>
    dsimp only
    split
    · apply Opens.endPostRoute joins took
      · rfl
      · exact counted i
    · match i with
      | .passthrough bs => exact .joins took rfl joins joins rfl
      | .parsed f =>
        refine .joins (aside_itemEvents (.parsed f)) ?_ joins joins rfl
        exact List.append_assoc _ _ _

/-- A step up to the write is one of these. -/
theorem step_opens (early : ¬ s.pc.After) (st : step cfg s a = some s') : Opens s s' := by
  have late : ∀ {P : Prop} {pc'}, s.pc = pc' → pc'.After → P := fun here after => absurd (here ▸ after) early
  have routed : ∀ key r, ∀ e ∈ ([.routed key r] : List (Event F H D)), e.Aside :=
    fun _ _ => List.forall_mem_singleton.2 trivial
  cases step_cases st with
  | preRoute here => exact .onPreRoute here _
  | acquired here => exact .acquired rfl (here ▸ trivial) trivial rfl
  | postRoute here => exact .onPostRoute (here ▸ trivial) _ _ _
  | @routed key r here => exact .joins (routed key r) rfl (here ▸ trivial) trivial rfl
  | @joined key r here =>
    apply Opens.afterJoin (here ▸ trivial) (routed key r)
    · rfl
    · rfl
  | wrote here => exact late here trivial
  | writeError here => exact late here trivial
  | relay here => exact late here trivial
  | flushed here => exact late here trivial
  | flushedLast here => exact late here trivial
  | flushError here => exact here.elim (late · trivial) (late · trivial)
  | flushedError here => exact late here trivial
  | copied here => exact late here trivial
  | copyError here => exact late here trivial
  | released here _ => exact late here trivial
  | dropped here _ => exact late here trivial

end steps

/-! ## The upstreams of a connection -/

/-- What a connection knows of the upstream of its cycle, place by place. -/
inductive Opening (s : State F H D) : Prop where
  | searching :
    s.pc.Searches →
    pooled s.log = false →
    forwarded s.log = false →
    Opening s
  | joining :
    s.pc.Joins →
    s.cycle.needRoute = !pooled s.log →
    forwarded s.log = false →
    Opening s
  | behind :
    s.pc.After →
    forwarded s.log = true →
    Opening s
  | returned {r} :
    s.pc = .finished r →
    Opening s

/-- A connection calls `upstream_open` in its cycles that forward to a fresh destination. -/
structure Opened (s : State F H D) : Prop where
  cycles : ∀ log ∈ s.cycles, opens log = (fresh log).toNat
  opening : Opening s

section opened

variable {cfg : Config F H} {s s' : State F H D} {a : Action F D}

/-- The cycles are the past ones and the current one. -/
lemma forall_cycles {P : List (Event F H D) → Prop} :
    (∀ log ∈ s.cycles, P log) ↔ (∀ log ∈ s.past, P log) ∧ P s.log := by
  rw [State.cycles, List.forall_mem_append, List.forall_mem_singleton]

/-- The three behind the forwarding of a request. -/
lemma append_forward {l es : List (Event F H D)} (aside : ∀ e ∈ es, e.Aside) (c : Cycle H) (d : D) (bs : Bytes) :
    pooled (l ++ (es ++ (State.openEvents c ++ [.captureRequest bs, .destWrite d bs]))) = pooled l ∧
      forwarded (l ++ (es ++ (State.openEvents c ++ [.captureRequest bs, .destWrite d bs]))) = true ∧
      opens (l ++ (es ++ (State.openEvents c ++ [.captureRequest bs, .destWrite d bs]))) =
        opens l + c.needRoute.toNat := by
  obtain ⟨p, f, o⟩ := append_aside (l := l) aside
  rw [← List.append_assoc, pooled_append, forwarded_append, opens_append, p, f, o, State.openEvents]
  cases c.needRoute with
  | true => exact ⟨Bool.or_false _, Bool.or_true _, rfl⟩
  | false => exact ⟨Bool.or_false _, Bool.or_true _, rfl⟩

/-- The places before the answer of the pool are neither in the join nor behind the write. -/
lemma Pc.Searches.apart {pc : Pc H D} (searches : pc.Searches) : ¬ pc.Joins ∧ ¬ pc.After := by
  cases pc with
  | preRoute => exact ⟨id, id⟩
  | acquiring _ => exact ⟨id, id⟩
  | _ => exact searches.elim

/-- The places of the join come behind that answer and before the write. -/
lemma Pc.Joins.apart {pc : Pc H D} (joins : pc.Joins) : ¬ pc.Searches ∧ ¬ pc.After := by
  cases pc with
  | joining _ _ _ => exact ⟨id, id⟩
  | _ => exact joins.elim

/-- Before the answer of the pool nothing has been opened. -/
lemma Opening.of_searches (opening : Opening s) (searches : s.pc.Searches) :
    pooled s.log = false ∧ forwarded s.log = false := by
  cases opening with
  | searching _ p f => exact ⟨p, f⟩
  | joining joins => exact absurd joins searches.apart.1
  | behind after => exact absurd after searches.apart.2
  | returned here => exact (here ▸ searches : (Pc.finished _ : Pc H D).Searches).elim

/-- In the join a route is needed when nothing came out of the pool, and nothing has been forwarded. -/
lemma Opening.of_joins (opening : Opening s) (joins : s.pc.Joins) :
    s.cycle.needRoute = !pooled s.log ∧ forwarded s.log = false := by
  cases opening with
  | searching searches => exact absurd joins searches.apart.1
  | joining _ n f => exact ⟨n, f⟩
  | behind after => exact absurd after joins.apart.2
  | returned here => exact (here ▸ joins : (Pc.finished _ : Pc H D).Joins).elim

/-- Nothing is forwarded up to the write. -/
lemma Opening.of_early (opening : Opening s) (early : ¬ s.pc.After) : forwarded s.log = false := by
  cases opening with
  | searching _ _ f => exact f
  | joining _ _ f => exact f
  | behind after => exact absurd after early
  | returned here => exact absurd (here ▸ trivial) early

/-- At the start nothing has been opened. -/
lemma Opened.init : Opened (State.init cfg : State F H D) where
  cycles := by
    rw [forall_cycles]
    exact ⟨nofun, rfl⟩
  opening := .searching trivial rfl rfl

/-- Up to the write nothing is forwarded, so that nothing is opened. -/
lemma Opened.unopened (opened : Opened s) (none : forwarded s.log = false) : opens s.log = 0 := by
  rw [(forall_cycles.1 opened.cycles).2, fresh, none]
  rfl

variable [Frame F] [ConnectionHook H F]

/-- Behind the write the request is forwarded. -/
lemma Opening.of_after (opening : Opening s) (after : s.pc.After) (st : step cfg s a = some s') :
    forwarded s.log = true := by
  cases opening with
  | searching searches => exact absurd after searches.apart.2
  | joining joins => exact absurd after joins.apart.2
  | behind _ f => exact f
  | returned here => exact absurd st (not_step_finished here)

/-- A step up to the write keeps it. -/
lemma Opened.early (opened : Opened s) (early : ¬ s.pc.After) (st : step cfg s a = some s') : Opened s' := by
  have past : s'.past = s.past := (step_early early st).1
  obtain ⟨before, now⟩ := forall_cycles.1 opened.cycles
  -- events aside do not change what the log says
  have aside : ∀ {es}, (∀ e ∈ es, e.Aside) → s'.log = s.log ++ es →
      pooled s'.log = pooled s.log ∧ forwarded s'.log = forwarded s.log ∧ opens s'.log = (fresh s'.log).toNat := by
    intro es aside log
    obtain ⟨p, f, o⟩ := append_aside (l := s.log) aside
    rw [log, fresh, p, f, o]
    exact ⟨rfl, rfl, now⟩
  have moves : opens s'.log = (fresh s'.log).toNat → Opening s' → Opened s' := by
    intro now' opening
    refine ⟨forall_cycles.2 ⟨?_, now'⟩, opening⟩
    rw [past]
    exact before
  cases step_opens early st with
  | searches es log here here' =>
    obtain ⟨p, f, now'⟩ := aside es log
    obtain ⟨unpooled, none⟩ := opened.opening.of_searches here
    exact moves now' (.searching here' (p.trans unpooled) (f.trans none))
  | bypassed es log here here' need =>
    obtain ⟨p, f, now'⟩ := aside es log
    obtain ⟨unpooled, none⟩ := opened.opening.of_searches here
    refine moves now' (.joining here' ?_ (f.trans none))
    rw [need, p, unpooled]
    rfl
  | @acquired key dest log here here' need =>
    obtain ⟨unpooled, none⟩ := opened.opening.of_searches here
    have none' : forwarded s'.log = false := by
      rw [log, forwarded_append, none]
      rfl
    refine moves ?_ (.joining here' ?_ none')
    · rw [fresh, none', log, opens_append, opened.unopened none]
      rfl
    · rw [need, log, pooled_append, unpooled]
      cases dest with
      | none => rfl
      | some d => rfl
  | joins es log here here' need =>
    obtain ⟨p, f, now'⟩ := aside es log
    obtain ⟨need', none⟩ := opened.opening.of_joins here
    refine moves now' (.joining here' ?_ (f.trans none))
    rw [need, need', p]
  | @forwarded _ _ d bs es log here here' =>
    obtain ⟨need, none⟩ := opened.opening.of_joins here
    obtain ⟨p, f, o⟩ := append_forward (l := s.log) es s.cycle d bs
    rw [← log] at p f o
    refine moves ?_ (.behind (here' ▸ trivial) f)
    rw [o, opened.unopened none, need, fresh, f, p, Nat.zero_add]
    rfl
  | returned es log here => exact moves (aside es log).2.2 (.returned here)

/-- A step behind the write keeps it. -/
lemma Opened.after (opened : Opened s) (after : s.pc.After) (st : step cfg s a = some s') : Opened s' := by
  obtain ⟨before, now⟩ := forall_cycles.1 opened.cycles
  have late : ∀ {es}, (∀ e ∈ es, e.Late) →
      forwarded (s.log ++ es) = forwarded s.log ∧ opens (s.log ++ es) = (fresh (s.log ++ es)).toNat := by
    intro es late
    obtain ⟨p, f, o⟩ := append_late (l := s.log) late
    rw [fresh, p, f, o]
    exact ⟨rfl, now⟩
  cases step_after after st with
  | stay es after' log past =>
    obtain ⟨f, now'⟩ := late es
    rw [← log] at f now'
    refine ⟨forall_cycles.2 ⟨?_, now'⟩, .behind after' (f.trans (opened.opening.of_after after st))⟩
    rw [past]
    exact before
  | next es _ pc _ log past =>
    refine ⟨forall_cycles.2 ⟨?_, ?_⟩, .searching ?_ ?_ ?_⟩
    · rw [past, List.forall_mem_append, List.forall_mem_singleton]
      exact ⟨before, (late es).2⟩
    · rw [log]
      rfl
    · rw [pc]
      trivial
    · rw [log]
      rfl
    · rw [log]
      rfl

/-- Every step calls `upstream_open` as it should. -/
lemma Opened.step (opened : Opened s) (st : Service.step cfg s a = some s') : Opened s' := by
  by_cases after : s.pc.After
  · exact opened.after after st
  · exact opened.early after st

/-- A connection that returns up to the write has not forwarded the request of its last cycle. -/
lemma Opened.unforwarded (opened : Opened s) (early : ¬ s.pc.After) (st : Service.step cfg s a = some s')
    {r : Except RailscaleError Unit} (returned : s'.pc = .finished r) : forwarded s'.log = false := by
  have none := opened.opening.of_early early
  cases step_opens early st with
  | searches es log => rw [log, (append_aside es).2.1, none]
  | bypassed es log => rw [log, (append_aside es).2.1, none]
  | acquired log =>
    rw [log, forwarded_append, none]
    rfl
  | joins es log => rw [log, (append_aside es).2.1, none]
  | forwarded _ _ _ here => cases returned.symm.trans here
  | returned es log => rw [log, (append_aside es).2.1, none]

/-! ## The result of a connection -/

/-- The result of a connection says whether it has forwarded a request. -/
structure Settles (s : State F H D) : Prop where
  going : ¬ s.pc.Over → s.total.routed = s.past.any forwarded
  isOver : s.pc.Over → s.total.routed = s.cycles.any forwarded

omit [Frame F] [ConnectionHook H F] in
/-- A request was forwarded in a past cycle or in the current one. -/
lemma any_cycles (s : State F H D) : s.cycles.any forwarded = (s.past.any forwarded || forwarded s.log) := by
  rw [State.cycles, List.any_append, List.any_cons, List.any_nil, Bool.or_false]

/-- The next cycle begins behind one that is settled. -/
lemma Settles.renews (settles : Settles s) (st : Service.step cfg s .release = some s') : Settles s' := by
  obtain ⟨⟨key, dest, here⟩, total, -, -⟩ := step_renews st
  obtain ⟨-, pc, -⟩ := step_release st
  have all := settles.isOver (here ▸ trivial)
  refine ⟨fun _ => ?_, fun isOver => (pc ▸ isOver : (Pc.preRoute : Pc H D).Over).elim⟩
  cases step_after (here ▸ trivial) st with
  | stay _ after =>
    rw [pc] at after
    exact after.elim
  | next es _ _ _ _ past =>
    rw [total, all, any_cycles, past, List.any_append, List.any_cons, List.any_nil, Bool.or_false, (append_late es).2.1]

/-- A step within a cycle settles it when it is over. -/
lemma Settles.stays (settles : Settles s) (opened : Opened s) (st : Service.step cfg s a = some s')
    (stay : a ≠ .release) : Settles s' := by
  have routed := settles.going fun isOver => stay (step_over isOver st)
  have past := (step_advances st stay).past
  have ends : s'.pc.Over → s'.total.routed = (s'.past.any forwarded || forwarded s'.log) → Settles s' := by
    intro isOver all
    exact ⟨fun going => absurd isOver going, fun _ => all.trans (any_cycles s').symm⟩
  -- a cycle that does not forward its request adds nothing to the result
  have without : ¬ s.pc.After → ∀ {r}, s'.pc = .finished r → ∀ {cr}, s'.total = s.total.accumulate cr →
      cr.routed = false → Settles s' := by
    intro early r here cr total none
    refine ends (here ▸ trivial) ?_
    rw [total, ConnectionResult.accumulate, none, routed, past, opened.unforwarded early st here]
  cases step_pays st stay with
  | goes going total _ _ =>
    refine ⟨fun _ => ?_, fun isOver => absurd isOver going⟩
    rw [total, routed, past]
  | fails early here total none _ _ => exact without early here total none
  | ended here total pre _ _ => exact without (pre ▸ id) here total rfl
  | closed here total pre _ _ _ => exact without (pre ▸ id) here total rfl
  | paid after isOver total _ =>
    refine ends isOver ?_
    cases step_after after st with
    | stay es _ log _ =>
      have forwards : forwarded s'.log = true := by
        rw [log, (append_late es).2.1]
        exact opened.opening.of_after after st
      rw [total, forwards, Bool.or_true]
      exact Bool.or_true _
    | next _ release => exact absurd release stay

/-- What every run keeps of a connection. -/
structure Metered (s : State F H D) : Prop where
  opened : Opened s
  settles : Settles s

omit [Frame F] [ConnectionHook H F] in
/-- At the start nothing has been counted. -/
lemma Metered.init : Metered (State.init cfg : State F H D) :=
  ⟨.init, fun _ => rfl, fun isOver => isOver.elim⟩

/-- Every step keeps the account. -/
lemma Metered.step (metered : Metered s) (st : Service.step cfg s a = some s') : Metered s' := by
  refine ⟨metered.opened.step st, ?_⟩
  by_cases release : a = .release
  · subst release
    exact metered.settles.renews st
  · exact metered.settles.stays metered.opened st release

end opened

end Service

end Railscale
