import Railscale.Core.Gauge
import Railscale.Core.IdleCount
import Railscale.Lib.Token

/-!
# The custody of a destination

A destination is a stream, and the bytes of two requests must not mix on it. A destination that `router.route` has made
is held by the connection that awaits it, stored in the pool when that connection releases it, and taken out of the
pool by the next one. In every interleaving of any number of connections it lives the life of a token: it is in one
place at most, and the cycles that write to it do so in turn (`custody_of_run`).
-/

namespace Railscale

open Token (Use Grip Turn)

/-! ## What an access does to the copies of a destination -/

namespace Stabling

variable {D : Type} [DecidableEq D]

/-- How often a queue has the destination. -/
def copiesIn (d : D) (queue : List (StabledConnection D)) : Nat := queue.countP (·.dest = d)

/-- How often the destination is stored. -/
def copies (s : Stabling D) (d : D) : Nat := s.idle.total (copiesIn d)

/-- A new pool has no copy. -/
lemma copies_new (config : StablingConfig) (d : D) : (new config).copies d = 0 := rfl

/-- What is removed with a queue is what was in the queue. -/
lemma copies_remove (s : Stabling D) (key : Bytes) (d : D) :
    (s.remove key).copies d + copiesIn d (s.queue key) = s.copies d := by
  have split := AList.total_erase (copiesIn d) key s.idle
  rw [copies, copies, ← split, queue, remove]
  cases s.idle.lookup key with
  | none => rfl
  | some q => rfl

/-- What is in the pool behind an insertion, with the queue that it replaces. -/
lemma copies_insert (s : Stabling D) (key : Bytes) (q : List (StabledConnection D)) (d : D) :
    copies { s with idle := s.idle.insert key q } d + copiesIn d (s.queue key) = copiesIn d q + s.copies d := by
  have removed := copies_remove s key d
  have inserted : copies { s with idle := s.idle.insert key q } d = copiesIn d q + (s.remove key).copies d :=
    AList.total_insert (copiesIn d) key q s.idle
  omega

/-- What the loop finds is no longer in the queue. -/
lemma copiesIn_popLoop (fresh : StabledConnection D → Bool) (queue : List (StabledConnection D)) (d : D) :
    copiesIn d (popLoop fresh queue).2 + (if (popLoop fresh queue).1 = some d then 1 else 0) ≤ copiesIn d queue := by
  rcases popLoop_cases fresh queue with ⟨loop, -⟩ | ⟨old, conn, rest, rfl, loop, -⟩
  · rw [loop]
    exact Nat.zero_le _
  · rw [loop, copiesIn, copiesIn, List.countP_append, List.countP_cons]
    simp only [Option.some.injEq, decide_eq_true_eq]
    omega

/-- `acquire` takes a copy of what it finds. -/
lemma copies_pop (s : Stabling D) (key : Bytes) (now : Nat) (d : D) :
    (s.pop key now).2.copies d + (if (s.pop key now).1.dest = some d then 1 else 0) ≤ s.copies d := by
  rw [pop]
  split
  · cases look : s.idle.lookup key with
    | none => exact Nat.le_refl _
    | some q =>
      have inserted := copies_insert s key (popLoop (s.fresh now) q).2 d
      have less := copiesIn_popLoop (s.fresh now) q d
      have whole : s.queue key = q := by
        rw [queue, look]
        rfl
      rw [whole] at inserted
      show copies { s with idle := s.idle.insert key (popLoop (s.fresh now) q).2 } d +
        (if (popLoop (s.fresh now) q).1 = some d then 1 else 0) ≤ s.copies d
      omega
  · exact Nat.le_refl _

/-- Removing a queue adds no copy. -/
lemma copies_remove_le (s : Stabling D) (key : Bytes) (d : D) : (s.remove key).copies d ≤ s.copies d := by
  have removed := copies_remove s key d
  omega

/-- Reaping adds no copy. -/
lemma copies_reapExpired_le (s : Stabling D) (now : Nat) (d : D) : (s.reapExpired now).copies d ≤ s.copies d := by
  apply AList.total_retain_le
  intro q q' h
  obtain ⟨-, e⟩ := Option.ite_none_left_eq_some.1 h
  cases e
  exact List.filter_sublist.countP_le

/-- `release` stores one copy of its destination at most. -/
lemma copies_release_le (s : Stabling D) (key : Bytes) (dest : D) (now : Nat) (d : D) :
    (s.release key dest now).copies d ≤ s.copies d + if dest = d then 1 else 0 := by
  cases enabled : s.config.enabled with
  | false =>
    rw [release_disabled enabled]
    exact Nat.le_add_right _ _
  | true =>
    rw [release_spec enabled]
    have inserted := copies_insert s key (⟨dest, now⟩ :: s.kept key) d
    have fewer : copiesIn d (s.kept key) ≤ copiesIn d (s.queue key) := (s.kept_sublist key).countP_le
    have pushed : copiesIn d (⟨dest, now⟩ :: s.kept key) = copiesIn d (s.kept key) + if dest = d then 1 else 0 := by
      rw [copiesIn, List.countP_cons]
      simp only [decide_eq_true_eq]
      rfl
    omega

end Stabling

/-! ## What a connection does with a destination -/

namespace Service

variable {F H : Type}

/-- What a place of `do_connection` has of a destination. -/
def Pc.grip (d : Nat) (pc : Pc H Nat) : Grip :=
  match pc with
  | .joining _ (some (.ok d')) _ => if d' = d then .ready else .away
  | pc => if pc.dest = some d then .sent else .away

/-- What an event says about a destination. -/
def useOf (d : Nat) : Event F H Nat → Option Use
  | .destWrite d' _ => if d' = d then some .written else none
  | .released _ d' => if d' = d then some .released else none
  | _ => none

/-- What some events say about it. -/
def uses (d : Nat) (es : List (Event F H Nat)) : List Use := es.filterMap (useOf d)

/-- What the connection has of the destination when its step has begun. -/
def gripped (d : Nat) (s : State F H Nat) (a : Action F Nat) : Grip :=
  if a.brings = some d then .ready else s.pc.grip d

/-- A step has a turn with every destination. -/
def Turns (s : State F H Nat) (a : Action F Nat) (s' : State F H Nat) : Prop :=
  ∃ es, s'.cycles.flatten = s.cycles.flatten ++ es ∧ ∀ d, Turn (gripped d s a) (uses d es) (s'.pc.grip d)

section turns

variable {cfg : Config F H} {s s' t : State F H Nat} {a : Action F Nat} {es : List (Event F H Nat)}

/-- The uses in two logs, one behind the other. -/
lemma uses_append (d : Nat) (l m : List (Event F H Nat)) : uses d (l ++ m) = uses d l ++ uses d m :=
  List.filterMap_append

/-- An error response is no use. -/
lemma uses_errorEvents (d : Nat) (err : RailscaleError) :
    uses d (State.errorEvents cfg err : List (Event F H Nat)) = [] := by
  rw [State.errorEvents]
  cases cfg.errorResponder with
  | none => rfl
  | some _ => rfl

/-- An item of the client is no use. -/
lemma uses_itemEvents (d : Nat) (i : ParsedData F) : uses d (State.itemEvents i : List (Event F H Nat)) = [] := by
  cases i with
  | parsed f => rfl
  | passthrough bs => rfl

/-- The write of the request is a use of its destination. -/
lemma uses_forwardEvents (d d' : Nat) : uses d (s.forwardEvents d') = if d' = d then [.written] else [] := by
  have written : uses d (s.forwardEvents d') =
      (useOf d (.destWrite d' (s.cycle.preRouteBuf ++ s.cycle.postRouteBuf).flatten : Event F H Nat)).toList := by
    rw [State.forwardEvents, State.openEvents]
    cases s.cycle.needRoute with
    | true => cases d' == d <;> rfl
    | false => rfl
  rw [written, useOf]
  split
  · rfl
  · rfl

/-- Events of the current cycle come behind all others. -/
lemma flatten_cycles (past : s'.past = s.past) (log : s'.log = s.log ++ es) :
    s'.cycles.flatten = s.cycles.flatten ++ es := by
  rw [State.cycles, State.cycles, past, log]
  simp only [List.flatten_append, List.flatten_singleton, List.append_assoc]

/-- A step that logs nothing about destinations keeps what it has, or drops it. -/
lemma Turns.quiet (es : List (Event F H Nat)) (past : s'.past = s.past) (log : s'.log = s.log ++ es)
    (none : ∀ d, uses d es = [])
    (grip : ∀ d, s'.pc.grip d = gripped d s a ∨ s'.pc.grip d = .away) : Turns s a s' := by
  refine ⟨es, flatten_cycles past log, fun d => ?_⟩
  rw [none d]
  rcases grip d with kept | dropped
  · rw [kept]
    exact .kept
  · rw [dropped]
    exact .dropped

/-- Failing. -/
lemma Turns.fail (es : List (Event F H Nat)) (past : t.past = s.past) (log : t.log = s.log ++ es)
    (none : ∀ d, uses d es = [])
    {cr : ConnectionResult} {err : RailscaleError} : Turns s a (t.fail cfg cr err) := by
  rw [State.fail_eq]
  refine .quiet (es ++ State.errorEvents cfg err) past ?_ (fun d => ?_) fun d => .inr rfl
  · show t.log ++ _ = _
    rw [log, List.append_assoc]
  · rw [uses_append, none, uses_errorEvents, List.append_nil]

variable [Frame F] [ConnectionHook H F]

omit [Frame F] in
/-- The write, when the connection has got its destination. -/
lemma Turns.afterJoin (es : List (Event F H Nat)) (past : t.past = s.past) (log : t.log = s.log ++ es)
    (none : ∀ d, uses d es = [])
    {dest : Except RailscaleError Nat} (ready : ∀ d, dest = .ok d → gripped d s a = .ready) (key : Bytes) :
    Turns s a (t.afterJoin cfg key dest) := by
  have validated : ∀ r, (t.emit [.validated t.cycle.hook r]).log = s.log ++ (es ++ [.validated t.cycle.hook r]) := by
    intro r
    rw [State.emit_log, log, List.append_assoc]
  have silent : ∀ r d, uses d (es ++ [.validated t.cycle.hook r]) = [] := by
    intro r d
    rw [uses_append, none]
    rfl
  have joined := State.afterJoin_cases cfg t key dest
  generalize t.afterJoin cfg key dest = s' at joined ⊢
  cases joined with
  | overflow _ => exact .fail es past log none
  | invalid _ _ => exact .fail (t := t.emit _) _ past (validated _) (silent _)
  | unrouted _ _ => exact .fail (t := t.emit _) _ past (validated _) (silent _)
  | @forwarded d' _ _ =>
    refine ⟨es ++ t.forwardEvents d', flatten_cycles past ?_, fun d => ?_⟩
    · rw [State.emit_log, log, List.append_assoc]
    rw [uses_append, none, List.nil_append, uses_forwardEvents]
    show Turn _ _ (if some d' = some d then .sent else .away)
    simp only [Option.some.injEq]
    split
    · rename_i same
      rw [ready d (congrArg _ same)]
      exact .written
    · exact .dropped

omit [Frame F] in
/-- The end of the collecting future has a turn with every destination. -/
lemma Turns.endPostRoute {key : Bytes} {dest : Option (Except RailscaleError Nat)} {o : Item F}
    (here : s.pc = .joining key dest false) (past : t.past = s.past) (log : t.log = s.log ++ [.took o]) :
    Turns s (.clientItem o) (t.endPostRoute cfg key dest) := by
  cases dest with
  | some r =>
    refine .afterJoin [.took o] past log (fun _ => rfl) ?_ key
    rintro d rfl
    rw [gripped, here]
    exact if_pos rfl
  | none => exact .quiet [.took o] past log (fun _ => rfl) fun d => .inr rfl

omit [Frame F] [ConnectionHook H F] in
/-- The end of the pre-route loop has a turn with every destination. -/
lemma Turns.endPreRoute {o : Item F} (past : t.past = s.past) (log : t.log = s.log ++ [.took o])
    {clientClosed : Bool} : Turns s (.clientItem o) (t.endPreRoute cfg clientClosed) := by
  rw [State.endPreRoute]
  split
  · exact .quiet [.took o] past log (fun _ => rfl) fun d => .inr rfl
  · exact .fail [.took o] past log (fun _ => rfl)

/-- An item of the client in the pre-route loop has a turn with every destination. -/
lemma Turns.onPreRoute (here : s.pc = .preRoute) (o : Item F) : Turns s (.clientItem o) (s.onPreRoute cfg o) := by
  have turn := State.onPreRoute_cases cfg s o
  generalize s.onPreRoute cfg o = s' at turn ⊢
  cases turn with
  | ended =>
    apply Turns.endPreRoute
    · rfl
    · rfl
  | closed _ _ =>
    apply Turns.endPreRoute
    · rfl
    · rfl
  | failed =>
    apply Turns.fail [.took _]
    · rfl
    · rfl
    · exact fun _ => rfl
  | overflow _ _ =>
    apply Turns.fail [.took _]
    · rfl
    · rfl
    · exact fun _ => rfl
  | kept _ _ =>
    refine .quiet (State.itemEvents _) rfl rfl (fun d => uses_itemEvents d _) fun d => .inr ?_
    show s.pc.grip d = _
    rw [here]
    rfl
  | routed _ _ =>
    rw [State.toAcquire]
    split
    · exact .quiet (State.itemEvents _) rfl rfl (fun d => uses_itemEvents d _) fun d => .inr rfl
    · exact .quiet (State.itemEvents _) rfl rfl (fun d => uses_itemEvents d _) fun d => .inr rfl

/-- An item of the client in the post-route loop has a turn with every destination. -/
lemma Turns.onPostRoute {key : Bytes} {dest : Option (Except RailscaleError Nat)}
    (here : s.pc = .joining key dest false) (o : Item F) : Turns s (.clientItem o) (s.onPostRoute cfg key dest o) := by
  have turn := State.onPostRoute_cases cfg s key dest o
  generalize s.onPostRoute cfg key dest o = s' at turn ⊢
  cases turn with
  | stopped _ => exact .endPostRoute (t := s.emit [.took _]) here rfl rfl
  | @overflow i c _ _ _ => exact .endPostRoute (t := { s.emit [.took (some (.ok i))] with cycle := c }) here rfl rfl
  | kept _ => exact .quiet (State.itemEvents _) rfl rfl (fun d => uses_itemEvents d _) fun d => .inl rfl

omit [Frame F] [ConnectionHook H F] in
/-- Behind its write a connection has sent to the destination that it has. -/
lemma Pc.After.grip {pc : Pc H Nat} (after : pc.After) (d : Nat) :
    pc.grip d = if pc.dest = some d then .sent else .away := by
  cases pc with
  | joining _ _ _ => exact after.elim
  | _ => rfl

omit [Frame F] [ConnectionHook H F] in
/-- A step that brings no destination begins with what the connection has. -/
lemma gripped_of_not (brings : a.brings = none) (d : Nat) : gripped d s a = s.pc.grip d := by
  rw [gripped, brings]
  exact if_neg (Option.some_ne_none d).symm

omit [Frame F] [ConnectionHook H F] in
/-- Behind the write a step keeps the destination, or drops it. -/
lemma Turns.after (es : List (Event F H Nat)) (here : s.pc.After) (there : s'.pc.After) (brings : a.brings = none)
    (past : s'.past = s.past) (log : s'.log = s.log ++ es) (none : ∀ d, uses d es = [])
    (dest : s'.pc.dest = s.pc.dest ∨ s'.pc.dest = .none) : Turns s a s' := by
  refine .quiet es past log none fun d => ?_
  rw [there.grip, gripped_of_not brings, here.grip]
  rcases dest with same | gone
  · rw [same]
    exact .inl rfl
  · rw [gone]
    exact .inr (if_neg (Option.some_ne_none d).symm)

omit [Frame F] [ConnectionHook H F] in
/-- The end of a cycle behind its relay has a turn with every destination. -/
lemma Turns.endCycle {key : Bytes} {dest : Nat} (here : s.pc.After) (holds : s.pc.dest = some dest)
    (brings : a.brings = none) (n : Nat) (close : Bool) : Turns s a (s.endCycle key dest n close) := by
  rw [State.endCycle]
  cases close with
  | true => exact .after [] here trivial brings rfl (List.append_nil _).symm (fun _ => rfl) (.inr rfl)
  | false => exact .after [] here trivial brings rfl (List.append_nil _).symm (fun _ => rfl) (.inl holds.symm)

/-- A turn of the relay loop has a turn with every destination. -/
lemma Turns.onRelay {r : Relay H Nat} (here : s.pc = .relaying r) (o : Item F) :
    Turns s (.responseItem o) (s.onRelay cfg r o) := by
  have after : s.pc.After := by
    rw [here]
    trivial
  have holds : s.pc.dest = some r.dest := by
    rw [here]
    rfl
  have flush : ∀ {pc : Pc H Nat} bs, pc.After → pc.dest = some r.dest →
      Turns s (.responseItem o) { s.emit [.captureResponse bs, .clientWrite bs] with pc := pc } := by
    intro pc bs there keeps
    exact .after [.captureResponse bs, .clientWrite bs] after there rfl rfl rfl (fun _ => rfl)
      (.inl (keeps.trans holds.symm))
  unfold State.onRelay
  match o with
  | none =>
    simp only
    split
    · exact flush r.batch trivial rfl
    · exact .endCycle after holds rfl _ _
  | some (.error err) =>
    simp only
    split
    · exact .after [.clientWrite r.batch] after trivial rfl rfl rfl (fun _ => rfl) (.inl holds.symm)
    · exact .after [] after trivial rfl rfl (List.append_nil _).symm (fun _ => rfl) (.inr rfl)
  | some (.ok i) =>
    simp only
    split
    · exact flush _ trivial rfl
    · exact .after [] after trivial rfl rfl (List.append_nil _).symm (fun _ => rfl) (.inl holds.symm)

omit [Frame F] [ConnectionHook H F] in
/-- The next cycle begins without an event. -/
lemma nextCycle_flatten : (s.nextCycle cfg).cycles.flatten = s.cycles.flatten ++ [] := by
  show ((s.past ++ [s.log]) ++ [[]]).flatten = _
  rw [List.flatten_append, State.cycles]
  simp only [List.flatten_singleton, List.append_nil]

omit [Frame F] [ConnectionHook H F] in
/-- The release of a destination. -/
lemma released_turns {key : Bytes} {dest : Nat} (here : s.pc = .releasing key dest) :
    (State.nextCycle cfg (s.emit [.released key dest])).cycles.flatten =
        s.cycles.flatten ++ [.released key dest] ∧
      ∀ d, Turn (s.pc.grip d) (uses d ([.released key dest] : List (Event F H Nat))) .away := by
  constructor
  · show ((s.past ++ [s.log ++ [Event.released key dest]]) ++ [[]]).flatten = _
    rw [List.flatten_append, State.cycles]
    simp only [List.flatten_append, List.flatten_singleton, List.append_nil, List.append_assoc]
  · intro d
    rw [here]
    show Turn (if some dest = some d then .sent else .away)
      (useOf d (Event.released key dest : Event F H Nat)).toList .away
    rw [useOf]
    simp only [Option.some.injEq]
    split
    · exact .released
    · exact .dropped

/-- A step of a connection has a turn with every destination. -/
theorem step_turns (st : step cfg s a = some s') : Turns s a s' := by
  have stays : ∀ {pc : Pc H Nat}, s.pc.After → a.brings = none → pc.After → pc.dest = s.pc.dest ∨ pc.dest = none →
      Turns s a { s with pc := pc } := by
    intro pc here brings there dest
    exact .after [] here there brings rfl (List.append_nil _).symm (fun _ => rfl) dest
  have returns : ∀ cr r, s.pc.After → a.brings = none → Turns s a (s.finish cr r) := by
    intro cr r here brings
    exact .after [] here trivial brings rfl (List.append_nil _).symm (fun _ => rfl) (.inr rfl)
  cases step_cases st with
  | preRoute here => exact .onPreRoute here _
  | @acquired key dest here =>
    refine .quiet [.acquired key dest] rfl rfl (fun _ => rfl) fun d => ?_
    rw [gripped]
    cases dest with
    | none => exact .inr rfl
    | some d' =>
      show (if d' = d then _ else _) = (if some d' = some d then _ else _) ∨ (if d' = d then _ else _) = _
      simp only [Option.some.injEq]
      split
      · exact .inl rfl
      · exact .inr rfl
  | postRoute here => exact .onPostRoute here _
  | @routed key r here =>
    refine .quiet [.routed key r] rfl rfl (fun _ => rfl) fun d => ?_
    rw [gripped]
    cases r with
    | error err => exact .inr rfl
    | ok d' =>
      show (if d' = d then _ else _) = (if some d' = some d then _ else _) ∨ (if d' = d then _ else _) = _
      simp only [Option.some.injEq]
      split
      · exact .inl rfl
      · exact .inr rfl
  | @joined key r here =>
    refine .afterJoin (s := s) (t := s.emit [.routed key r]) [.routed key r] rfl rfl (fun _ => rfl) ?_ key
    rintro d rfl
    exact if_pos rfl
  | @wrote key dest here =>
    rw [State.toRelay]
    split
    · exact stays (here ▸ trivial) rfl trivial (.inl (by rw [here]; rfl))
    · exact stays (here ▸ trivial) rfl trivial (.inl (by rw [here]; rfl))
  | relay here => exact .onRelay here _
  | flushed here => exact stays (here ▸ trivial) rfl trivial (.inl (by rw [here]; rfl))
  | flushedLast here => exact .endCycle (here ▸ trivial) (by rw [here]; rfl) rfl _ _
  | copied here => exact .endCycle (here ▸ trivial) (by rw [here]; rfl) rfl _ _
  | writeError here => exact returns _ _ (here ▸ trivial) rfl
  | flushError here => exact returns _ _ (here.elim (· ▸ trivial) (· ▸ trivial)) rfl
  | flushedError here => exact returns _ _ (here ▸ trivial) rfl
  | copyError here => exact returns _ _ (here ▸ trivial) rfl
  | @released key dest here on =>
    obtain ⟨log, turn⟩ := released_turns here
    exact ⟨_, log, turn⟩
  | dropped here _ => exact ⟨[], nextCycle_flatten, fun d => .dropped⟩

end turns

end Service

/-! ## The pool and its connections -/

namespace Custody

open Service Pool

/-- The connections and their pool, and what the connections have done so far, in order. -/
structure State (F H : Type) where
  pool : Pool.State F H
  trace : List (Nat × Event F H Nat)

section system

variable {F H : Type}

/-- What connection `i` has done so far. -/
def logged (p : Pool.State F H) (i : Nat) : List (Event F H Nat) :=
  (p.conns[i]?).elim [] fun c => c.state.cycles.flatten

/-- What the connections do in a step. -/
def news (p p' : Pool.State F H) : List (Nat × Event F H Nat) :=
  (List.range p'.conns.length).flatMap fun i => ((logged p' i).drop (logged p i).length).map (i, ·)

/-- Who writes to a destination and who releases it, in order. -/
def usesOf (d : Nat) (trace : List (Nat × Event F H Nat)) : List (Nat × Use) :=
  trace.filterMap fun e => (useOf d e.2).map (e.1, ·)

/-- What a connection has of a destination: the handle in its hands, or one that it has popped. -/
def hands (c : Conn F H) (d : Nat) : Grip :=
  if c.popped = some (some d) then .ready else c.state.pc.grip d

/-- What connection `i` has of a destination. -/
def gripOf (p : Pool.State F H) (d i : Nat) : Grip := (p.conns[i]?).elim .away (hands · d)

/-- Where a destination is: the copies in the pool, what the connections have of it, and whether `router.route` has
still to make it. -/
def At (p : Pool.State F H) (d : Nat) (loc : Token.Loc Nat) : Prop :=
  Token.At (p.stabling.copies d) (gripOf p d) (p.routes.length ≤ d) loc

/-- A connection that has popped something awaits the pool. -/
def Waits (p : Pool.State F H) : Prop :=
  ∀ c ∈ p.conns, c.popped ≠ none → ∃ key, c.state.pc = .acquiring key

variable [Frame F] [ConnectionHook H F] (cfg : Config F H)

/-- No connections yet. -/
def State.init (config : StablingConfig) : State F H := ⟨.init config, []⟩

/-- One step of the connections and their pool. -/
def step (g : State F H) (a : Pool.Action F) : Option (State F H) :=
  (Pool.step cfg g.pool a).map fun p => ⟨p, g.trace ++ news g.pool p⟩

variable {cfg} {p p' q : Pool.State F H} {i d : Nat} {c c' : Conn F H} {es : List (Event F H Nat)}

/-! ### What is seen of a step -/

omit [Frame F] [ConnectionHook H F] in
/-- Nothing is done if every connection has done what it had. -/
lemma news_nil (same : ∀ i, logged p' i = logged p i) : news p p' = [] := by
  refine List.flatMap_eq_nil_iff.2 fun i _ => ?_
  rw [same, List.drop_length]
  rfl

omit [Frame F] [ConnectionHook H F] in
/-- What the connections have done when one of them has gone on. -/
lemma logged_set (here : p.conns[i]? = some c) (conns : p'.conns = p.conns.set i c') (j : Nat) :
    logged p' j = if j = i then c'.state.cycles.flatten else logged p j := by
  rw [logged, conns]
  split
  · rename_i same
    rw [same, List.getElem?_set_self (List.getElem?_eq_some_iff.1 here).1]
    rfl
  · rename_i other
    rw [List.getElem?_set_ne (Ne.symm other)]
    rfl

omit [Frame F] [ConnectionHook H F] in
/-- The step of one connection. -/
lemma news_set (here : p.conns[i]? = some c) (conns : p'.conns = p.conns.set i c')
    (log : c'.state.cycles.flatten = c.state.cycles.flatten ++ es) : news p p' = es.map (i, ·) := by
  have within : i ∈ List.range p'.conns.length := by
    rw [conns, List.length_set]
    exact List.mem_range.2 (List.getElem?_eq_some_iff.1 here).1
  rw [news, flatMap_eq_of_single List.nodup_range within]
  · rw [logged_set here conns, if_pos rfl, log, logged, here]
    show ((c.state.cycles.flatten ++ es).drop c.state.cycles.flatten.length).map _ = _
    rw [List.drop_left]
  · intro j _ other
    rw [logged_set here conns, if_neg other, List.drop_length]
    rfl

omit [Frame F] [ConnectionHook H F] in
/-- The uses of one connection. -/
lemma usesOf_map (d i : Nat) (es : List (Event F H Nat)) : usesOf d (es.map (i, ·)) = (uses d es).map (i, ·) := by
  rw [usesOf, uses, List.filterMap_map, List.map_filterMap]
  rfl

/-- A step is seen of one connection, or of none. -/
inductive Seen (p p' : Pool.State F H) : Prop where
  | none :
    news p p' = [] →
    (∀ i, logged p' i = logged p i) →
    Seen p p'
  | one {k fs} :
    news p p' = fs.map (k, ·) →
    (∀ j, logged p' j = if j = k then logged p j ++ fs else logged p j) →
    Seen p p'

/-! ### What a step does to a destination -/

omit [Frame F] [ConnectionHook H F] in
/-- What the connections have of a destination when one of them has gone on. -/
lemma gripOf_set (here : p.conns[i]? = some c) (conns : p'.conns = p.conns.set i c') (d : Nat) :
    gripOf p' d = Function.update (gripOf p d) i (hands c' d) := by
  funext j
  rw [gripOf, conns, Function.update_apply]
  split
  · rename_i same
    rw [same, List.getElem?_set_self (List.getElem?_eq_some_iff.1 here).1]
    rfl
  · rename_i other
    rw [List.getElem?_set_ne (Ne.symm other)]
    rfl

omit [Frame F] [ConnectionHook H F] in
/-- What a connection has, looked up. -/
lemma gripOf_eq (here : p.conns[i]? = some c) (d : Nat) : gripOf p d i = hands c d := by
  rw [gripOf, here]
  rfl

omit [Frame F] [ConnectionHook H F] in
/-- Without a popped handle a connection has what is in its hands. -/
lemma hands_of_not (popped : c.popped = none) (d : Nat) : hands c d = c.state.pc.grip d := by
  rw [hands, popped]
  exact if_neg (Option.some_ne_none _).symm

/-- A step of a connection, from what it has of the destination when the step has begun. -/
lemma advance_leads {a : Service.Action F Nat} {loc : Token.Loc Nat} (st : q.advance cfg i a = some p')
    (conns : q.conns = p.conns)
    (begins : ∀ c s, p.conns[i]? = some c → Service.step cfg c.state a = some s → Token.At (q.stabling.copies d)
      (Function.update (gripOf p d) i (gripped d c.state a)) (q.routes.length ≤ d) loc) :
    ∃ loc', Token.Leads loc (usesOf d (news p p')) loc' ∧ At p' d loc' := by
  obtain ⟨c, here, rest⟩ := Option.bind_eq_some_iff.1 st
  obtain ⟨s, move, same⟩ := Option.bind_eq_some_iff.1 rest
  cases same
  rw [conns] at here
  obtain ⟨es, log, turn⟩ := step_turns move
  have turn := turn d
  rw [← Function.update_self i (gripped d c.state a) (gripOf p d)] at turn
  obtain ⟨loc', leads, there⟩ := (begins c s here move).turn turn
  have moved : ({ q with conns := q.conns.set i ⟨s, none⟩ } : Pool.State F H).conns = p.conns.set i ⟨s, none⟩ :=
    congrArg (List.set · i _) conns
  refine ⟨loc', ?_, ?_⟩
  · rw [news_set here moved log, usesOf_map]
    exact leads
  · rw [Function.update_idem] at there
    rw [At, gripOf_set here moved, hands_of_not rfl]
    exact there

omit [Frame F] [ConnectionHook H F] in
/-- A connection that does not await the pool has popped nothing. -/
lemma Waits.idle (waits : Waits p) (here : p.conns[i]? = some c) (other : ∀ key, c.state.pc ≠ .acquiring key) :
    c.popped = none := by
  by_contra popped
  obtain ⟨key, pc⟩ := waits c (List.mem_of_getElem? here) popped
  exact other key pc

/-- A connection that has popped something only waits for what it has popped. -/
lemma Waits.popped (waits : Waits p) (here : p.conns[i]? = some c) {a : Service.Action F Nat}
    {s : Service.State F H Nat} (move : Service.step cfg c.state a = some s) (other : ∀ dest, a ≠ .acquired dest) :
    c.popped = none := by
  by_contra popped
  obtain ⟨key, pc⟩ := waits c (List.mem_of_getElem? here) popped
  cases step_cases move with
  | acquired _ => exact other _ rfl
  | _ => simp_all

/-- A step that brings no destination. -/
lemma advance_local {a : Service.Action F Nat} {loc : Token.Loc Nat} (waits : Waits p)
    (st : q.advance cfg i a = some p') (conns : q.conns = p.conns) (brings : a.brings ≠ some d)
    (other : ∀ dest, a ≠ .acquired dest)
    (here : Token.At (q.stabling.copies d) (gripOf p d) (q.routes.length ≤ d) loc) :
    ∃ loc', Token.Leads loc (usesOf d (news p p')) loc' ∧ At p' d loc' := by
  refine advance_leads st conns fun c s there move => ?_
  rw [gripped, if_neg brings, ← hands_of_not (waits.popped there move other), ← gripOf_eq there d,
    Function.update_eq_self]
  exact here

omit [Frame F] [ConnectionHook H F] in
/-- At the start there is no connection. -/
lemma Waits.init (config : StablingConfig) : Waits (Pool.State.init config : Pool.State F H) := by
  intro c mem
  cases mem

/-- Every step keeps it so that only who awaits the pool has popped something. -/
lemma Waits.step {a : Pool.Action F} (waits : Waits p) (st : Pool.step cfg p a = some p') : Waits p' := by
  intro c mem popped
  cases Pool.step_moves st with
  | kept conns =>
    rw [conns] at mem
    exact waits c mem popped
  | accepted conns =>
    rw [conns] at mem
    rcases List.mem_append.1 mem with mem | mem
    · exact waits c mem popped
    · rw [List.mem_singleton.1 mem] at popped
      exact absurd rfl popped
  | advanced _ _ conns =>
    rw [conns] at mem
    rcases List.mem_or_eq_of_mem_set mem with mem | rfl
    · exact waits c mem popped
    · exact absurd rfl popped
  | held _ pc conns =>
    rw [conns] at mem
    rcases List.mem_or_eq_of_mem_set mem with mem | rfl
    · exact waits c mem popped
    · exact ⟨_, pc⟩

omit [Frame F] [ConnectionHook H F] in
/-- What the guarded part of `acquire` takes out of the pool is what the connection goes on with. -/
lemma At.pop {loc : Token.Loc Nat} (here : At p d loc) (key : Bytes) (now i : Nat) :
    ∃ loc', Token.Leads loc [] loc' ∧ Token.At ((p.stabling.pop key now).2.copies d)
      (Function.update (gripOf p d) i (if (p.stabling.pop key now).1.dest = some d then .ready else gripOf p d i))
      (p.routes.length ≤ d) loc' := by
  have less := p.stabling.copies_pop key now d
  split
  · rename_i found
    rw [if_pos found] at less
    obtain ⟨leads, there⟩ := Token.At.take here less i
    exact ⟨_, leads, there⟩
  · rename_i lost
    rw [if_neg lost] at less
    rw [Function.update_eq_self]
    exact Token.At.lower here less

omit [Frame F] [ConnectionHook H F] in
/-- A new connection has done nothing and has no destination. -/
lemma accept_keeps (conns : p'.conns = p.conns ++ [(⟨.init cfg, none⟩ : Conn F H)]) :
    (∀ d, gripOf p' d = gripOf p d) ∧ ∀ i, logged p' i = logged p i := by
  have each : ∀ i : Nat, p'.conns[i]? = p.conns[i]? ∨
      p'.conns[i]? = some (⟨.init cfg, none⟩ : Conn F H) ∧ p.conns[i]? = none := by
    intro i
    rw [conns]
    rcases Nat.lt_or_ge i p.conns.length with within | beyond
    · exact .inl (List.getElem?_append_left within)
    · have none := List.getElem?_eq_none beyond
      rw [List.getElem?_append_right beyond, none]
      cases i - p.conns.length with
      | zero => exact .inr ⟨rfl, rfl⟩
      | succ n => exact .inl rfl
  constructor
  · intro d
    funext i
    rw [gripOf, gripOf]
    rcases each i with same | ⟨new, old⟩
    · rw [same]
    · rw [new, old]
      rfl
  · intro i
    rw [logged, logged]
    rcases each i with same | ⟨new, old⟩
    · rw [same]
    · rw [new, old]
      rfl

/-- The release of a destination by connection `i`. -/
lemma release_leads {key : Bytes} {dest : Nat} (st : q.advance cfg i .release = some p') (conns : q.conns = p.conns)
    (here : p.conns[i]? = some c) (pc : c.state.pc = .releasing key dest) (on : cfg.stabling = true) :
    news p p' = [(i, .released key dest)] ∧ p'.stabling = q.stabling ∧ p'.routes = q.routes ∧
      ∀ d, gripOf p' d = Function.update (gripOf p d) i .away := by
  obtain ⟨c', here', rest⟩ := Option.bind_eq_some_iff.1 st
  obtain ⟨s, move, same⟩ := Option.bind_eq_some_iff.1 rest
  rw [conns] at here'
  cases here.symm.trans here'
  cases step_cases move with
  | @released key' dest' pc' _ =>
    cases pc.symm.trans pc'
    have moved : p'.conns = p.conns.set i ⟨State.nextCycle cfg (c.state.emit [.released key dest]), none⟩ := by
      cases same
      exact congrArg (List.set · i _) conns
    refine ⟨news_set here moved (released_turns pc).1, ?_, ?_, fun d => gripOf_set here moved d⟩
    · cases same
      rfl
    · cases same
      rfl
  | dropped _ off => exact absurd (on.symm.trans off) nofun

omit [Frame F] [ConnectionHook H F] in
/-- A step of one connection is seen as what it does. -/
lemma Seen.set (here : p.conns[i]? = some c) (conns : p'.conns = p.conns.set i c')
    (log : c'.state.cycles.flatten = c.state.cycles.flatten ++ es) : Seen p p' := by
  refine .one (news_set here conns log) fun j => ?_
  rw [logged_set here conns]
  split
  · rename_i same
    rw [same, log, logged, here]
    rfl
  · rfl

/-- What is seen of a step. -/
lemma step_seen {a : Pool.Action F} (st : Pool.step cfg p a = some p') : Seen p p' := by
  cases Pool.step_moves st with
  | kept conns =>
    have logs : ∀ i, logged p' i = logged p i := by
      intro i
      rw [logged, conns, logged]
    exact .none (news_nil logs) logs
  | accepted conns =>
    have logs := (accept_keeps conns).2
    exact .none (news_nil logs) logs
  | advanced here move conns =>
    obtain ⟨es, log, -⟩ := step_turns move
    exact .set here conns log
  | held here _ conns => exact .set here conns (List.append_nil _).symm

/-- A step moves every destination as a token is moved. -/
theorem At.step {a : Pool.Action F} {loc : Token.Loc Nat} (waits : Waits p) (here : At p d loc)
    (st : Pool.step cfg p a = some p') :
    ∃ loc', Token.Leads loc (usesOf d (news p p')) loc' ∧ At p' d loc' := by
  cases a with
  | accept =>
    have conns : p'.conns = p.conns ++ [⟨.init cfg, none⟩] := by
      cases st
      rfl
    obtain ⟨grips, logs⟩ := accept_keeps conns
    refine ⟨loc, ?_, ?_⟩
    · rw [news_nil logs]
      exact .refl loc
    · rw [At, grips]
      cases st
      exact here
  | conn i a =>
    simp only [Pool.step, Option.ite_none_right_eq_some] at st
    obtain ⟨isLocal, st⟩ := st
    refine advance_local waits st rfl ?_ ?_ here
    · cases a with
      | acquired _ => cases isLocal
      | routed _ => cases isLocal
      | _ =>
        intro same
        cases same
    · rintro dest rfl
      cases isLocal
  | pop i now =>
    simp only [Pool.step] at st
    split at st
    · rename_i key pc none
      obtain ⟨c, there, pc⟩ := pc_eq_some.1 pc
      have popped : c.popped = .none := by
        rw [State.popped, there] at none
        exact none
      obtain ⟨loc1, leads, taken⟩ := here.pop key now i
      rw [gripOf_eq there, hands_of_not popped] at taken
      split at st
      -- the connection first has to remove the key, or goes on with what it popped
      · obtain ⟨c', there', same⟩ := Option.bind_eq_some_iff.1 st
        cases there.symm.trans there'
        have moved : p'.conns = p.conns.set i ⟨c.state, some (p.stabling.pop key now).1.dest⟩ := by
          cases same
          rfl
        refine ⟨loc1, ?_, ?_⟩
        · rw [news_set there moved (List.append_nil _).symm]
          exact leads
        · rw [At, gripOf_set there moved, hands]
          simp only [Option.some.injEq]
          cases same
          exact taken
      · obtain ⟨loc', leads', there'⟩ := advance_leads (p := p) st rfl fun c' s here' _ => by
          cases there.symm.trans here'
          exact taken
        exact ⟨loc', leads.trans leads', there'⟩
    · cases st
  | remove i =>
    simp only [Pool.step] at st
    split at st
    · rename_i key dest pc some
      obtain ⟨loc1, leads, there⟩ := Token.At.lower here (p.stabling.copies_remove_le key d)
      obtain ⟨loc', leads', there'⟩ := advance_leads (p := p) st rfl fun c s here' _ => by
        have popped : c.popped = .some dest := by
          rw [State.popped, here'] at some
          exact some
        have same : gripped d c.state (.acquired dest) = gripOf p d i := by
          rw [gripOf_eq here', hands, popped, gripped]
          simp only [Option.some.injEq]
          rfl
        rw [same, Function.update_eq_self]
        exact there
      exact ⟨loc', leads.trans leads', there'⟩
    · cases st
  | route i r =>
    cases r with
    | error err => exact advance_local waits st rfl (Option.some_ne_none d).symm (fun _ same => by cases same) here
    | ok u =>
      simp only [Pool.step] at st
      split at st
      · rename_i key _ pc
        -- the router makes this destination, or another one
        by_cases same : p.routes.length = d
        · obtain ⟨leads, made⟩ := Token.At.make here (Nat.le_of_eq same) i
          have brings : (Service.Action.routed (.ok p.routes.length) : Service.Action F Nat).brings = some d :=
            congrArg some same
          obtain ⟨loc', leads', there'⟩ := advance_leads (p := p) (d := d) st rfl fun c s _ _ => by
            rw [gripped, if_pos brings]
            refine made.congr (iff_of_false id ?_)
            rw [List.length_append, List.length_singleton]
            omega
          exact ⟨loc', leads.trans leads', there'⟩
        · refine advance_local waits st rfl (fun e => same (Option.some.inj e)) (fun _ e => by cases e)
            (Token.At.congr here ?_)
          rw [List.length_append, List.length_singleton]
          omega
      · cases st
  | release i now =>
    simp only [Pool.step] at st
    split at st
    · rename_i key dest pc
      split at st
      · rename_i on
        have less := p.stabling.copies_release_le key dest now d
        by_cases same : dest = d
        · obtain ⟨c, there, pc⟩ := pc_eq_some.1 pc
          obtain ⟨seen, stabling, routes, grips⟩ := release_leads (p := p) st rfl there pc on
          have sent : gripOf p d i = .sent := by
            rw [gripOf_eq there, hands_of_not (waits.idle there (pc ▸ fun _ same => by cases same)), pc, same]
            exact if_pos rfl
          obtain ⟨leads, given⟩ := Token.At.give here sent
          rw [if_pos same] at less
          obtain ⟨loc', leads', there'⟩ := given.lower less
          refine ⟨loc', ?_, ?_⟩
          · have one : usesOf d (news p p') = [(i, .released)] := by
              rw [seen]
              show (Option.map (i, ·) (useOf d (Event.released key dest : Event F H Nat))).toList = _
              rw [useOf, if_pos same]
              rfl
            rw [one]
            exact leads.trans leads'
          · rw [At, stabling, routes, grips]
            exact there'
        · rw [if_neg same] at less
          obtain ⟨loc1, leads, there⟩ := Token.At.lower here less
          obtain ⟨loc', leads', there'⟩ :=
            advance_local waits st rfl (Option.some_ne_none d).symm (fun _ same => by cases same) there
          exact ⟨loc', leads.trans leads', there'⟩
      · exact advance_local waits st rfl (Option.some_ne_none d).symm (fun _ same => by cases same) here
    · cases st
  | reap now =>
    cases st
    obtain ⟨loc', leads, there⟩ := Token.At.lower here (p.stabling.copies_reapExpired_le now d)
    refine ⟨loc', ?_, there⟩
    rw [news_nil]
    · exact leads
    · exact fun _ => rfl

/-- Every destination is where its turns have left it. -/
structure Inv (g : State F H) : Prop where
  waits : Waits g.pool
  token : ∀ d, ∃ as loc, Run Token.step .init as ⟨loc, usesOf d g.trace⟩ ∧ At g.pool d loc

omit [Frame F] [ConnectionHook H F] in
/-- At the start no destination is made. -/
lemma Inv.init (config : StablingConfig) : Inv (State.init config : State F H) where
  waits := .init config
  token d := ⟨[], .unmade, .nil, Stabling.copies_new config d, rfl, iff_of_true (Nat.zero_le d) rfl⟩

/-- Every step keeps where each destination is, and what its history says. -/
lemma Inv.step {g g' : State F H} {a : Pool.Action F} (inv : Inv g) (st : Custody.step cfg g a = some g') :
    Inv g' := by
  obtain ⟨p, move, rfl⟩ := Option.map_eq_some_iff.1 st
  refine ⟨inv.waits.step move, fun d => ?_⟩
  obtain ⟨as, loc, run, here⟩ := inv.token d
  obtain ⟨loc', leads, there⟩ := here.step inv.waits move
  obtain ⟨bs, run'⟩ := leads (usesOf d g.trace)
  refine ⟨as ++ bs, loc', ?_, there⟩
  rw [usesOf, List.filterMap_append]
  exact run.append run'

/-- In every interleaving of any number of connections, a destination is stored once at most, and when a connection has
it nothing else does. The cycles that write to it do so in turn: each connection that has written to it releases it
before the next one writes to it, and the one that has it behind its write is the last one to have written. -/
theorem custody_of_run {config : StablingConfig} {as : List (Pool.Action F)} {g : State F H}
    (run : Run (Custody.step cfg) (State.init config) as g) (d : Nat) :
    g.pool.stabling.copies d ≤ 1 ∧
      (∀ i, gripOf g.pool d i ≠ .away → g.pool.stabling.copies d = 0 ∧ ∀ j, j ≠ i → gripOf g.pool d j = .away) ∧
      ∃ holders last, usesOf d g.trace = Token.turns holders last ∧
        (∀ i, gripOf g.pool d i = .sent → last = some i) ∧
        (0 < g.pool.stabling.copies d ∨ (∃ i, gripOf g.pool d i = .ready) → last = none) := by
  have inv : Inv g := run.invariant (fun _ _ _ inv st => inv.step st) (.init config)
  obtain ⟨bs, loc, moves, here⟩ := inv.token d
  obtain ⟨holders, last, seen, isLast⟩ := Token.InTurn.of_run moves
  obtain ⟨once, alone⟩ := Token.At.exclusive here
  exact ⟨once, alone, holders, last, seen, Token.At.last here isLast⟩

end system

section http

open Http

/-- The second of two connections writes to the destination behind the release of the first one. -/
theorem custody_of_run_shared :
    ∃ g, Run (Custody.step pooledConfig) (State.init {}) sharedActions g ∧
      usesOf 0 g.trace = [(0, .written), (0, .released), (1, .written)] ∧
      ∃ holders last, usesOf 0 g.trace = Token.turns holders last ∧
        ∀ i, gripOf g.pool 0 i = .sent → last = some i := by
  have run : Run (Custody.step pooledConfig) (State.init {}) sharedActions _ := .of_exec rfl
  obtain ⟨-, -, holders, last, seen, sent, -⟩ := custody_of_run run 0
  exact ⟨_, run, rfl, holders, last, seen, sent⟩

end http

end Custody

end Railscale
