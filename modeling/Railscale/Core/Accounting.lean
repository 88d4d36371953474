import Railscale.Core.Cycles
import Railscale.Core.Relay

/-!
# The account of the traffic

`do_connection` counts the bytes and frames of the requests cycle by cycle and adds the counters of a cycle to its
result at every exit. `Pays` says what each step does with them. The one exit that adds nothing is that of a client
which is gone: what the cycle has taken before is missing then (`complete_iff`).
-/

namespace Railscale.Service

variable {F H D : Type} [Frame F]

/-- The counters of some items. -/
def Tally (requestBytes frameCount : Nat) (is : List (ParsedData F)) : Prop :=
  requestBytes = rawLength is ∧ frameCount = (frames is).length

/-- The counters of a cycle, with some more items. -/
def Adds (c : Cycle H) (is : List (ParsedData F)) (requestBytes frameCount : Nat) : Prop :=
  requestBytes = c.requestBytes + rawLength is ∧ frameCount = c.frameCount + (frames is).length

/-- The items that the client stream gave in all cycles. -/
def allTaken (s : State F H D) : List (ParsedData F) := (s.past ++ [s.log]).flatMap taken

/-- The items that an action brings. -/
def Action.taken (a : Action F D) : List (ParsedData F) := a.items.filterMap okItem

/-- The counters of no items. -/
lemma Tally.nil : Tally 0 0 ([] : List (ParsedData F)) := ⟨rfl, rfl⟩

/-- The counters of items behind others are the sums. -/
lemma Tally.append {m n m' n' : Nat} {is js : List (ParsedData F)} (l : Tally m n is) (r : Tally m' n' js) :
    Tally (m + m') (n + n') (is ++ js) := by
  refine ⟨?_, ?_⟩
  · rw [rawLength_append, l.1, r.1]
  · rw [frames_append, List.length_append, l.2, r.2]

/-- Counters that add items are those of all items. -/
lemma Adds.tally {c : Cycle H} {is js : List (ParsedData F)} {m n : Nat} (adds : Adds c js m n)
    (tally : Tally c.requestBytes c.frameCount is) : Tally m n (is ++ js) := by
  refine ⟨?_, ?_⟩
  · rw [adds.1, tally.1, rawLength_append]
  · rw [adds.2, tally.2, frames_append, List.length_append]

/-- Counters that stay as they are add nothing. -/
lemma Adds.nothing (c : Cycle H) : Adds c ([] : List (ParsedData F)) c.requestBytes c.frameCount := ⟨rfl, rfl⟩

/-- Counting an item. -/
lemma Adds.count (c : Cycle H) (i : ParsedData F) :
    Adds c [i] (State.count i c).requestBytes (State.count i c).frameCount := by
  cases i with
  | parsed f => exact ⟨by rw [rawLength_singleton]; rfl, rfl⟩
  | passthrough bs => exact ⟨by rw [rawLength_singleton]; rfl, rfl⟩

/-! ## What a step does with the counters -/

/-- What a step within a cycle does with the counters: the cycle goes on and counts what it takes, it fails with
what it has counted, it returns without, or it ends behind the write. -/
inductive Pays (s : State F H D) (a : Action F D) (s' : State F H D) : Prop where
  | goes :
    ¬ s'.pc.Over →
    s'.total = s.total →
    s'.firstCycle = s.firstCycle →
    Adds s.cycle a.taken s'.cycle.requestBytes s'.cycle.frameCount →
    Pays s a s'
  | fails {cr err} :
    ¬ s.pc.After →
    s'.pc = .finished (.error err) →
    s'.total = s.total.accumulate cr →
    cr.routed = false →
    Adds s.cycle a.taken cr.requestBytes cr.frameCount →
    (∀ err', a = .clientItem (some (.error err')) → err'.kind = .connectionClosed → s.pc = .preRoute →
      s.firstCycle = true) →
    Pays s a s'
  | ended :
    s'.pc = .finished (.ok ()) →
    s'.total = s.total.accumulate {} →
    s.pc = .preRoute →
    a = .clientItem none →
    s.cycle.preRouteBuf = [] →
    Pays s a s'
  | closed {err} :
    s'.pc = .finished (.ok ()) →
    s'.total = s.total.accumulate {} →
    s.pc = .preRoute →
    a = .clientItem (some (.error err)) →
    err.kind = .connectionClosed →
    s.firstCycle = false →
    Pays s a s'
  | paid {n} :
    s.pc.After →
    s'.pc.Over →
    s'.total = s.total.accumulate (s.cycle.result true n) →
    (∀ key dest, s'.pc = .releasing key dest → s'.firstCycle = false) →
    Pays s a s'

section pays

variable {cfg : Config F H} {s s' : State F H D} {a : Action F D}

/-- Returning behind the write. -/
lemma Pays.returns {n : Nat} {r : Except RailscaleError Unit} (after : s.pc.After) (here : s'.pc = .finished r)
    (total : s'.total = s.total.accumulate (s.cycle.result true n)) : Pays s a s' :=
  .paid after (here ▸ trivial) total fun _ _ pc => nomatch here.symm.trans pc

/-- Failing with the counters of the cycle. -/
lemma Pays.fail {t : State F H D} (early : ¬ s.pc.After) (total : t.total = s.total)
    (adds : Adds s.cycle a.taken t.cycle.requestBytes t.cycle.frameCount)
    (open_ : ∀ err', a = .clientItem (some (.error err')) → err'.kind = .connectionClosed → s.pc = .preRoute →
      s.firstCycle = true) (err : RailscaleError) : Pays s a (t.fail cfg (t.cycle.result false 0) err) := by
  rw [State.fail_eq]
  exact .fails early rfl (congrArg (ConnectionResult.accumulate · _) total) rfl adds open_

/-- The end of the client stream in the pre-route loop, and what it does with the counters. -/
lemma Pays.endPreRoute_none (here : s.pc = .preRoute) :
    Pays s (.clientItem none) ((s.emit [.took none]).endPreRoute cfg false) := by
  rw [State.endPreRoute]
  split
  · rename_i quits
    simp only [Bool.false_or, Bool.and_eq_true, List.isEmpty_iff] at quits
    exact .ended rfl rfl here rfl quits.2
  · apply Pays.fail
    · exact here ▸ id
    · rfl
    · exact .nothing s.cycle
    · rintro _ ⟨⟩

variable [ConnectionHook H F]

/-- An item of the client in the pre-route loop, and what it does with the counters. -/
lemma Pays.onPreRoute (here : s.pc = .preRoute) (o : Item F) : Pays s (.clientItem o) (s.onPreRoute cfg o) := by
  have goes : ¬ s.pc.Over := by
    rw [here]
    exact id
  unfold State.onPreRoute
  rcases o with _ | err | i
  · exact .endPreRoute_none here
  · dsimp only
    split
    · rename_i quits
      simp only [State.emit_firstCycle, Bool.and_eq_true, Bool.not_eq_true', beq_iff_eq] at quits
      rw [State.endPreRoute, Bool.true_or]
      exact .closed rfl rfl here rfl quits.2 quits.1
    · rename_i stays
      apply Pays.fail
      · exact here ▸ id
      · rfl
      · exact .nothing s.cycle
      · intro err' same kind _
        cases same
        simp only [State.emit_firstCycle, Bool.and_eq_true, Bool.not_eq_true', beq_iff_eq, not_and] at stays
        exact Bool.of_not_eq_false fun first => stays first kind
  · dsimp only
    split
    · apply Pays.fail
      · exact here ▸ id
      · rfl
      · exact .count s.cycle i
      · rintro _ ⟨⟩
    · cases i with
      | passthrough bs => exact .goes goes rfl rfl (.count s.cycle (.passthrough bs))
      | parsed f =>
        dsimp only
        split
        · rw [State.toAcquire]
          split
          · exact .goes id rfl rfl (.count s.cycle (.parsed f))
          · exact .goes id rfl rfl (.count s.cycle (.parsed f))
        · exact .goes goes rfl rfl (.count s.cycle (.parsed f))

/-- The checks behind the join, and what they do with the counters. -/
lemma Pays.afterJoin {t : State F H D} {k : Bytes} {r : Option (Except RailscaleError D)} {b : Bool}
    (joining : s.pc = .joining k r b) (total : t.total = s.total)
    (first : t.firstCycle = s.firstCycle) (adds : Adds s.cycle a.taken t.cycle.requestBytes t.cycle.frameCount)
    (key : Bytes) (dest : Except RailscaleError D) : Pays s a (t.afterJoin cfg key dest) := by
  have later : ∀ err', a = .clientItem (some (.error err')) → err'.kind = .connectionClosed → s.pc = .preRoute →
      s.firstCycle = true := fun _ _ _ pre => nomatch joining.symm.trans pre
  have early : ¬ s.pc.After := joining ▸ id
  have joined := State.afterJoin_cases cfg t key dest
  generalize t.afterJoin cfg key dest = s' at joined ⊢
  cases joined with
  | overflow _ => exact .fail early total adds later _
  | @invalid _ err _ _ _ => exact .fail (t := t.emit _) early total adds later _
  | unrouted _ _ => exact .fail (t := t.emit _) early total adds later _
  | forwarded _ _ => exact .goes id total first adds

/-- The end of the collecting future, and what it does with the counters. -/
lemma Pays.endPostRoute {t : State F H D} {k : Bytes} {r : Option (Except RailscaleError D)} {b : Bool}
    (joining : s.pc = .joining k r b) (total : t.total = s.total)
    (first : t.firstCycle = s.firstCycle) (adds : Adds s.cycle a.taken t.cycle.requestBytes t.cycle.frameCount)
    (key : Bytes) (dest : Option (Except RailscaleError D)) : Pays s a (t.endPostRoute cfg key dest) := by
  cases dest with
  | some r => exact .afterJoin joining total first adds key r
  | none => exact .goes id total first adds

/-- An item of the client in the post-route loop, and what it does with the counters. -/
lemma Pays.onPostRoute {key : Bytes} {dest : Option (Except RailscaleError D)} (here : s.pc = .joining key dest false)
    (o : Item F) : Pays s (.clientItem o) (s.onPostRoute cfg key dest o) := by
  have goes : ¬ s.pc.Over := by
    rw [here]
    exact id
  unfold State.onPostRoute
  match o with
  | none =>
    apply Pays.endPostRoute here
    · rfl
    · rfl
    · exact .nothing s.cycle
  | some (.error err) =>
    apply Pays.endPostRoute here
    · rfl
    · rfl
    · exact .nothing s.cycle
  | some (.ok i) =>
    dsimp only
    split
    · apply Pays.endPostRoute here
      · rfl
      · rfl
      · exact .count s.cycle i
    · match i with
      | .passthrough bs => exact .goes goes rfl rfl (.count s.cycle (.passthrough bs))
      | .parsed f => exact .goes goes rfl rfl (.count s.cycle (.parsed f))

omit [ConnectionHook H F] in
/-- The end of a cycle behind its relay, and what it does with the counters. -/
lemma Pays.endCycle (after : s.pc.After) (key : Bytes) (dest : D) (n : Nat) (close : Bool) :
    Pays s a (s.endCycle key dest n close) := by
  rw [State.endCycle]
  cases close with
  | true => exact .returns after rfl rfl
  | false => exact .paid after trivial rfl fun _ _ _ => rfl

/-- A turn of the relay loop, and what it does with the counters. -/
lemma Pays.onRelay {r : Relay H D} (here : s.pc = .relaying r) (o : Item F) :
    Pays s (.responseItem o) (s.onRelay cfg r o) := by
  have after : s.pc.After := by
    rw [here]
    trivial
  unfold State.onRelay
  match o with
  | none =>
    dsimp only
    split
    · exact .goes id rfl rfl (.nothing s.cycle)
    · exact .endCycle after _ _ _ _
  | some (.error err) =>
    dsimp only
    split
    · exact .goes id rfl rfl (.nothing s.cycle)
    · exact .returns after rfl rfl
  | some (.ok i) =>
    dsimp only
    split
    · exact .goes id rfl rfl (.nothing s.cycle)
    · exact .goes id rfl rfl (.nothing s.cycle)

/-- A step within a cycle is one of these. -/
theorem step_pays (st : step cfg s a = some s') (stay : a ≠ .release) : Pays s a s' := by
  have after : ∀ {pc}, s.pc = pc → pc.After → s.pc.After := fun here pc => here ▸ pc
  cases step_cases st with
  | preRoute here => exact .onPreRoute here _
  | acquired here => exact .goes id rfl rfl (.nothing s.cycle)
  | postRoute here => exact .onPostRoute here _
  | routed here => exact .goes id rfl rfl (.nothing s.cycle)
  | joined here =>
    apply Pays.afterJoin here
    · rfl
    · rfl
    · exact .nothing s.cycle
  | wrote here =>
    rw [State.toRelay]
    split
    · exact .goes id rfl rfl (.nothing s.cycle)
    · exact .goes id rfl rfl (.nothing s.cycle)
  | writeError here => exact .returns (after here trivial) rfl rfl
  | relay here => exact .onRelay here _
  | flushed here => exact .goes id rfl rfl (.nothing s.cycle)
  | flushedLast here => exact .endCycle (after here trivial) _ _ _ _
  | flushError here => exact .returns (here.elim (after · trivial) (after · trivial)) rfl rfl
  | flushedError here => exact .returns (after here trivial) rfl rfl
  | copied here => exact .endCycle (after here trivial) _ _ _ _
  | copyError here => exact .returns (after here trivial) rfl rfl
  | released here _ => exact absurd rfl stay
  | dropped here _ => exact absurd rfl stay

/-- The counters of the next cycle. -/
lemma step_renews (st : step cfg s .release = some s') :
    (∃ key dest, s.pc = .releasing key dest) ∧ s'.total = s.total ∧ s'.firstCycle = s.firstCycle ∧
      s'.cycle = .new cfg := by
  cases step_cases st with
  | released here _ => exact ⟨⟨_, _, here⟩, rfl, rfl, rfl⟩
  | dropped here _ => exact ⟨⟨_, _, here⟩, rfl, rfl, rfl⟩

end pays

/-! ## The account of a connection -/

/-- In a cycle that is not the first, the client stream gives the items, none of which has a routing key, and then
an error of the kind `ConnectionClosed`. -/
def Abandoned (s : State F H D) (is : List (ParsedData F)) : Prop :=
  s.past ≠ [] ∧ (∃ err, takes s.log = given is ++ [some (.error err)] ∧ err.kind = .connectionClosed) ∧ ¬ Routable is

/-- The counters of a connection, place by place. -/
inductive Tallied (s : State F H D) : Prop where
  | going :
    ¬ s.pc.Over →
    Tally s.total.requestBytes s.total.frameCount (s.past.flatMap taken) →
    Tally s.cycle.requestBytes s.cycle.frameCount (taken s.log) →
    (s.firstCycle = true ↔ s.past = []) →
    Tallied s
  | releasing {key dest} :
    s.pc = .releasing key dest →
    Tally s.total.requestBytes s.total.frameCount (allTaken s) →
    s.firstCycle = false →
    Tallied s
  | returned {r} :
    s.pc = .finished r →
    Tally s.total.requestBytes s.total.frameCount (allTaken s) →
    (∀ is, ¬ Abandoned s is) →
    Tallied s
  | abandoned {r is} :
    s.pc = .finished r →
    Tally s.total.requestBytes s.total.frameCount (s.past.flatMap taken) →
    Abandoned s is →
    Tallied s

section tallied

variable {cfg : Config F H} {s s' : State F H D} {a : Action F D} {is : List (ParsedData F)}

omit [Frame F] in
/-- The items of all cycles are those of the past ones and of the current one. -/
lemma allTaken_eq (s : State F H D) : allTaken s = s.past.flatMap taken ++ taken s.log := by
  rw [allTaken, List.flatMap_append, List.flatMap_singleton]

/-- A cycle with a routing frame is not abandoned. -/
lemma Routable.not_abandoned (routable : Routable (taken s.log)) : ¬ Abandoned s is := by
  rintro ⟨-, ⟨err, took, -⟩, unrouted⟩
  rw [taken_given took trivial] at routable
  exact unrouted routable

/-- Before the routing frame only an error of the client stream can abandon a cycle. -/
lemma Abandoned.action {js : List (ParsedData F)} (abandoned : Abandoned s' js) (advances : Advances s a.items s')
    (took : takes s.log = given is) : ∃ err, a = .clientItem (some (.error err)) ∧ err.kind = .connectionClosed := by
  obtain ⟨-, ⟨err, took', kind⟩, -⟩ := abandoned
  refine ⟨err, ?_, kind⟩
  rw [advances.takes_eq, took] at took'
  cases a with
  | clientItem o =>
    obtain ⟨-, last⟩ := List.append_inj' took' rfl
    rw [List.head_eq_of_cons_eq last]
  | _ =>
    have mem : some (.error err) ∈ given is := by
      have all : given is = given js ++ [some (.error err)] := (List.append_nil _).symm.trans took'
      rw [all]
      exact List.mem_append_right _ List.mem_cons_self
    obtain ⟨i, -, same⟩ := List.mem_map.1 mem
    cases same

/-- What a step takes joins what the cycle has taken. -/
lemma Advances.taken (advances : Advances s a.items s') : taken s'.log = Service.taken s.log ++ a.taken := by
  rw [Service.taken, advances.takes_eq, List.filterMap_append]
  rfl

/-- At the start nothing is counted. -/
lemma Tallied.init : Tallied (State.init cfg : State F H D) :=
  .going id .nil .nil (iff_of_true rfl rfl)

/-- In a cycle that goes on, the counters are those of the past cycles and of the current one. -/
lemma Tallied.of_going (tallied : Tallied s) (going : ¬ s.pc.Over) :
    Tally s.total.requestBytes s.total.frameCount (s.past.flatMap Service.taken) ∧
      Tally s.cycle.requestBytes s.cycle.frameCount (Service.taken s.log) ∧ (s.firstCycle = true ↔ s.past = []) := by
  cases tallied with
  | going _ total cycle first => exact ⟨total, cycle, first⟩
  | releasing here => exact absurd (here ▸ trivial) going
  | returned here => exact absurd (here ▸ trivial) going
  | abandoned here => exact absurd (here ▸ trivial) going

variable [ConnectionHook H F]

/-- In the pre-route loop the stream has given items without a routing key, which are the buffer. -/
lemma Inv.preRoute (inv : Inv cfg s) (here : s.pc = .preRoute) :
    ∃ is, takes s.log = given is ∧ s.cycle.preRouteBuf = is.map (ParsedData.output cfg.process) ∧ ¬ Routable is := by
  cases inv.running with
  | @preRoute pre _ coll noRouting =>
    refine ⟨pre, ?_, coll.preBuf, ?_⟩
    · rw [coll.takes_eq, List.append_nil, List.append_nil]
    · rintro ⟨f, mem, key⟩
      rw [noRouting f mem] at key
      cases key
  | acquiring pc => cases here.symm.trans pc
  | joining pc => cases here.symm.trans pc
  | collected pc => cases here.symm.trans pc
  | after pc => exact (here ▸ pc : (Pc.preRoute : Pc H D).After).elim

omit [Frame F] [ConnectionHook H F] in
/-- Items that the stream gave without an end or an error. -/
lemma taken_of_takes {log : List (Event F H D)} (took : takes log = given is) : Service.taken log = is := by
  rw [Service.taken, took, filterMap_given]

/-- A step within a cycle keeps the account. -/
lemma Tallied.stays (tallied : Tallied s) (inv : Inv cfg s) (routing : RoutingFrames s)
    (st : Service.step cfg s a = some s') (stay : a ≠ .release) : Tallied s' := by
  have going : ¬ s.pc.Over := fun isOver => stay (step_over isOver st)
  obtain ⟨total, cycle, first⟩ := tallied.of_going going
  have advances := step_advances st stay
  -- behind the pre-route loop the cycle has its routing frame
  have later : s.pc ≠ .preRoute → ∀ is, ¬ Abandoned s' is := by
    intro not is
    have routed : s.pc.routed = true := by
      cases pc : s.pc with
      | preRoute => exact absurd pc not
      | finished r => exact absurd (pc ▸ trivial) going
      | _ => rfl
    refine Routable.not_abandoned ?_
    rw [advances.taken]
    exact (routing.current routed).left _
  have all : allTaken s' = s.past.flatMap Service.taken ++ (Service.taken s.log ++ a.taken) := by
    rw [allTaken_eq, advances.past, advances.taken]
  cases step_pays st stay with
  | goes going' total' first' adds =>
    refine .going going' ?_ ?_ ?_
    · rw [total', advances.past]
      exact total
    · rw [advances.taken]
      exact adds.tally cycle
    · rw [first', advances.past]
      exact first
  | fails _ here total' _ adds open_ =>
    refine .returned here ?_ fun is abandoned => ?_
    · rw [total', all]
      exact total.append (adds.tally cycle)
    · by_cases pre : s.pc = .preRoute
      · obtain ⟨js, took, -, -⟩ := inv.preRoute pre
        obtain ⟨err', rfl, kind⟩ := abandoned.action advances took
        exact abandoned.1 (advances.past.trans (first.1 (open_ err' rfl kind pre)))
      · exact later pre is abandoned
  | ended here total' pre none empty =>
    obtain ⟨js, took, buf, -⟩ := inv.preRoute pre
    have nothing : Service.taken s.log = [] := by
      rw [taken_of_takes took]
      exact List.map_eq_nil_iff.1 (buf.symm.trans empty)
    subst none
    refine .returned here ?_ fun is abandoned => ?_
    · rw [total', all, nothing]
      exact total.append .nil
    · obtain ⟨err, same, -⟩ := abandoned.action advances took
      cases same
  | @closed err here total' pre error kind first' =>
    obtain ⟨js, took, -, unrouted⟩ := inv.preRoute pre
    subst error
    refine .abandoned here ?_ (⟨?_, ⟨err, ?_, kind⟩, unrouted⟩ : Abandoned s' js)
    · rw [total', advances.past]
      exact total
    · rw [advances.past]
      exact fun none => Bool.noConfusion (first'.symm.trans (first.2 none))
    · rw [advances.takes_eq, took]
      rfl
  | paid after isOver total' first' =>
    have not : s.pc ≠ .preRoute := by
      intro pre
      rw [pre] at after
      exact after
    have nothing : a.taken = [] := by
      cases a with
      | clientItem o => exact absurd after (early_of_clientItem st)
      | _ => rfl
    have tally : Tally s'.total.requestBytes s'.total.frameCount (allTaken s') := by
      rw [total', all, nothing, List.append_nil]
      exact total.append cycle
    cases pc : s'.pc with
    | releasing key dest => exact .releasing pc tally (first' key dest pc)
    | finished r => exact .returned pc tally (later not)
    | _ =>
      rw [pc] at isOver
      exact isOver.elim

/-- The next cycle begins with empty counters. -/
lemma Tallied.renews (tallied : Tallied s) (st : Service.step cfg s .release = some s') : Tallied s' := by
  obtain ⟨⟨key, dest, here⟩, total, first, cycle⟩ := step_renews st
  obtain ⟨-, pc, log, es, untaken, past⟩ := step_release st
  have all : s'.past.flatMap Service.taken = allTaken s := by
    rw [past, List.flatMap_append, List.flatMap_singleton, taken_untaken untaken, allTaken_eq]
  cases tallied with
  | going going => exact absurd (here ▸ trivial) going
  | releasing _ tally first' =>
    refine .going (pc ▸ id) ?_ ?_ ?_
    · rw [total, all]
      exact tally
    · rw [cycle, log]
      exact .nil
    · rw [first, first', past]
      exact iff_of_false nofun (List.append_ne_nil_of_right_ne_nil _ (List.cons_ne_nil _ _))
  | returned pc => cases here.symm.trans pc
  | abandoned pc => cases here.symm.trans pc

/-- What every run keeps. -/
structure Accounted (cfg : Config F H) (s : State F H D) : Prop where
  inv : Inv cfg s
  routing : RoutingFrames s
  tallied : Tallied s

/-- What every run keeps holds at the start. -/
lemma Accounted.init : Accounted cfg (State.init cfg : State F H D) := ⟨.init cfg, ⟨nofun, nofun⟩, .init⟩

/-- Every step keeps it. -/
lemma Accounted.step (acc : Accounted cfg s) (st : Service.step cfg s a = some s') : Accounted cfg s' := by
  refine ⟨acc.inv.step st, acc.routing.step st, ?_⟩
  by_cases release : a = .release
  · subst release
    exact acc.tallied.renews st
  · exact acc.tallied.stays acc.inv acc.routing st release

omit [ConnectionHook H F] in
/-- Nothing is counted of empty passthrough items only. -/
lemma tally_zero_iff : Tally 0 0 is ↔ ∀ i ∈ is, i = .passthrough [] := by
  induction is with
  | nil => exact iff_of_true .nil nofun
  | cons i is ih =>
    rw [List.forall_mem_cons, ← ih]
    cases i with
    | parsed f => exact iff_of_false (fun tally => nomatch tally.2) (fun both => nomatch both.1)
    | passthrough bs =>
      have raw : rawLength (.passthrough bs :: is) = bs.length + rawLength is := List.length_append
      rw [Tally, Tally, raw, eq_comm, Nat.add_eq_zero_iff, List.length_eq_zero_iff, and_assoc]
      refine and_congr ⟨congrArg _, ParsedData.passthrough.inj⟩ (and_congr_left' eq_comm)

/-- The result of a connection that has returned accounts for everything that was taken from the client stream,
unless it has returned on an error of the kind `ConnectionClosed`, in a cycle that is not the first and has no routing
frame: then what that cycle has taken must be nothing. -/
theorem complete_iff {as : List (Action F D)} {r : Except RailscaleError Unit}
    (run : Run (step cfg) (State.init cfg) as s) (returned : s.pc = .finished r) :
    (s.total.requestBytes = rawLength (allTaken s) ∧ s.total.frameCount = (frames (allTaken s)).length) ↔
      ∀ is, Abandoned s is → ∀ i ∈ is, i = .passthrough [] := by
  have acc : Accounted cfg s := run.invariant (fun _ _ _ acc st => acc.step st) .init
  cases acc.tallied with
  | going going => exact absurd (returned ▸ trivial) going
  | releasing here => cases returned.symm.trans here
  | returned _ tally not => exact iff_of_true tally fun is abandoned => absurd abandoned (not is)
  | @abandoned _ is _ total abandoned =>
    have taken_eq : ∀ js, Abandoned s js → Service.taken s.log = js := by
      rintro js ⟨-, ⟨err, took, -⟩, -⟩
      exact taken_given took trivial
    have missing : (s.total.requestBytes = rawLength (allTaken s) ∧ s.total.frameCount = (frames (allTaken s)).length) ↔
        Tally 0 0 is := by
      rw [allTaken_eq, taken_eq is abandoned, rawLength_append, frames_append, List.length_append, total.1, total.2,
        Nat.left_eq_add, Nat.left_eq_add, Tally, eq_comm, eq_comm (a := 0) (b := (frames is).length)]
    rw [missing, tally_zero_iff]
    constructor
    · intro nothing js abandoned'
      rw [← taken_eq js abandoned', taken_eq is abandoned]
      exact nothing
    · intro all
      exact all is abandoned

end tallied

section http

open Http

/-- The error of a parser whose client is gone. -/
def clientGone : Item HttpFrame := some (.error (.ofKind .connectionClosed))

/-- A request and its response, and then the items of the next cycle up to the error. -/
def goneActions (is : List (ParsedData HttpFrame)) : List (Action HttpFrame Nat) :=
  httpActions ++ [.wrote (.ok ()), .responseItem none, .release] ++
    (given is).map .clientItem ++ [.clientItem clientGone]

/-- A client that is gone between two requests. -/
theorem complete_iff_gone :
    ∃ s : State HttpFrame HttpDeriverHook Nat, Run (step relayConfig) (State.init relayConfig) (goneActions []) s ∧
      s.pc = .finished (.ok ()) ∧ s.total.requestBytes = 39 ∧ s.total.frameCount = 2 ∧
      s.total.requestBytes = rawLength (allTaken s) ∧ s.total.frameCount = (frames (allTaken s)).length := by
  have run : Run (step relayConfig) (State.init relayConfig) (goneActions []) _ := .of_exec rfl
  refine ⟨_, run, rfl, by decide +kernel, by decide +kernel, (complete_iff run rfl).2 ?_⟩
  rintro is ⟨-, ⟨err, took, -⟩, -⟩
  have same : [] ++ [clientGone] = given is ++ [some (.error err)] := took
  obtain ⟨none, -⟩ := List.append_inj' same rfl
  rw [List.map_eq_nil_iff.1 none.symm]
  nofun

/-- A client that is gone behind the first bytes of its next request: they are not accounted for. -/
theorem not_complete_gone :
    ∃ s : State HttpFrame HttpDeriverHook Nat,
      Run (step relayConfig) (State.init relayConfig) (goneActions [.passthrough (Bytes.lit "x")]) s ∧
      s.pc = .finished (.ok ()) ∧
      ¬ (s.total.requestBytes = rawLength (allTaken s) ∧ s.total.frameCount = (frames (allTaken s)).length) := by
  have run : Run (step relayConfig) (State.init relayConfig) (goneActions [.passthrough (Bytes.lit "x")]) _ :=
    .of_exec rfl
  exact ⟨_, run, rfl, by decide +kernel⟩

end http

end Railscale.Service
