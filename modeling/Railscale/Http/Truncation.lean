import Railscale.Http.Client
import Railscale.Core.Steps

/-!
# Truncated heads

What `do_connection` makes of a request whose head does not parse to its end: the stream of the client
ends or fails before the empty line. Before the routing frame that is an error of the connection, unless
a later cycle finds the end of the stream. Behind the routing frame it is the end of the request, which
goes on as if its head were whole.

`Caught` is what saves a cycle from it, and `Outcome` holds of the running cycle once its head has
failed.
-/

namespace Railscale

namespace Service

variable {F H D : Type}

/-- The router has answered with an error. -/
def Refused (log : List (Event F H D)) : Prop := ∃ key err, Event.routed key (.error err) ∈ log

/-- The client stream has given an error. -/
def Erred (log : List (Event F H D)) : Prop := ∃ err, some (.error err) ∈ takes log

/-- The cycle has ended the connection with an error, and written nothing. -/
structure Rejected (s : State F H D) : Prop where
  silent : writes s.log = []
  error : ∃ err, s.pc = .finished (.error err)

/-- Events without an error of the router. -/
lemma not_refused_append {l es : List (Event F H D)} (h : ∀ key err, Event.routed key (.error err) ∉ es) :
    Refused (l ++ es) ↔ Refused l := by
  constructor
  · rintro ⟨key, err, mem⟩
    rcases List.mem_append.1 mem with mem | mem
    · exact ⟨key, err, mem⟩
    · exact absurd mem (h key err)
  · rintro ⟨key, err, mem⟩
    exact ⟨key, err, List.mem_append_left _ mem⟩

variable [Frame F] [ConnectionHook H F]

/-- What saves a cycle whose head has failed. Without a routing frame: an error of the stream, the
first cycle, or items that the cycle has taken before. With a routing frame: a hook that rejects what it
was shown, or a router that finds no destination. -/
def Caught (cfg : Config F H) (s : State F H D) : Prop :=
  match (frames (taken s.log)).findSome? Frame.routingKey with
  | none => Erred s.log ∨ s.firstCycle = true ∨ taken s.log ≠ []
  | some _ =>
    (∃ err, ConnectionHook.validate ((frames (taken s.log)).foldl ConnectionHook.onFrame cfg.hookFactory) =
      .error err) ∨ Refused s.log

/-- What becomes of a cycle whose head has failed: it waits for the router, it has returned without a
write, or it has written. -/
inductive Outcome (cfg : Config F H) (s : State F H D) : Prop where
  | waiting {key pre f post stop} :
    s.pc = .joining key none true →
    Collecting cfg s (pre ++ [.parsed f]) post [stop] →
    Request cfg pre f post →
    Stop stop →
    ¬ Refused s.log →
    Outcome cfg s
  | returned {r} :
    s.pc = .finished r →
    writes s.log = [] →
    ((∃ err, r = .error err) ↔ Caught cfg s) →
    Outcome cfg s
  | forwarded :
    s.pc.After →
    writes s.log ≠ [] →
    (frames (taken s.log)).findSome? Frame.routingKey ≠ none →
    ¬ Caught cfg s →
    Outcome cfg s

section outcome

variable {cfg : Config F H} {s s' : State F H D} {is : List (ParsedData F)}

/-- Without a routing frame, a cycle is caught when the stream failed, when it is the first one, or when something was
taken. -/
lemma caught_unrouted (log : taken s.log = is) (key : (frames is).findSome? Frame.routingKey = none) :
    Caught cfg s ↔ Erred s.log ∨ s.firstCycle = true ∨ is ≠ [] := by
  rw [Caught, log, key]

/-- With a routing frame, a cycle is caught when the hook refuses the head or the router has failed. -/
lemma caught_routed (log : taken s.log = is) (key : (frames is).findSome? Frame.routingKey ≠ none) :
    Caught cfg s ↔
      (∃ err, ConnectionHook.validate ((frames is).foldl ConnectionHook.onFrame cfg.hookFactory) =
        .error err) ∨ Refused s.log := by
  obtain ⟨k, hk⟩ := Option.ne_none_iff_exists'.1 key
  rw [Caught, log, hk]

/-- Logging neither an item nor an answer of the router changes nothing. -/
lemma caught_append {es : List (Event F H D)} (log : s'.log = s.log ++ es) (untaken : takes es = [])
    (unanswered : ∀ key err, Event.routed key (.error err) ∉ es)
    (first : s'.firstCycle = s.firstCycle ∨ (frames (taken s.log)).findSome? Frame.routingKey ≠ none) :
    Caught cfg s' ↔ Caught cfg s := by
  have takes_eq : takes s'.log = takes s.log := by rw [log, takes_append, untaken, List.append_nil]
  have taken_eq : taken s'.log = taken s.log := by rw [log, taken_untaken untaken]
  have refused : Refused s'.log ↔ Refused s.log := log ▸ not_refused_append unanswered
  cases key : (frames (taken s.log)).findSome? Frame.routingKey with
  | none =>
    have first := first.resolve_right fun h => h key
    rw [caught_unrouted taken_eq key, caught_unrouted rfl key, Erred, takes_eq, first]
    rfl
  | some k =>
    have key : (frames (taken s.log)).findSome? Frame.routingKey ≠ none := by rw [key]; nofun
    rw [caught_routed taken_eq key, caught_routed rfl key, refused]

/-- Behind the write the outcome stays. -/
lemma Outcome.late {es : List (Event F H D)} (h : Outcome cfg s) (pc : s'.pc.After)
    (written : writes s.log ≠ []) (log : s'.log = s.log ++ es) (late : ∀ e ∈ es, e.Late) :
    Outcome cfg s' := by
  cases h with
  | waiting _ coll _ _ _ => exact absurd coll.writes_eq written
  | returned _ none _ => exact absurd none written
  | forwarded _ _ key not =>
    obtain ⟨untaken, -, -⟩ := quiet_nil fun e he => (late e he).quiet
    have same : taken s'.log = taken s.log := by rw [log, taken_untaken untaken]
    refine .forwarded pc ?_ (same ▸ key) ?_
    · rw [log, writes_append]
      exact fun none => written (List.append_eq_nil_iff.1 none).1
    · rw [caught_append log untaken (fun _ _ mem => late _ mem) (.inr key)]
      exact not

omit [Frame F] [ConnectionHook H F] in
/-- An error response is no answer of the router. -/
lemma routed_notMem_errorEvents (err : RailscaleError) (key : Bytes) (r : Except RailscaleError D) :
    Event.routed key r ∉ (State.errorEvents cfg err : List (Event F H D)) := by
  rw [State.errorEvents]
  cases cfg.errorResponder with
  | none => exact List.not_mem_nil
  | some responder =>
    intro mem
    cases List.mem_singleton.1 mem

omit [Frame F] [ConnectionHook H F] in
/-- The write is no error of the router. -/
lemma routed_notMem_forwardEvents (s : State F H D) (d : D) (key : Bytes) (err : RailscaleError) :
    Event.routed key (.error err) ∉ s.forwardEvents d := by
  rw [State.forwardEvents, State.openEvents]
  cases s.cycle.needRoute <;> simp

/-- Failing, with nothing written. -/
lemma Outcome.fail (silent : writes s.log = []) (caught : Caught cfg s) (cr : ConnectionResult)
    (err : RailscaleError) : Outcome cfg (s.fail cfg cr err) := by
  rw [State.fail_eq]
  obtain ⟨untaken, -, unwritten⟩ := quiet_nil (quiet_errorEvents err)
  have same : Caught cfg ((s.emit (State.errorEvents cfg err)).finish cr (.error err)) ↔ Caught cfg s :=
    caught_append rfl untaken (fun key err' => routed_notMem_errorEvents err key (.error err')) (.inl rfl)
  refine .returned rfl ?_ ⟨fun _ => same.2 caught, fun _ => ⟨err, rfl⟩⟩
  rw [State.finish, State.emit_log, writes_append, silent, unwritten]
  rfl

/-- The end of the stream before the routing frame. -/
lemma Outcome.endPreRoute (silent : writes s.log = []) (preBuf : s.cycle.preRouteBuf = [] ↔ is = [])
    (caught : Caught cfg s ↔ s.firstCycle = true ∨ is ≠ []) : Outcome cfg (s.endPreRoute cfg false) := by
  have quits : (false || (!s.firstCycle && s.cycle.preRouteBuf.isEmpty)) = true ↔ ¬ Caught cfg s := by
    simp [caught, preBuf]
  rw [State.endPreRoute]
  split
  · rename_i h
    refine .returned rfl silent ⟨?_, fun c => absurd c (quits.1 h)⟩
    rintro ⟨err, ⟨⟩⟩
  · rename_i h
    exact .fail silent (not_not.1 fun c => h (quits.2 c)) _ _

/-- A head that fails before the routing frame. -/
lemma Outcome.onPreRoute {pre : List (ParsedData F)} (coll : Collecting cfg s pre [] [])
    (noRouting : ∀ g ∈ frames pre, Frame.routingKey g = none) {o : Item F} (stop : Stop o)
    (open_ : ∀ err, o = some (.error err) → err.kind ≠ .connectionClosed) :
    Outcome cfg (s.onPreRoute cfg o) := by
  have takes_eq : takes (s.log ++ [.took o]) = given pre ++ [o] := by
    rw [takes_append, coll.takes_eq, List.append_nil, List.append_nil]
    rfl
  have taken_eq : taken (s.emit [.took o]).log = pre := taken_given takes_eq stop
  have key : (frames pre).findSome? Frame.routingKey = none := List.findSome?_eq_none_iff.2 noRouting
  have silent : writes (s.emit [.took o]).log = [] := by
    rw [State.emit_log, writes_append, coll.writes_eq]
    rfl
  have caught : Caught cfg (s.emit [.took o]) ↔ _ := caught_unrouted taken_eq key
  unfold State.onPreRoute
  match o with
  | some (.error err) =>
    have kind : (err.kind == .connectionClosed) = false := beq_eq_false_iff_ne.2 (open_ err rfl)
    simp only [kind, Bool.and_false, Bool.false_eq_true, if_false]
    refine .fail silent (caught.2 (.inl ⟨err, ?_⟩)) _ _
    rw [State.emit_log, takes_eq]
    exact List.mem_append_right _ List.mem_cons_self
  | none =>
    have unerred : ¬ Erred (s.emit [.took none]).log := by
      rintro ⟨err, mem⟩
      rw [State.emit_log, takes_eq] at mem
      rcases List.mem_append.1 mem with mem | mem
      · obtain ⟨i, -, e⟩ := List.mem_map.1 mem
        cases e
      · cases List.mem_singleton.1 mem
    have preBuf : (s.emit [.took none]).cycle.preRouteBuf = [] ↔ pre = [] := by
      rw [State.emit_cycle, coll.preBuf, List.map_eq_nil_iff]
    exact .endPreRoute silent preBuf (caught.trans (or_iff_right unerred))

/-- The code behind the two futures, when the head has failed behind the routing frame. -/
lemma Outcome.afterJoin {key : Bytes} {pre : List (ParsedData F)} {f : F} {post : List (ParsedData F)}
    {stop : Item F} {r : Except RailscaleError D}
    (coll : Collecting cfg s (pre ++ [.parsed f]) post [stop]) (request : Request cfg pre f post)
    (stops : Stop stop) (refused : Refused s.log ↔ ∃ err, r = .error err) :
    Outcome cfg (s.afterJoin cfg key r) := by
  have taken_eq := taken_given coll.takes_eq stops
  have routed : (frames (pre ++ [.parsed f] ++ post)).findSome? Frame.routingKey ≠ none := by
    intro none
    have unkeyed := List.findSome?_eq_none_iff.1 none f (by simp [frames, ParsedData.frame?])
    have keyed := request.routing
    rw [unkeyed] at keyed
    cases keyed
  -- what is logged from here on is neither an item nor an answer of the router
  have caught : ∀ (s' : State F H D) es, s'.log = s.log ++ es → takes es = [] →
      (∀ key err, Event.routed key (.error err) ∉ es) →
      (Caught cfg s' ↔ (∃ err, ConnectionHook.validate s.cycle.hook = .error err) ∨ ∃ err, r = .error err) := by
    intro s' es log untaken unanswered
    have same : taken s'.log = pre ++ [.parsed f] ++ post := by
      rw [log, taken_untaken untaken, taken_eq]
    rw [caught_routed same routed, coll.hook, log, not_refused_append unanswered, refused]
  have silent : ∀ v, writes (s.emit [.validated s.cycle.hook v]).log = [] := by
    intro v
    rw [State.emit_log, writes_append, coll.writes_eq]
    rfl
  have joined := State.afterJoin_cases cfg s key r
  generalize s.afterJoin cfg key r = s' at joined ⊢
  cases joined with
  | overflow excess =>
    have within := request.postLimit
    rw [← coll.postCumulative] at within
    exact absurd excess (Nat.not_lt_of_le within)
  | invalid _ invalid =>
    refine .fail (silent _) ((caught _ _ rfl rfl ?_).2 (.inl ⟨_, invalid⟩)) _ _
    exact fun _ _ mem => nomatch List.mem_singleton.1 mem
  | unrouted _ _ =>
    refine .fail (silent _) ((caught _ _ rfl rfl ?_).2 (.inr ⟨_, rfl⟩)) _ _
    exact fun _ _ mem => nomatch List.mem_singleton.1 mem
  | @forwarded d _ valid =>
    refine .forwarded trivial ?_ ?_ ?_
    · show writes (s.log ++ s.forwardEvents d) ≠ []
      rw [writes_append, writes_forwardEvents]
      exact fun none => nomatch (List.append_eq_nil_iff.1 none).2
    · show (frames (taken (s.log ++ s.forwardEvents d))).findSome? Frame.routingKey ≠ none
      rw [taken_untaken (takes_forwardEvents s d), taken_eq]
      exact routed
    · rw [caught _ _ rfl (takes_forwardEvents s d) (routed_notMem_forwardEvents s d)]
      rintro (⟨err, invalid⟩ | ⟨err, e⟩)
      · rw [valid] at invalid
        cases invalid
      · cases e

/-- A head that fails behind the routing frame. -/
lemma Outcome.endPostRoute {key : Bytes} {pre : List (ParsedData F)} {f : F}
    {post : List (ParsedData F)} {stop : Item F} {dest : Option (Except RailscaleError D)}
    (coll : Collecting cfg s (pre ++ [.parsed f]) post [stop]) (request : Request cfg pre f post)
    (stops : Stop stop) (refused : Refused s.log ↔ ∃ err, dest = some (.error err)) :
    Outcome cfg (s.endPostRoute cfg key dest) := by
  cases dest with
  | some r => exact .afterJoin coll request stops (refused.trans (by simp))
  | none => exact .waiting rfl { coll with } request stops fun h => nomatch refused.1 h

end outcome

/-! ## The answer of the router -/

/-- The place holds an error of the router. -/
def Pc.Refused : Pc H D → Prop
  | .joining _ (some (.error _)) _ => True
  | _ => False

/-- Before the write the connection knows what the router has answered. -/
def Answered (s : State F H D) : Prop := ¬ s.pc.After → (Service.Refused s.log ↔ s.pc.Refused)

section answered

variable {cfg : Config F H} {s s' : State F H D}

omit [Frame F] [ConnectionHook H F] in
/-- Behind the write nothing is said. -/
lemma Answered.after (h : s.pc.After) : Answered s := fun not => absurd h not

omit [Frame F] [ConnectionHook H F] in
/-- Logging no answer keeps it. -/
lemma Answered.append {es : List (Event F H D)} (known : Refused s.log ↔ s'.pc.Refused)
    (log : s'.log = s.log ++ es) (unanswered : ∀ key err, Event.routed key (.error err) ∉ es) :
    Answered s' := by
  intro _
  rw [log, not_refused_append unanswered]
  exact known

omit [Frame F] [ConnectionHook H F] in
/-- An item of the client is no error of the router. -/
lemma routed_notMem_itemEvents (i : ParsedData F) (key : Bytes) (err : RailscaleError) :
    Event.routed key (.error err) ∉ (State.itemEvents i : List (Event F H D)) := by
  cases i <;> simp [State.itemEvents, ParsedData.frame?]

omit [ConnectionHook H F] in
/-- A step up to the write keeps it: only an answer of the router can be a refusal. -/
lemma Early.knows {a : Action F D} {es : List (Event F H D)} (early : Early cfg s a es s'.pc)
    (log : s'.log = s.log ++ es) (known : Refused s.log ↔ s.pc.Refused) : Answered s' := by
  generalize here' : s'.pc = pc' at early
  have append {pc : Pc H D} (here : s.pc = pc) (same : pc.Refused ↔ pc'.Refused)
      (unanswered : ∀ key err, Event.routed key (.error err) ∉ es) : Answered s' :=
    .append (here' ▸ (here ▸ known).trans same) log unanswered
  have after (place : pc'.After) : Answered s' := .after (here' ▸ place)
  cases early with
  | skipped here _ => exact append here .rfl (routed_notMem_itemEvents _)
  | found here _ place =>
    rcases place with rfl | rfl
    · exact append here .rfl (routed_notMem_itemEvents (.parsed _))
    · exact append here .rfl (routed_notMem_itemEvents (.parsed _))
  | @acquired key dest here =>
    refine append here ?_ (by simp)
    cases dest with
    | none => exact .rfl
    | some d => exact .rfl
  | @answered key r here =>
    cases r with
    | ok d => exact append here .rfl (by simp)
    | error err =>
      intro _
      rw [log, here']
      exact iff_of_true ⟨key, err, List.mem_append_right _ List.mem_cons_self⟩ trivial
  | kept here => exact append here .rfl (routed_notMem_itemEvents _)
  | collected here => exact append here .rfl (by simp)
  | forwarded _ _ => exact after trivial
  | failed _ _ => exact after trivial
  | returned _ => exact after trivial

/-- A step keeps it. -/
lemma Answered.step {a : Action F D} (h : Answered s) (st : Service.step cfg s a = some s') :
    Answered s' := by
  by_cases after : s.pc.After
  · cases step_after after st with
    | stay _ pc' _ _ _ => exact .after pc'
    | next _ _ pc' _ log _ =>
      intro _
      rw [pc', log]
      exact iff_of_false (fun ⟨_, _, mem⟩ => nomatch mem) id
  · obtain ⟨-, es, log, early⟩ := step_early after st
    exact early.knows log (h after)

end answered

/-- A step of the connection, but for the release, keeps the outcome. -/
lemma Outcome.step {cfg : Config F H} {s s' : State F H D}
    {a : Action F D} (h : Outcome cfg s) (st : Service.step cfg s a = some s') (stay : a ≠ .release) :
    Outcome cfg s' := by
  cases h with
  | returned pc _ _ => exact absurd st (not_step_finished pc)
  | forwarded after written key not =>
    cases step_after after st with
    | stay late pc' log _ _ => exact Outcome.late (.forwarded after written key not) pc' written log late
    | next _ release => exact absurd release stay
  | waiting pc coll request stops unrefused =>
    cases step_cases st with
    | @joined key' r here =>
      refine .afterJoin (coll.quiet (quiet_singleton (e := .routed key' r) trivial) rfl rfl rfl rfl rfl rfl)
        request stops ?_
      constructor
      · rintro ⟨k, err, mem⟩
        rcases List.mem_append.1 mem with mem | mem
        · exact absurd ⟨k, err, mem⟩ unrefused
        · cases List.mem_singleton.1 mem
          exact ⟨err, rfl⟩
      · rintro ⟨err, rfl⟩
        exact ⟨key', err, List.mem_append_right _ List.mem_cons_self⟩
    | flushError here => simp_all
    | _ => simp_all

/-- The head of the cycle fails. -/
lemma Outcome.of_stop {cfg : Config F H} {s s' : State F H D} {o : Item F} (inv : Inv cfg s)
    (answered : Answered s) (stop : Stop o)
    (open_ : ∀ err, o = some (.error err) → err.kind ≠ .connectionClosed)
    (st : Service.step cfg s (.clientItem o) = some s') : Outcome cfg s' := by
  cases step_cases st with
  | preRoute here =>
    cases inv.running with
    | preRoute pc coll noRouting => exact .onPreRoute coll noRouting stop open_
    | acquiring pc => cases here.symm.trans pc
    | joining pc => cases here.symm.trans pc
    | collected pc => cases here.symm.trans pc
    | after pc => exact (here ▸ pc : (Pc.preRoute : Pc H D).After).elim
  | @postRoute key dest _ here =>
    cases inv.running with
    | preRoute pc => cases here.symm.trans pc
    | acquiring pc => cases here.symm.trans pc
    | @joining key' dest' pre f post pc coll request =>
      have known := answered (by rw [here]; exact id)
      rw [here] at known
      have refused : Refused (s.log ++ [.took o]) ↔ ∃ err, dest = some (.error err) := by
        rw [not_refused_append (by simp), known]
        match dest with
        | none => exact iff_of_false id nofun
        | some (.ok d) => exact iff_of_false id nofun
        | some (.error err) => exact iff_of_true trivial ⟨err, rfl⟩
      have turn := State.onPostRoute_cases cfg s key dest o
      generalize s.onPostRoute cfg key dest o = s' at turn ⊢
      cases turn with
      | stopped _ => exact .endPostRoute (coll.stopped o) request stop refused
      | overflow => exact stop.elim
      | kept => exact stop.elim
    | collected pc => cases here.symm.trans pc
    | after pc => exact (here ▸ pc : (Pc.joining key dest false : Pc H D).After).elim

end Service

namespace Http.Client

open Service HttpFrameStream

variable {H D : Type} [ConnectionHook H HttpFrame] {cfg : Config HttpFrame H} {s s' : State H D}

/-- A cycle whose head has failed has one of the outcomes. -/
structure Inv (cfg : Config HttpFrame H) (s : State H D) : Prop where
  conn : Service.Inv cfg s.conn
  answered : Answered s.conn
  outcome : s.failed = true → Outcome cfg s.conn

/-- At the start no head has failed. -/
lemma Inv.init (matchers : List (Bytes × Bytes)) (reads : List (ReadResult IoError)) :
    Inv cfg (State.init cfg matchers reads : State H D) :=
  ⟨.init cfg, fun _ => iff_of_false (fun ⟨_, _, mem⟩ => nomatch mem) id, nofun⟩

/-- A place with an outcome does not await the client. -/
lemma not_awaits (h : Outcome cfg s.conn) :
    awaitsClient s.conn.pc = false := by
  cases h with
  | waiting pc => rw [pc]; rfl
  | returned pc => rw [pc]; rfl
  | forwarded after =>
    cases hpc : s.conn.pc with
    | preRoute => rw [hpc] at after; exact after.elim
    | joining => rw [hpc] at after; exact after.elim
    | _ => rfl

/-- What the stream stops with is neither an item nor the error that a later cycle lets pass. -/
lemma stop_ofIo {o : Option HttpItem} (h : stops o = true) :
    Stop (Item.ofIo o) ∧ ∀ err, Item.ofIo o = some (.error err) → err.kind ≠ .connectionClosed := by
  match o with
  | none => exact ⟨trivial, nofun⟩
  | some (.ok _) => cases h
  | some (.error e) =>
    refine ⟨trivial, fun err he => ?_⟩
    cases he
    exact nofun

/-- A step keeps the invariant. -/
theorem Inv.step {a : Action D} (inv : Inv cfg s) (st : Client.step cfg s a = some s') : Inv cfg s' := by
  cases step_cases st with
  | waits => exact ⟨inv.conn, inv.answered, inv.outcome⟩
  | @takes o client conn awaits turn move =>
    refine ⟨inv.conn.step move, inv.answered.step move, fun failed => ?_⟩
    rcases Bool.or_eq_true_iff.1 failed with failed | stop
    · have not := not_awaits (inv.outcome failed)
      rw [awaits] at not
      cases not
    · obtain ⟨stop, open_⟩ := stop_ofIo (Bool.and_eq_true_iff.1 stop).1
      exact .of_stop inv.conn inv.answered stop open_ move
  | @moves a conn _ move =>
    refine ⟨?_, ?_, fun failed => ?_⟩
    · rw [move_conn]
      exact inv.conn.step move
    · rw [move_conn]
      exact inv.answered.step move
    · by_cases release : a = .release
      · subst release
        cases failed
      · rw [move_of_ne release] at failed ⊢
        exact (inv.outcome failed).step move release

/-- In every state of every run in which the head of the running cycle has failed, the connection waits
for the router and has written nothing, or it has returned an error and written nothing if and only if
the failure was caught. -/
theorem rejected_iff_caught {matchers : List (Bytes × Bytes)} {reads : List (ReadResult IoError)}
    {as : List (Action D)} (run : Run (Client.step cfg) (State.init cfg matchers reads) as s)
    (failed : s.failed = true) :
    (writes s.conn.log = [] ∧ ∃ key, s.conn.pc = .joining key none true) ∨
      (Rejected s.conn ↔ Caught cfg s.conn) := by
  have inv : Inv cfg s := run.invariant (fun _ _ _ inv st => inv.step st) (.init matchers reads)
  cases inv.outcome failed with
  | waiting pc coll => exact .inl ⟨coll.writes_eq, _, pc⟩
  | returned pc silent caught =>
    refine .inr (Iff.trans ?_ caught)
    constructor
    · rintro ⟨_, err, e⟩
      exact ⟨err, Pc.finished.inj (pc.symm.trans e)⟩
    · rintro ⟨err, rfl⟩
      exact ⟨silent, err, pc⟩
  | forwarded _ written _ not => exact .inr (iff_of_false (fun h => written h.silent) not)

section examples

open Bytes

/-- A request line that ends in the middle. -/
def cutRequestLine : List (ReadResult IoError) := [.data (lit "GET /")]

/-- The turns that take it to the end of the stream. -/
def cutRequestLineActions : List (Action Nat) := [.turn, .turn, .turn, .turn]

/-- It is rejected, since it is the first thing that the client has sent. -/
theorem rejected_iff_caught_requestLine :
    ∃ s, Run (Client.step httpConfig) (State.init httpConfig [] cutRequestLine) cutRequestLineActions s ∧
      s.failed = true ∧ s.received = 5 ∧ Rejected s.conn ∧ Caught httpConfig s.conn := by
  obtain ⟨s, run, failed, received, silent, err, pc⟩ :
      ∃ s, Run (Client.step httpConfig) (State.init httpConfig [] cutRequestLine) cutRequestLineActions s ∧
        s.failed = true ∧ s.received = 5 ∧ writes s.conn.log = [] ∧
        ∃ err, s.conn.pc = .finished (.error err) := ⟨_, .of_exec rfl, rfl, rfl, rfl, _, rfl⟩
  have rejected : Rejected s.conn := ⟨silent, err, pc⟩
  have decided := (rejected_iff_caught run failed).resolve_left
    fun ⟨_, _, waiting⟩ => nomatch pc.symm.trans waiting
  exact ⟨s, run, failed, received, rejected, decided.1 rejected⟩

/-- A header line that ends in the middle. -/
def cutHeader : List (ReadResult IoError) := [.data (lit "GET / HTTP/1.1\r\nHost: a")]

/-- The turns that take it to the end of the stream, and a destination. -/
def cutHeaderActions : List (Action Nat) :=
  [.turn, .turn, .turn, .turn, .turn, .turn, .conn (.routed (.ok 7))]

/-- It is forwarded. -/
theorem not_rejected_header :
    ¬ ∀ (s : State HttpDeriverHook Nat) as reads,
      Run (Client.step httpConfig) (State.init httpConfig [] reads) as s →
      s.failed = true → 0 < s.received → s.conn.pc.After → Rejected s.conn := by
  intro h
  have run : Run (Client.step httpConfig) (State.init httpConfig [] cutHeader) cutHeaderActions _ :=
    .of_exec rfl
  cases (h _ _ _ run rfl (by decide +kernel) trivial).silent

end examples

end Http.Client

end Railscale
