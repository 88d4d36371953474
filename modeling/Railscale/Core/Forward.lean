import Railscale.Core.Service
import Railscale.Http.Hook
import Railscale.Lib.Run

/-!
# What is forwarded

The write to the destination in every cycle of `do_connection`: there is at most one, and what it writes
is the cycle's items, processed, in the order they came, after the hook has seen every frame and
accepted the whole. `Forwarded` says so about the log of a cycle and `cycleOk_of_run` proves it of every
cycle of every run, whatever the streams, the pool, the router and the writes answer.
-/

namespace Railscale.Service

variable {F H D : Type}

/-! ## Reading a log -/

/-- What the client stream gave. -/
def takes (log : List (Event F H D)) : List (Item F) :=
  log.filterMap fun
    | .took o => some o
    | _ => none

/-- The item that a stream gives, if it is one. -/
def okItem : Item F → Option (ParsedData F)
  | some (.ok i) => some i
  | _ => none

/-- The items that the client stream gave. -/
def taken (log : List (Event F H D)) : List (ParsedData F) := (takes log).filterMap okItem

/-- The frames that the hook was shown. -/
def hooked (log : List (Event F H D)) : List F :=
  log.filterMap fun
    | .onFrame f => some f
    | _ => none

/-- The writes to destinations. -/
def writes (log : List (Event F H D)) : List (D × Bytes) :=
  log.filterMap fun
    | .destWrite d bs => some (d, bs)
    | _ => none

/-- The events that are no part of the request. -/
def Event.Quiet : Event F H D → Prop
  | .took _ => False
  | .onFrame _ => False
  | .destWrite _ _ => False
  | _ => True

/-- The events behind the write. -/
def Event.Late : Event F H D → Prop
  | .captureResponse _ => True
  | .clientWrite _ => True
  | .released _ _ => True
  | _ => False

/-- Behind the write nothing is part of the request. -/
lemma Event.Late.quiet {e : Event F H D} (late : e.Late) : e.Quiet := by
  cases e <;> first | exact late.elim | trivial

/-- What was taken in two logs, one behind the other. -/
@[simp] lemma takes_append (l m : List (Event F H D)) : takes (l ++ m) = takes l ++ takes m :=
  List.filterMap_append

/-- What the hook was shown in two logs, one behind the other. -/
@[simp] lemma hooked_append (l m : List (Event F H D)) : hooked (l ++ m) = hooked l ++ hooked m :=
  List.filterMap_append

/-- What was written in two logs, one behind the other. -/
@[simp] lemma writes_append (l m : List (Event F H D)) : writes (l ++ m) = writes l ++ writes m :=
  List.filterMap_append

/-- Events without an item leave the items as they are. -/
lemma taken_untaken {es : List (Event F H D)} (untaken : takes es = []) (l : List (Event F H D)) :
    taken (l ++ es) = taken l := by
  rw [taken, takes_append, untaken, List.append_nil, taken]

/-- Quiet events show in none of the three. -/
lemma quiet_nil {es : List (Event F H D)} (quiet : ∀ e ∈ es, e.Quiet) :
    takes es = [] ∧ hooked es = [] ∧ writes es = [] := by
  induction es with
  | nil => exact ⟨rfl, rfl, rfl⟩
  | cons e es ih =>
    obtain ⟨t, h, w⟩ := ih fun e' he' => quiet e' (List.mem_cons_of_mem _ he')
    cases e with
    | took => exact (quiet _ List.mem_cons_self).elim
    | onFrame => exact (quiet _ List.mem_cons_self).elim
    | destWrite => exact (quiet _ List.mem_cons_self).elim
    | _ => exact ⟨t, h, w⟩

/-- One quiet event. -/
lemma quiet_singleton {e : Event F H D} (quiet : e.Quiet) : ∀ e' ∈ [e], e'.Quiet :=
  fun _ h => List.mem_singleton.1 h ▸ quiet

/-- One late event. -/
lemma late_singleton {e : Event F H D} (late : e.Late) : ∀ e' ∈ [e], e'.Late :=
  fun _ h => List.mem_singleton.1 h ▸ late

/-- The write takes nothing from the client. -/
lemma takes_forwardEvents (s : State F H D) (d : D) : takes (s.forwardEvents d) = [] := by
  rw [State.forwardEvents, State.openEvents]
  cases s.cycle.needRoute <;> rfl

/-- The one write is of the two buffers. -/
lemma writes_forwardEvents (s : State F H D) (d : D) :
    writes (s.forwardEvents d) = [(d, (s.cycle.preRouteBuf ++ s.cycle.postRouteBuf).flatten)] := by
  rw [State.forwardEvents, State.openEvents]
  cases s.cycle.needRoute <;> rfl

/-! ## The request of a cycle -/

variable [Frame F] [ConnectionHook H F]

/-- The frames among some items. -/
def frames (is : List (ParsedData F)) : List F := is.filterMap ParsedData.frame?

/-- The raw length of some items. -/
def rawLength (is : List (ParsedData F)) : Nat := (is.flatMap ParsedData.raw).length

/-- The items as the stream gave them. -/
def given (is : List (ParsedData F)) : List (Item F) := is.map fun i => some (.ok i)

/-- The end of a stream of items: its `None`, or its first error. -/
def Stop : Item F → Prop
  | none => True
  | some (.error _) => True
  | some (.ok _) => False

omit [Frame F] in
/-- The items that a stream gave, read back. -/
lemma filterMap_given (is : List (ParsedData F)) : (given is).filterMap okItem = is := by
  induction is with
  | nil => rfl
  | cons i is ih => exact congrArg (List.cons i) ih

omit [Frame F] [ConnectionHook H F] in
/-- The items that a stream gave before it stopped. -/
lemma taken_given {log : List (Event F H D)} {is : List (ParsedData F)} {stop : Item F}
    (h : takes log = given is ++ [stop]) (stops : Stop stop) : taken log = is := by
  rw [taken, h, List.filterMap_append, filterMap_given]
  match stop with
  | none => exact List.append_nil _
  | some (.error _) => exact List.append_nil _

omit [Frame F] in
/-- What is no item stops the stream. -/
lemma stop_of_ne {o : Item F} (h : ∀ i, o ≠ some (.ok i)) : Stop o := by
  match o with
  | none => trivial
  | some (.error _) => trivial
  | some (.ok i) => exact absurd rfl (h i)

variable (cfg : Config F H)

/-- The items are a request within the limits: `pre` up to the first frame with a routing key, `post`
behind it. -/
structure Request (pre : List (ParsedData F)) (f : F) (post : List (ParsedData F)) : Prop where
  routing : (Frame.routingKey f).isSome
  noRouting : ∀ g ∈ frames pre, Frame.routingKey g = none
  preLimit : rawLength (pre ++ [.parsed f]) ≤ cfg.bufferLimits.maxPreRouteBytes
  postLimit : rawLength post ≤ cfg.bufferLimits.maxPostRouteBytes

/-- The log of a cycle with a write: up to the write, the stream gave a request and then stopped, the
hook was shown its frames and accepted, and the write is of the processed request; behind it, none of
this happens again. -/
structure Forwarded (log : List (Event F H D)) (pre : List (ParsedData F)) (f : F)
    (post : List (ParsedData F)) (stop : Item F) (before after : List (Event F H D)) (d : D) : Prop where
  log_eq : log = before ++
    .destWrite d ((pre ++ .parsed f :: post).flatMap (ParsedData.output cfg.process)) :: after
  request : Request cfg pre f post
  stops : Stop stop
  takes_eq : takes before = given (pre ++ .parsed f :: post) ++ [stop]
  hooked_eq : hooked before = frames (pre ++ .parsed f :: post)
  validated : .validated (hooked before |>.foldl ConnectionHook.onFrame cfg.hookFactory) (.ok ()) ∈ before
  once : writes before = []
  takes_after : takes after = []
  hooked_after : hooked after = []
  writes_after : writes after = []

/-- A cycle without a write, or with one write of what it should be. -/
def CycleOk (log : List (Event F H D)) : Prop :=
  writes log = [] ∨ ∃ pre f post stop before after d, Forwarded cfg log pre f post stop before after d

/-! ## The invariant -/

/-- What the variables and the log of a cycle hold when its stream has given `pre` before the routing
frame was seen, `post` after it, and then `stop`. -/
structure Collecting (s : State F H D) (pre post : List (ParsedData F)) (stop : List (Item F)) :
    Prop where
  takes_eq : takes s.log = given (pre ++ post) ++ stop
  hooked_eq : hooked s.log = frames (pre ++ post)
  writes_eq : writes s.log = []
  hook : s.cycle.hook = (frames (pre ++ post)).foldl ConnectionHook.onFrame cfg.hookFactory
  preBuf : s.cycle.preRouteBuf = pre.map (ParsedData.output cfg.process)
  preCumulative : s.cycle.preRouteCumulative = rawLength pre
  postBuf : s.cycle.postRouteBuf = post.map (ParsedData.output cfg.process)
  postCumulative : s.cycle.postRouteCumulative = rawLength post

/-- The post-route loop is over: the stream has stopped, or the limit is exceeded. -/
inductive Collected (s : State F H D) : Prop where
  | stopped {pre f post stop} :
    Collecting cfg s (pre ++ [.parsed f]) post [stop] →
    Request cfg pre f post →
    Stop stop →
    Collected s
  | overflow :
    s.cycle.postRouteCumulative > cfg.bufferLimits.maxPostRouteBytes →
    writes s.log = [] →
    Collected s

/-- The places behind the write. -/
def Pc.After : Pc H D → Prop
  | .preRoute => False
  | .acquiring _ => False
  | .joining _ _ _ => False
  | _ => True

/-- The state of the running cycle, place by place. -/
inductive Running (s : State F H D) : Prop where
  | preRoute {pre} :
    s.pc = .preRoute →
    Collecting cfg s pre [] [] →
    (∀ g ∈ frames pre, Frame.routingKey g = none) →
    Running s
  | acquiring {key pre f} :
    s.pc = .acquiring key →
    Collecting cfg s (pre ++ [.parsed f]) [] [] →
    Request cfg pre f [] →
    Running s
  | joining {key dest pre f post} :
    s.pc = .joining key dest false →
    Collecting cfg s (pre ++ [.parsed f]) post [] →
    Request cfg pre f post →
    Running s
  | collected {key} :
    s.pc = .joining key none true →
    Collected cfg s →
    Running s
  | after :
    s.pc.After →
    CycleOk cfg s.log →
    Running s

/-- The running cycle is as it should be, and the past ones were. -/
structure Inv (s : State F H D) : Prop where
  running : Running cfg s
  past : ∀ log ∈ s.past, CycleOk cfg log

/-- What a step behind the write does: it logs late events and stays behind the write, or begins the
next cycle. -/
inductive Quietly (s : State F H D) (a : Action F D) (s' : State F H D) : Prop where
  | stay {es} :
    (∀ e ∈ es, e.Late) →
    s'.pc.After →
    s'.log = s.log ++ es →
    s'.past = s.past →
    s'.cycle = s.cycle →
    Quietly s a s'
  | next {es} :
    (∀ e ∈ es, e.Late) →
    a = .release →
    s'.pc = .preRoute →
    s'.cycle = .new cfg →
    s'.log = [] →
    s'.past = s.past ++ [s.log ++ es] →
    Quietly s a s'

/-- Nothing has been collected at the start. -/
lemma Collecting.init : Collecting cfg (State.init cfg : State F H D) [] [] [] := by
  constructor <;> rfl

/-- The first cycle begins as it should. -/
lemma Inv.init : Inv cfg (State.init cfg : State F H D) :=
  ⟨.preRoute rfl (.init cfg) nofun, nofun⟩

section steps

variable {cfg}

omit [Frame F] in
/-- The frames of items behind others. -/
lemma frames_append (is js : List (ParsedData F)) : frames (is ++ js) = frames is ++ frames js :=
  List.filterMap_append

/-- The raw lengths of items behind others add up. -/
lemma rawLength_append (is js : List (ParsedData F)) :
    rawLength (is ++ js) = rawLength is + rawLength js := by
  simp [rawLength]

/-- The raw length of one item. -/
lemma rawLength_singleton (i : ParsedData F) : rawLength [i] = i.raw.length := by
  simp [rawLength]

omit [Frame F] in
/-- Items behind others, as the stream gave them. -/
lemma given_append (is js : List (ParsedData F)) : given (is ++ js) = given is ++ given js :=
  List.map_append

/-- Quiet events change nothing about a cycle. -/
lemma CycleOk.quiet {log es : List (Event F H D)} (ok : CycleOk cfg log)
    (quiet : ∀ e ∈ es, e.Quiet) : CycleOk cfg (log ++ es) := by
  obtain ⟨t, h, w⟩ := quiet_nil quiet
  rcases ok with none | ⟨pre, f, post, stop, before, after, d, fwd⟩
  · refine .inl ?_
    rw [writes_append, none, w]
    rfl
  · refine .inr ⟨pre, f, post, stop, before, after ++ es, d, ?_⟩
    exact { fwd with
      log_eq := by rw [fwd.log_eq, List.append_assoc, List.cons_append]
      takes_after := by rw [takes_append, fwd.takes_after, t]; rfl
      hooked_after := by rw [hooked_append, fwd.hooked_after, h]; rfl
      writes_after := by rw [writes_append, fwd.writes_after, w]; rfl }

omit [Frame F] [ConnectionHook H F] in
/-- An error response is no part of the request. -/
lemma quiet_errorEvents (err : RailscaleError) :
    ∀ e ∈ (State.errorEvents cfg err : List (Event F H D)), e.Quiet := by
  rw [State.errorEvents]
  cases cfg.errorResponder with
  | none => exact List.forall_mem_nil Event.Quiet
  | some responder =>
    intro e he
    rw [List.mem_singleton.1 he]
    trivial

/-- Failing before the write. -/
lemma Inv.fail {s : State F H D} (none : writes s.log = [])
    (past : ∀ log ∈ s.past, CycleOk cfg log) (cr : ConnectionResult) (err : RailscaleError) :
    Inv cfg (s.fail cfg cr err) := by
  rw [State.fail_eq]
  refine ⟨.after trivial ?_, past⟩
  exact CycleOk.quiet (.inl none) (quiet_errorEvents err)

/-- Quiet events change nothing about what is collected. -/
lemma Collecting.quiet {s s' : State F H D} {pre post stop} (coll : Collecting cfg s pre post stop)
    {es : List (Event F H D)} (quiet : ∀ e ∈ es, e.Quiet) (log : s'.log = s.log ++ es)
    (hook : s'.cycle.hook = s.cycle.hook) (preBuf : s'.cycle.preRouteBuf = s.cycle.preRouteBuf)
    (preCumulative : s'.cycle.preRouteCumulative = s.cycle.preRouteCumulative)
    (postBuf : s'.cycle.postRouteBuf = s.cycle.postRouteBuf)
    (postCumulative : s'.cycle.postRouteCumulative = s.cycle.postRouteCumulative) :
    Collecting cfg s' pre post stop := by
  obtain ⟨t, h, w⟩ := quiet_nil quiet
  refine ⟨?_, ?_, ?_, hook.trans coll.hook, preBuf.trans coll.preBuf,
    preCumulative.trans coll.preCumulative, postBuf.trans coll.postBuf,
    postCumulative.trans coll.postCumulative⟩
  · rw [log, takes_append, t, List.append_nil, coll.takes_eq]
  · rw [log, hooked_append, h, List.append_nil, coll.hooked_eq]
  · rw [log, writes_append, w, List.append_nil, coll.writes_eq]

/-- The end of the pre-route loop returns without a write. -/
lemma Inv.endPreRoute {s : State F H D} (none : writes s.log = [])
    (past : ∀ log ∈ s.past, CycleOk cfg log) (clientClosed : Bool) :
    Inv cfg (s.endPreRoute cfg clientClosed) := by
  rw [State.endPreRoute]
  split
  · exact ⟨.after trivial (.inl none), past⟩
  · exact .fail none past _ _

omit [Frame F] [ConnectionHook H F] in
/-- What is logged of an item: it was taken, its frame was shown to the hook, and nothing was written. -/
lemma itemEvents_seen (i : ParsedData F) :
    takes (State.itemEvents i : List (Event F H D)) = given [i] ∧
      hooked (State.itemEvents i : List (Event F H D)) = frames [i] ∧
      writes (State.itemEvents i : List (Event F H D)) = [] := by
  cases i <;> exact ⟨rfl, rfl, rfl⟩

omit [Frame F] in
/-- The frame of an item, if it is one. -/
lemma frames_singleton (i : ParsedData F) : frames [i] = i.frame?.toList := by
  cases i <;> rfl

/-- Taking an item into the buffer before the routing frame. -/
lemma Collecting.pushPre {s s' : State F H D} {pre} (coll : Collecting cfg s pre [] [])
    (i : ParsedData F) (log : s'.log = s.log ++ State.itemEvents i)
    (hook : s'.cycle.hook = i.frame?.toList.foldl ConnectionHook.onFrame s.cycle.hook)
    (preBuf : s'.cycle.preRouteBuf = s.cycle.preRouteBuf ++ [i.output cfg.process])
    (preCumulative : s'.cycle.preRouteCumulative = s.cycle.preRouteCumulative + i.raw.length)
    (postBuf : s'.cycle.postRouteBuf = s.cycle.postRouteBuf)
    (postCumulative : s'.cycle.postRouteCumulative = s.cycle.postRouteCumulative) :
    Collecting cfg s' (pre ++ [i]) [] [] := by
  obtain ⟨takes_eq, hooked_eq, writes_eq, hook_eq, preBuf_eq, preCum_eq, postBuf_eq, postCum_eq⟩ := coll
  obtain ⟨took, hooks, wrote⟩ := itemEvents_seen (F := F) (H := H) (D := D) i
  rw [List.append_nil] at takes_eq hooked_eq hook_eq
  refine ⟨?_, ?_, ?_, ?_, ?_, ?_, ?_, ?_⟩
  · rw [log, takes_append, takes_eq, took, List.append_nil, List.append_nil, List.append_nil,
      given_append]
  · rw [log, hooked_append, hooked_eq, hooks, List.append_nil, frames_append]
  · rw [log, writes_append, writes_eq, wrote]
    rfl
  · rw [hook, hook_eq, List.append_nil, frames_append, List.foldl_append, frames_singleton]
  · rw [preBuf, preBuf_eq, List.map_append]
    rfl
  · rw [preCumulative, preCum_eq, rawLength_append, rawLength_singleton]
  · rw [postBuf, postBuf_eq]
  · rw [postCumulative, postCum_eq]

/-- Taking an item into the buffer behind the routing frame. -/
lemma Collecting.pushPost {s s' : State F H D} {pre post} (coll : Collecting cfg s pre post [])
    (i : ParsedData F) (log : s'.log = s.log ++ State.itemEvents i)
    (hook : s'.cycle.hook = i.frame?.toList.foldl ConnectionHook.onFrame s.cycle.hook)
    (preBuf : s'.cycle.preRouteBuf = s.cycle.preRouteBuf)
    (preCumulative : s'.cycle.preRouteCumulative = s.cycle.preRouteCumulative)
    (postBuf : s'.cycle.postRouteBuf = s.cycle.postRouteBuf ++ [i.output cfg.process])
    (postCumulative : s'.cycle.postRouteCumulative = s.cycle.postRouteCumulative + i.raw.length) :
    Collecting cfg s' pre (post ++ [i]) [] := by
  obtain ⟨takes_eq, hooked_eq, writes_eq, hook_eq, preBuf_eq, preCum_eq, postBuf_eq, postCum_eq⟩ := coll
  obtain ⟨took, hooks, wrote⟩ := itemEvents_seen (F := F) (H := H) (D := D) i
  rw [List.append_nil] at takes_eq
  refine ⟨?_, ?_, ?_, ?_, ?_, ?_, ?_, ?_⟩
  · rw [log, takes_append, takes_eq, took, List.append_nil, ← given_append, List.append_assoc]
  · rw [log, hooked_append, hooked_eq, hooks, ← frames_append, List.append_assoc]
  · rw [log, writes_append, writes_eq, wrote]
    rfl
  · rw [hook, hook_eq, ← List.append_assoc, frames_append (pre ++ post), List.foldl_append,
      frames_singleton]
  · rw [preBuf, preBuf_eq]
  · rw [preCumulative, preCum_eq]
  · rw [postBuf, postBuf_eq, List.map_append]
    rfl
  · rw [postCumulative, postCum_eq, rawLength_append, rawLength_singleton]

/-- A request that has been collected, accepted and written. -/
lemma Collecting.forwarded {s : State F H D} {pre f post stop}
    (coll : Collecting cfg s (pre ++ [.parsed f]) post [stop]) (request : Request cfg pre f post)
    (stops : Stop stop) (d : D) :
    Forwarded cfg (s.log ++ s.forwardEvents d) pre f post stop
      (s.log ++ (.validated s.cycle.hook (.ok ()) :: State.openEvents s.cycle ++
        [.captureRequest (s.cycle.preRouteBuf ++ s.cycle.postRouteBuf).flatten])) [] d := by
  obtain ⟨takes_eq, hooked_eq, writes_eq, hook_eq, preBuf_eq, -, postBuf_eq, -⟩ := coll
  have items : pre ++ [.parsed f] ++ post = pre ++ .parsed f :: post := by simp
  rw [items] at takes_eq hooked_eq hook_eq
  have data : (s.cycle.preRouteBuf ++ s.cycle.postRouteBuf).flatten =
      (pre ++ .parsed f :: post).flatMap (ParsedData.output cfg.process) := by
    rw [preBuf_eq, postBuf_eq, ← List.map_append, items, List.flatMap_def]
  have quiet : ∀ e ∈ (.validated s.cycle.hook (.ok ()) :: State.openEvents s.cycle ++
      [.captureRequest (s.cycle.preRouteBuf ++ s.cycle.postRouteBuf).flatten] :
        List (Event F H D)), e.Quiet := by
    rw [State.openEvents]
    cases s.cycle.needRoute <;> simp [Event.Quiet]
  obtain ⟨t, h, w⟩ := quiet_nil quiet
  refine ⟨?_, request, stops, ?_, ?_, ?_, ?_, rfl, rfl, rfl⟩
  · rw [State.forwardEvents, data]
    simp
  · rw [takes_append, takes_eq, t, List.append_nil]
  · rw [hooked_append, hooked_eq, h, List.append_nil]
  · rw [hooked_append, hooked_eq, h, List.append_nil, ← hook_eq]
    simp
  · rw [writes_append, writes_eq, w]
    rfl

/-- What has been collected has not been written. -/
lemma Collected.writes_eq {s : State F H D} (coll : Collected cfg s) : writes s.log = [] := by
  cases coll with
  | stopped coll _ _ => exact coll.writes_eq
  | overflow _ none => exact none

/-- The code between the join and the write. -/
lemma Inv.afterJoin {s : State F H D} (coll : Collected cfg s)
    (past : ∀ log ∈ s.past, CycleOk cfg log) (key : Bytes) (dest : Except RailscaleError D) :
    Inv cfg (s.afterJoin cfg key dest) := by
  have silent : ∀ r, writes (s.emit [.validated s.cycle.hook r]).log = [] := by
    intro r
    rw [State.emit_log, writes_append, coll.writes_eq]
    rfl
  have joined := State.afterJoin_cases cfg s key dest
  generalize s.afterJoin cfg key dest = s' at joined ⊢
  cases joined with
  | overflow _ => exact .fail coll.writes_eq past _ _
  | invalid _ _ => exact .fail (silent _) past _ _
  | unrouted _ _ => exact .fail (silent _) past _ _
  | @forwarded d within _ =>
    cases coll with
    | overflow excess _ => exact absurd excess (Nat.not_lt_of_le within)
    | @stopped pre f post stop coll request stops =>
      exact ⟨.after trivial (.inr ⟨pre, f, post, stop, _, [], d, coll.forwarded request stops d⟩), past⟩

/-- The end of the collecting future keeps the invariant. -/
lemma Inv.endPostRoute {s : State F H D} (coll : Collected cfg s)
    (past : ∀ log ∈ s.past, CycleOk cfg log) (key : Bytes) (dest : Option (Except RailscaleError D)) :
    Inv cfg (s.endPostRoute cfg key dest) := by
  cases dest with
  | some r => exact .afterJoin coll past key r
  | none =>
    refine ⟨.collected rfl ?_, past⟩
    cases coll with
    | stopped coll request stops => exact .stopped { coll with } request stops
    | overflow excess none => exact .overflow excess none

/-- An item of the client keeps the invariant in the pre-route loop. -/
lemma Inv.onPreRoute {s : State F H D} {pre} (pc : s.pc = .preRoute)
    (coll : Collecting cfg s pre [] []) (noRouting : ∀ g ∈ frames pre, Frame.routingKey g = none)
    (past : ∀ log ∈ s.past, CycleOk cfg log) (o : Item F) : Inv cfg (s.onPreRoute cfg o) := by
  have took : ∀ o, writes (s.emit [.took o]).log = [] := by
    intro o
    rw [State.emit_log, writes_append, coll.writes_eq]
    rfl
  have turn := State.onPreRoute_cases cfg s o
  generalize s.onPreRoute cfg o = s' at turn ⊢
  cases turn with
  | ended => exact .endPreRoute (took _) past _
  | closed _ _ => exact .endPreRoute (took _) past _
  | failed => exact .fail (took _) past _ _
  | @overflow i c _ _ _ _ => exact Inv.fail (s := { s.emit [.took _] with cycle := c }) (took _) past _ _
  | @kept i within unkeyed =>
    refine ⟨.preRoute pc (coll.pushPre i rfl rfl rfl rfl rfl rfl) ?_, past⟩
    intro g hg
    rw [frames_append] at hg
    rcases List.mem_append.1 hg with hg | hg
    · exact noRouting g hg
    · rw [frames_singleton] at hg
      exact unkeyed g (Option.mem_toList.1 hg)
  | @routed f key within keyed =>
    have limit : rawLength (pre ++ [.parsed f]) ≤ cfg.bufferLimits.maxPreRouteBytes := by
      rw [rawLength_append, rawLength_singleton, ← coll.preCumulative]
      exact within
    have request : Request cfg pre f [] := ⟨by rw [keyed]; rfl, noRouting, limit, Nat.zero_le _⟩
    rw [State.toAcquire]
    split
    · exact ⟨.acquiring rfl (coll.pushPre (.parsed f) rfl rfl rfl rfl rfl rfl) request, past⟩
    · exact ⟨.joining rfl (coll.pushPre (.parsed f) rfl rfl rfl rfl rfl rfl) request, past⟩

/-- The stream stops behind the routing frame. -/
lemma Collecting.stopped {s : State F H D} {pre post} (coll : Collecting cfg s pre post []) (stop : Item F) :
    Collecting cfg (s.emit [.took stop]) pre post [stop] := by
  obtain ⟨takes_eq, hooked_eq, writes_eq, hook_eq, preBuf_eq, preCum_eq, postBuf_eq, postCum_eq⟩ := coll
  refine ⟨?_, ?_, ?_, hook_eq, preBuf_eq, preCum_eq, postBuf_eq, postCum_eq⟩
  · rw [State.emit_log, takes_append, takes_eq, List.append_nil]
    rfl
  · rw [State.emit_log, hooked_append, hooked_eq]
    exact List.append_nil _
  · rw [State.emit_log, writes_append, writes_eq]
    rfl

/-- An item of the client keeps the invariant in the post-route loop. -/
lemma Inv.onPostRoute {s : State F H D} {key dest pre f post} (pc : s.pc = .joining key dest false)
    (coll : Collecting cfg s (pre ++ [.parsed f]) post []) (request : Request cfg pre f post)
    (past : ∀ log ∈ s.past, CycleOk cfg log) (o : Item F) :
    Inv cfg (s.onPostRoute cfg key dest o) := by
  have turn := State.onPostRoute_cases cfg s key dest o
  generalize s.onPostRoute cfg key dest o = s' at turn ⊢
  cases turn with
  | stopped stops => exact .endPostRoute (.stopped (coll.stopped o) request (stop_of_ne stops)) past key dest
  | @overflow i c excess _ _ =>
    refine Inv.endPostRoute (s := { s.emit [.took _] with cycle := c }) (.overflow excess ?_) past key dest
    exact (coll.stopped (some (.ok i))).writes_eq
  | @kept i within =>
    have request' : Request cfg pre f (post ++ [i]) := by
      refine { request with postLimit := ?_ }
      rw [rawLength_append, rawLength_singleton, ← coll.postCumulative]
      exact within
    exact ⟨.joining pc (coll.pushPost i rfl rfl rfl rfl rfl rfl) request', past⟩

omit [Frame F] [ConnectionHook H F] in
/-- A step without an event is quiet. -/
lemma Quietly.silent {s s' : State F H D} {a : Action F D} (pc : s'.pc.After) (log : s'.log = s.log)
    (past : s'.past = s.past) (cycle : s'.cycle = s.cycle) : Quietly cfg s a s' :=
  .stay (List.forall_mem_nil Event.Late) pc (by rw [log, List.append_nil]) past cycle

omit [Frame F] [ConnectionHook H F] in
/-- The end of a cycle behind its relay is quiet. -/
lemma Quietly.endCycle (s : State F H D) (a : Action F D) (key : Bytes) (dest : D) (n : Nat)
    (close : Bool) : Quietly cfg s a (s.endCycle key dest n close) := by
  unfold State.endCycle
  cases close with
  | true => exact .silent trivial rfl rfl rfl
  | false => exact .silent trivial rfl rfl rfl

/-- A turn of the relay loop is quiet. -/
lemma Quietly.onRelay (s : State F H D) (a : Action F D) (r : Relay H D) (o : Item F) :
    Quietly cfg s a (s.onRelay cfg r o) := by
  have flush : ∀ bs, ∀ e ∈ ([.captureResponse bs, .clientWrite bs] : List (Event F H D)),
      e.Late := by
    simp [Event.Late]
  unfold State.onRelay
  match o with
  | none =>
    simp only
    split
    · exact .stay (flush _) trivial rfl rfl rfl
    · exact .endCycle s _ _ _ _ _
  | some (.error err) =>
    simp only
    split
    · exact .stay (late_singleton (e := .clientWrite r.batch) trivial) trivial rfl rfl rfl
    · exact .silent trivial rfl rfl rfl
  | some (.ok i) =>
    simp only
    split
    · exact .stay (flush _) trivial rfl rfl rfl
    · exact .silent trivial rfl rfl rfl

/-- Every step behind the write is quiet. -/
lemma step_after {s s' : State F H D} {a : Action F D} (pc : s.pc.After)
    (st : step cfg s a = some s') : Quietly cfg s a s' := by
  have before : ∀ {pc'}, s.pc = pc' → ¬ pc'.After → Quietly cfg s a s' :=
    fun here not => absurd (here ▸ pc) not
  cases step_cases st with
  | preRoute here => exact before here id
  | acquired here => exact before here id
  | postRoute here => exact before here id
  | routed here => exact before here id
  | joined here => exact before here id
  | wrote here =>
    rw [State.toRelay]
    split
    · exact .silent trivial rfl rfl rfl
    · exact .silent trivial rfl rfl rfl
  | relay here => exact .onRelay s _ _ _
  | flushedLast here => exact .endCycle s _ _ _ _ _
  | copied here => exact .endCycle s _ _ _ _ _
  | @released key dest here _ =>
    exact .next (late_singleton (e := .released key dest) trivial) rfl rfl rfl rfl rfl
  | dropped here _ =>
    refine .next (List.forall_mem_nil Event.Late) rfl rfl rfl rfl ?_
    rw [List.append_nil]
    rfl
  | writeError here => exact .silent trivial rfl rfl rfl
  | flushed here => exact .silent trivial rfl rfl rfl
  | flushError here => exact .silent trivial rfl rfl rfl
  | flushedError here => exact .silent trivial rfl rfl rfl
  | copyError here => exact .silent trivial rfl rfl rfl

/-- A step keeps the invariant. -/
theorem Inv.step {s s' : State F H D} {a : Action F D} (inv : Inv cfg s)
    (st : Service.step cfg s a = some s') : Inv cfg s' := by
  obtain ⟨running, past⟩ := inv
  -- the place in the cycle says which steps are possible; behind the join none of them writes
  cases running with
  | preRoute pc coll noRouting =>
    cases step_cases st with
    | preRoute _ => exact .onPreRoute pc coll noRouting past _
    | _ => simp_all
  | acquiring pc coll request =>
    cases step_cases st with
    | acquired _ =>
      refine ⟨.joining rfl ?_ request, past⟩
      exact coll.quiet (quiet_singleton (e := .acquired _ _) trivial) rfl rfl rfl rfl rfl rfl
    | _ => simp_all
  | joining pc coll request =>
    cases step_cases st with
    | postRoute here =>
      obtain ⟨rfl, rfl, -⟩ := Pc.joining.inj (pc.symm.trans here)
      exact .onPostRoute pc coll request past _
    | routed here =>
      refine ⟨.joining rfl ?_ request, past⟩
      exact coll.quiet (quiet_singleton (e := .routed _ _) trivial) rfl rfl rfl rfl rfl rfl
    | _ => simp_all
  | collected pc coll =>
    cases step_cases st with
    | joined here =>
      refine Inv.afterJoin (s := s.emit [.routed _ _]) ?_ past _ _
      cases coll with
      | stopped coll request stops =>
        exact .stopped (coll.quiet (quiet_singleton (e := .routed _ _) trivial) rfl rfl rfl rfl rfl rfl) request stops
      | overflow excess none =>
        refine .overflow excess ?_
        rw [State.emit_log, writes_append, none]
        rfl
    | _ => simp_all
  | after pc ok =>
    cases step_after pc st with
    | stay late pc' log past' _ =>
      refine ⟨.after pc' ?_, past' ▸ past⟩
      rw [log]
      exact ok.quiet fun e he => (late e he).quiet
    | next late _ pc' cycle log past' =>
      -- the log of the cycle that is over joins the earlier ones
      have coll : Collecting cfg s' [] [] [] := by
        constructor <;> first | rw [log]; rfl | rw [cycle]; rfl
      refine ⟨.preRoute pc' coll nofun, ?_⟩
      rw [past']
      intro l hl
      rcases List.mem_append.1 hl with hl | hl
      · exact past l hl
      · rw [List.mem_singleton.1 hl]
        exact ok.quiet fun e he => (late e he).quiet

/-- A running cycle is as it should be. -/
lemma Running.cycleOk {s : State F H D} (running : Running cfg s) : CycleOk cfg s.log := by
  cases running with
  | preRoute _ coll _ => exact .inl coll.writes_eq
  | acquiring _ coll _ => exact .inl coll.writes_eq
  | joining _ coll _ => exact .inl coll.writes_eq
  | collected _ coll =>
    cases coll with
    | stopped coll _ _ => exact .inl coll.writes_eq
    | overflow _ none => exact .inl none
  | after _ ok => exact ok

/-- In every cycle of every run there is at most one write to a destination, and it is the processed
request of that cycle, which the hook has seen and accepted. -/
theorem cycleOk_of_run {s : State F H D} {as : List (Action F D)}
    (run : Run (Service.step cfg) (State.init cfg) as s) :
    ∀ log ∈ s.past ++ [s.log], CycleOk cfg log := by
  have inv : Inv cfg s := run.invariant (fun _ _ _ inv st => inv.step st) (.init cfg)
  intro log hl
  rcases List.mem_append.1 hl with hl | hl
  · exact inv.past log hl
  · rw [List.mem_singleton.1 hl]
    exact inv.running.cycleOk

end steps

section http

open Http

/-- A service for HTTP without a pool and a response parser. -/
def httpConfig : Config HttpFrame HttpDeriverHook where
  process := id
  hookFactory := .new
  bufferLimits := ⟨64, 64⟩

/-- A request whose body comes with the end of its head. -/
def httpActions : List (Action HttpFrame Nat) :=
  [.clientItem (some (.ok (.parsed (.requestLine (Bytes.lit "POST / HTTP/1.1\r\n"))))),
    .clientItem (some (.ok (.parsed (.header (Bytes.lit "Content-Length: 1\r\n"))))),
    .routed (.ok 7),
    .clientItem (some (.ok (.passthrough (Bytes.lit "\r\nx")))),
    .clientItem none]

/-- It is written in one piece. -/
theorem cycleOk_of_run_http :
    ∃ s, Run (step httpConfig) (State.init httpConfig) httpActions s ∧
      writes s.log = [(7, Bytes.lit "POST / HTTP/1.1\r\nContent-Length: 1\r\n\r\nx")] ∧
      ∀ log ∈ s.past ++ [s.log], CycleOk httpConfig log := by
  have run : Run (step httpConfig) (State.init httpConfig) httpActions _ := .of_exec rfl
  exact ⟨_, run, by decide +kernel, cycleOk_of_run run⟩

end http

end Railscale.Service
