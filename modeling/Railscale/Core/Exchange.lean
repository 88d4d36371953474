import Railscale.Core.Cycles
import Railscale.Core.Relay

/-!
# Exchanges

What `do_connection` is for: it takes the requests of a client one by one, writes each of them to a destination and
brings its response back. An `Exchange` is a request and its response as the two parsers give them, and what is to
come of it is read off the items (`forwarded`, `answered`). `Script` is the connection in an environment in which all
goes well: the client stream gives the requests one after another and ends, the response stream of each cycle gives the
response of its request, the pool gives a connection or none, the router gives a destination, and the writes succeed.

In every such run, in whatever order the two futures of a join get their answers, what is written to the destinations
and to the client is what the exchanges say, and the connection ends well (`serves_of_run`). The requests have to be
within the limits and accepted by the hook, and only the last exchange may ask to close the connection.
-/

namespace Railscale

namespace Service

variable {F H D : Type}

/-! ## What is to come of an exchange -/

/-- A request, up to its routing frame and behind it, and its response. -/
structure Exchange (F : Type) where
  pre : List (ParsedData F)
  routing : F
  post : List (ParsedData F)
  response : List (ParsedData F)

namespace Exchange

/-- The items of the request. -/
def request (x : Exchange F) : List (ParsedData F) := x.pre ++ .parsed x.routing :: x.post

/-- What the client stream gives in the cycle of the exchange. -/
def items (x : Exchange F) : List (Item F) := given x.request ++ [none]

variable [Frame F] [ConnectionHook H F] (cfg : Config F H) (x : Exchange F)

/-- What is written to the destination. -/
def forwarded : Bytes := x.request.flatMap (·.output cfg.process)

/-- What is written to the client. -/
def answered : Bytes := relayed cfg x.response

/-- The hook behind the request. -/
def hook : H := (frames x.request).foldl ConnectionHook.onFrame cfg.hookFactory

/-- The hook of the response behind it. -/
def responseHook : Option H :=
  cfg.responseHookFactory.map ((frames x.response).foldl ConnectionHook.onFrame ·)

/-- The connection is to be closed behind the exchange. -/
def closes : Bool :=
  ConnectionHook.shouldCloseConnection (x.hook cfg) ||
    (x.responseHook cfg).any ConnectionHook.shouldCloseConnection

/-- The request is within the limits, and the hook accepts it. -/
structure Accepted : Prop where
  request : Request cfg x.pre x.routing x.post
  valid : ConnectionHook.validate (x.hook cfg) = .ok ()

end Exchange

/-! ## What a step comes to -/

section steps

variable [Frame F] [ConnectionHook H F] {cfg : Config F H} {s : State F H D}

/-- An item within the limit and without a routing key is kept. -/
lemma State.onPreRoute_kept {i : ParsedData F}
    (within : s.cycle.preRouteCumulative + i.raw.length ≤ cfg.bufferLimits.maxPreRouteBytes)
    (unkeyed : ∀ f, i.frame? = some f → Frame.routingKey f = none) :
    s.onPreRoute cfg (some (.ok i)) =
      { s.emit (itemEvents i) with cycle := keepPre cfg i s.cycle } := by
  have within := Nat.not_lt_of_le within
  unfold onPreRoute
  cases i with
  | passthrough bs =>
    dsimp only
    rw [if_neg (by exact within)]
    rfl
  | parsed f =>
    dsimp only
    rw [if_neg (by exact within), unkeyed f rfl]
    simp only [emit, itemEvents, keepPre, List.append_assoc]
    rfl

/-- A frame with a routing key is kept and leads to the pool. -/
lemma State.onPreRoute_routed {f : F} {key : Bytes}
    (within : s.cycle.preRouteCumulative + (Frame.asBytes f).length ≤ cfg.bufferLimits.maxPreRouteBytes)
    (keyed : Frame.routingKey f = some key) :
    s.onPreRoute cfg (some (.ok (.parsed f))) =
      toAcquire cfg { s.emit (itemEvents (.parsed f)) with cycle := keepPre cfg (.parsed f) s.cycle } key := by
  have within := Nat.not_lt_of_le within
  unfold onPreRoute
  dsimp only
  rw [if_neg (by exact within), keyed]
  simp only [emit, itemEvents, keepPre, List.append_assoc]
  rfl

/-- An item within the limit is kept behind the routing frame. -/
lemma State.onPostRoute_kept {key : Bytes} {dest : Option (Except RailscaleError D)} {i : ParsedData F}
    (within : s.cycle.postRouteCumulative + i.raw.length ≤ cfg.bufferLimits.maxPostRouteBytes) :
    s.onPostRoute cfg key dest (some (.ok i)) =
      { s.emit (itemEvents i) with cycle := keepPost cfg i s.cycle } := by
  have within := Nat.not_lt_of_le within
  unfold onPostRoute
  cases i with
  | passthrough bs =>
    dsimp only
    rw [if_neg (by exact within)]
    rfl
  | parsed f =>
    dsimp only
    rw [if_neg (by exact within)]
    simp only [emit, itemEvents, keepPost, List.append_assoc]
    rfl

omit [Frame F] in
/-- A request within the limit that the hook accepts is written to its destination. -/
lemma State.afterJoin_forwarded {key : Bytes} {d : D}
    (within : s.cycle.postRouteCumulative ≤ cfg.bufferLimits.maxPostRouteBytes)
    (valid : ConnectionHook.validate s.cycle.hook = .ok ()) :
    s.afterJoin cfg key (.ok d) = { s.emit (s.forwardEvents d) with pc := .writing key d } := by
  have joined := afterJoin_cases cfg s key (.ok d)
  generalize s.afterJoin cfg key (.ok d) = s' at joined ⊢
  cases joined with
  | overflow excess => exact absurd excess (Nat.not_lt_of_le within)
  | invalid _ invalid => cases valid.symm.trans invalid
  | forwarded _ _ => rfl

end steps

end Service

/-! ## A connection in which all goes well -/

namespace Script

open Service

/-- A connection, what the client stream and the response stream still give, and the responses of the cycles to come.
A stream that has given everything gives `None` from then on. -/
structure State (F H D : Type) where
  conn : Service.State F H D
  client : List (Item F)
  response : List (ParsedData F)
  later : List (List (ParsedData F))

/-- What the connection awaits is there: an item of the client, a connection of the pool or none, the destination that
the router has made, the write of the request, an item of the response, a write to the client, and the call of
`release`. The router and the writes do not fail here. -/
inductive Action (D : Type) where
  | client
  | pool (dest : Option D)
  | route (dest : D)
  | wrote
  | response
  | flushed
  | release

variable {F H D : Type}

/-- What the connection gets. -/
def Action.act (s : State F H D) : Action D → Service.Action F D
  | .client => .clientItem (s.client.headD none)
  | .pool dest => .acquired dest
  | .route dest => .routed (.ok dest)
  | .wrote => .wrote (.ok ())
  | .response => .responseItem (s.response.head?.map .ok)
  | .flushed => .clientWrote (.ok ())
  | .release => .release

/-- The streams behind it. -/
def State.next (s : State F H D) (a : Action D) (conn : Service.State F H D) : State F H D :=
  match a with
  | .client => { s with conn := conn, client := s.client.tail }
  | .wrote => { s with conn := conn, response := s.later.headD [], later := s.later.tail }
  | .response => { s with conn := conn, response := s.response.tail }
  | _ => { s with conn := conn }

/-- What the client stream gives for some exchanges. -/
def script (xs : List (Exchange F)) : List (Item F) := xs.flatMap Exchange.items

section machine

variable [Frame F] [ConnectionHook H F] (cfg : Config F H)

/-- A connection before its first exchange. -/
def State.init (xs : List (Exchange F)) : State F H D := ⟨.init cfg, script xs, [], xs.map Exchange.response⟩

/-- A step of the connection. -/
def step (s : State F H D) (a : Action D) : Option (State F H D) :=
  (Service.step cfg s.conn (a.act s)).map (s.next a)

/-- What was written in some cycles, to the destinations and to the client. -/
def Told (xs : List (Exchange F)) (logs : List (List (Event F H D))) : Prop :=
  logs.map (fun log => (writes log).map Prod.snd) = xs.map (fun x => [x.forwarded cfg]) ∧
    logs.map clientBytes = xs.map (·.answered cfg)

/-- Behind the write of an exchange, with `rest` of its response to come. -/
structure Sent (x : Exchange F) (todo : List (Exchange F)) (rest : List (ParsedData F)) (s : State F H D) : Prop where
  hook : s.conn.cycle.hook = x.hook cfg
  wrote : (writes s.conn.log).map Prod.snd = [x.forwarded cfg]
  client : s.client = script todo
  response : s.response = rest
  later : s.later = todo.map Exchange.response

/-- Where the connection is in an exchange, and what it has of it. -/
inductive Turn (x : Exchange F) (todo : List (Exchange F)) (s : State F H D) : Prop where
  | preRoute {is js} :
    s.conn.pc = .preRoute →
    x.pre = is ++ js →
    Collecting cfg s.conn is [] [] →
    s.client = given (js ++ .parsed x.routing :: x.post) ++ none :: script todo →
    s.later = x.response :: todo.map Exchange.response →
    Turn x todo s
  | acquiring {key} :
    s.conn.pc = .acquiring key →
    Collecting cfg s.conn (x.pre ++ [.parsed x.routing]) [] [] →
    s.client = given x.post ++ none :: script todo →
    s.later = x.response :: todo.map Exchange.response →
    Turn x todo s
  | joining {key is js} {o : Option D} :
    s.conn.pc = .joining key (o.map .ok) false →
    x.post = is ++ js →
    Collecting cfg s.conn (x.pre ++ [.parsed x.routing]) is [] →
    s.client = given js ++ none :: script todo →
    s.later = x.response :: todo.map Exchange.response →
    Turn x todo s
  | collected {key} :
    s.conn.pc = .joining key none true →
    Collecting cfg s.conn (x.pre ++ [.parsed x.routing]) x.post [none] →
    s.client = script todo →
    s.later = x.response :: todo.map Exchange.response →
    Turn x todo s
  | writing {key d} :
    s.conn.pc = .writing key d →
    s.conn.cycle.hook = x.hook cfg →
    (writes s.conn.log).map Prod.snd = [x.forwarded cfg] →
    s.client = script todo →
    s.later = x.response :: todo.map Exchange.response →
    Turn x todo s
  | relaying {r is js} :
    s.conn.pc = .relaying r ∨ s.conn.pc = .flushing r →
    x.response = is ++ js →
    Sent cfg x todo js s →
    clientBytes s.conn.log ++ r.batch = relayed cfg is →
    r.responseHook = cfg.responseHookFactory.map ((frames is).foldl ConnectionHook.onFrame ·) →
    Turn x todo s
  | flushingLast {r} :
    s.conn.pc = .flushingLast r →
    Sent cfg x todo [] s →
    clientBytes s.conn.log = x.answered cfg →
    r.responseHook = x.responseHook cfg →
    Turn x todo s
  | isOver {k d} :
    s.conn.pc = (if x.closes cfg then .finished (.ok ()) else .releasing k d) →
    Sent cfg x todo [] s →
    clientBytes s.conn.log = x.answered cfg →
    s.conn.firstCycle = false →
    Turn x todo s

/-- Where the connection is among its exchanges. -/
inductive Serving (xs : List (Exchange F)) (s : State F H D) : Prop where
  | turn {done x todo} :
    xs = done ++ x :: todo →
    Told cfg done s.conn.past →
    Turn cfg x todo s →
    Serving xs s
  | drained :
    Told cfg xs s.conn.past →
    s.conn.pc = .preRoute →
    s.conn.firstCycle = false →
    Collecting cfg s.conn [] [] [] →
    s.client = [] →
    Serving xs s
  | ended :
    Told cfg xs s.conn.past →
    s.conn.pc = .finished (.ok ()) →
    writes s.conn.log = [] →
    clientBytes s.conn.log = [] →
    Serving xs s

/-! ## What a step is, place by place -/

variable {cfg} {s s' : State F H D} {a : Action D}

/-- In the pre-route loop, the client stream gives an item. -/
lemma step_preRoute (here : s.conn.pc = .preRoute) (st : step cfg s a = some s') :
    s' = s.next .client (s.conn.onPreRoute cfg (s.client.headD none)) := by
  unfold step Service.step at st
  rw [here] at st
  cases a with
  | client => exact (Option.some.inj st).symm
  | _ => cases st

/-- The pool gives a connection, or none and a route is needed. -/
lemma step_acquiring {key : Bytes} (here : s.conn.pc = .acquiring key) (st : step cfg s a = some s') :
    ∃ dest, s' = { s with conn := { s.conn.emit [.acquired key dest] with
      pc := .joining key (dest.map .ok) false, cycle := { s.conn.cycle with needRoute := dest.isNone } } } := by
  unfold step Service.step at st
  rw [here] at st
  cases a with
  | pool dest => exact ⟨dest, (Option.some.inj st).symm⟩
  | _ => cases st

/-- In the join, the client stream gives an item or the router its destination. -/
lemma step_joining {key : Bytes} {dest : Option D} (here : s.conn.pc = .joining key (dest.map .ok) false)
    (st : step cfg s a = some s') :
    s' = s.next .client (s.conn.onPostRoute cfg key (dest.map .ok) (s.client.headD none)) ∨
      ∃ d, s' =
        { s with conn := { s.conn.emit [.routed key (.ok d)] with pc := .joining key (some (.ok d)) false } } := by
  unfold step Service.step at st
  rw [here] at st
  cases a with
  | client => exact .inl (Option.some.inj st).symm
  | route d =>
    cases dest with
    | none => exact .inr ⟨d, (Option.some.inj st).symm⟩
    | some _ => cases st
  | _ => cases dest <;> cases st

/-- Behind the end of the client stream, the router gives its destination. -/
lemma step_collected {key : Bytes} (here : s.conn.pc = .joining key none true) (st : step cfg s a = some s') :
    ∃ d, s' = { s with conn := (s.conn.emit [.routed key (.ok d)]).afterJoin cfg key (.ok d) } := by
  unfold step Service.step at st
  rw [here] at st
  cases a with
  | route d => exact ⟨d, (Option.some.inj st).symm⟩
  | _ => cases st

/-- The request has been written. -/
lemma step_writing {key : Bytes} {d : D} (here : s.conn.pc = .writing key d) (st : step cfg s a = some s') :
    s' = s.next .wrote (s.conn.toRelay cfg key d) := by
  unfold step Service.step at st
  rw [here] at st
  cases a with
  | wrote => exact (Option.some.inj st).symm
  | _ => cases st

/-- In the relay loop, the response stream gives an item. -/
lemma step_relaying {r : Relay H D} (here : s.conn.pc = .relaying r) (st : step cfg s a = some s') :
    s' = s.next .response (s.conn.onRelay cfg r (s.response.head?.map .ok)) := by
  unfold step Service.step at st
  rw [here] at st
  cases a with
  | response => exact (Option.some.inj st).symm
  | _ => cases st

/-- A batch of the response has been written. -/
lemma step_flushing {r : Relay H D} (here : s.conn.pc = .flushing r) (st : step cfg s a = some s') :
    s' = { s with conn := { s.conn with pc := .relaying r } } := by
  unfold step Service.step at st
  rw [here] at st
  cases a with
  | flushed => exact (Option.some.inj st).symm
  | _ => cases st

/-- The last batch has been written. -/
lemma step_flushingLast {r : Relay H D} (here : s.conn.pc = .flushingLast r) (st : step cfg s a = some s') :
    s' = { s with conn := s.conn.endRelay r } := by
  unfold step Service.step at st
  rw [here] at st
  cases a with
  | flushed => exact (Option.some.inj st).symm
  | _ => cases st

/-- The connection goes back to the pool, or is dropped, and the next cycle begins. -/
lemma step_releasing {key : Bytes} {d : D} (here : s.conn.pc = .releasing key d) (st : step cfg s a = some s') :
    ∃ es, s' = { s with conn := (s.conn.emit es).nextCycle cfg } ∧ ∀ e ∈ es, e = .released key d := by
  unfold step Service.step at st
  rw [here] at st
  cases a with
  | release =>
    cases on : cfg.stabling with
    | true =>
      simp only [Action.act, on, if_true, Option.map_some, Option.some.injEq] at st
      exact ⟨[.released key d], st.symm, fun e mem => List.mem_singleton.1 mem⟩
    | false =>
      simp only [Action.act, on, Bool.false_eq_true, if_false, Option.map_some, Option.some.injEq] at st
      refine ⟨[], ?_, nofun⟩
      rw [State.emit, List.append_nil]
      exact st.symm
  | _ => cases st

/-- Behind the return nothing happens. -/
lemma not_step_finished {r : Except RailscaleError Unit} (here : s.conn.pc = .finished r) : step cfg s a ≠ some s' := by
  intro st
  unfold step Service.step at st
  rw [here] at st
  cases a <;> cases st

/-! ## What a step does -/

variable {xs done todo : List (Exchange F)} {x : Exchange F}

omit [Frame F] [ConnectionHook H F] in
/-- The script of an exchange comes in front of the others. -/
lemma script_cons (x : Exchange F) (xs : List (Exchange F)) :
    script (x :: xs) = given (x.pre ++ .parsed x.routing :: x.post) ++ none :: script xs := by
  rw [script, List.flatMap_cons, Exchange.items, List.append_assoc]
  rfl

/-- The cycle behind some exchanges. -/
lemma Serving.begin (told : Told cfg done s.conn.past) (all : xs = done ++ todo) (here : s.conn.pc = .preRoute)
    (later : s.conn.firstCycle = false ∨ todo ≠ []) (coll : Collecting cfg s.conn [] [] [])
    (client : s.client = script todo) (responses : s.later = todo.map Exchange.response) : Serving cfg xs s := by
  cases todo with
  | nil =>
    rw [List.append_nil] at all
    exact .drained (all ▸ told) here (later.resolve_right fun ne => ne rfl) coll client
  | cons x todo => exact .turn all told (.preRoute here rfl coll (client.trans (script_cons x todo)) responses)

/-- An item before the routing frame, or the routing frame itself. -/
lemma Turn.onPreRoute {is js : List (ParsedData F)} (acc : x.Accepted cfg) (here : s.conn.pc = .preRoute)
    (split : x.pre = is ++ js) (coll : Collecting cfg s.conn is [] [])
    (client : s.client = given (js ++ .parsed x.routing :: x.post) ++ none :: script todo)
    (later : s.later = x.response :: todo.map Exchange.response) :
    Turn cfg x todo (s.next .client (s.conn.onPreRoute cfg (s.client.headD none))) := by
  cases js with
  | nil =>
    rw [List.append_nil] at split
    subst split
    have first : s.client.headD none = some (.ok (.parsed x.routing)) := by rw [client]; rfl
    have rest : s.client.tail = given x.post ++ none :: script todo := by rw [client]; rfl
    obtain ⟨key, keyed⟩ := Option.isSome_iff_exists.1 acc.request.routing
    have within : s.conn.cycle.preRouteCumulative + (Frame.asBytes x.routing).length ≤
        cfg.bufferLimits.maxPreRouteBytes := by
      have limit := acc.request.preLimit
      rw [rawLength_append, rawLength_singleton] at limit
      rw [coll.preCumulative]
      exact limit
    rw [first, State.onPreRoute_routed within keyed, State.toAcquire]
    split
    · exact .acquiring rfl (coll.pushPre (.parsed x.routing) rfl rfl rfl rfl rfl rfl) rest later
    · exact .joining (o := none) rfl rfl (coll.pushPre (.parsed x.routing) rfl rfl rfl rfl rfl rfl) rest later
  | cons i js =>
    have first : s.client.headD none = some (.ok i) := by rw [client]; rfl
    have rest : s.client.tail = given (js ++ .parsed x.routing :: x.post) ++ none :: script todo := by
      rw [client]
      rfl
    have limit := acc.request.preLimit
    have within : s.conn.cycle.preRouteCumulative + i.raw.length ≤ cfg.bufferLimits.maxPreRouteBytes := by
      rw [split, List.append_assoc, List.cons_append, rawLength_append, ← List.singleton_append, rawLength_append,
        rawLength_singleton] at limit
      rw [coll.preCumulative]
      omega
    have unkeyed : ∀ f, i.frame? = some f → Frame.routingKey f = none := by
      intro f frame
      refine acc.request.noRouting f (List.mem_filterMap.2 ⟨i, ?_, frame⟩)
      rw [split]
      exact List.mem_append_right _ List.mem_cons_self
    rw [first, State.onPreRoute_kept within unkeyed]
    exact .preRoute here (split.trans (List.append_cons ..)) (coll.pushPre i rfl rfl rfl rfl rfl rfl) rest later

/-- The request is whole, and its destination is there. -/
lemma Turn.afterJoin {t : Service.State F H D} (acc : x.Accepted cfg)
    (coll : Collecting cfg t (x.pre ++ [.parsed x.routing]) x.post [none]) (client : s.client = script todo)
    (later : s.later = x.response :: todo.map Exchange.response) (key : Bytes) (d : D) :
    Turn cfg x todo { s with conn := t.afterJoin cfg key (.ok d) } := by
  have within : t.cycle.postRouteCumulative ≤ cfg.bufferLimits.maxPostRouteBytes := by
    rw [coll.postCumulative]
    exact acc.request.postLimit
  have items : x.pre ++ [.parsed x.routing] ++ x.post = x.request := by
    rw [List.append_assoc]
    rfl
  have hook : t.cycle.hook = x.hook cfg := by
    rw [coll.hook, items]
    rfl
  have valid : ConnectionHook.validate t.cycle.hook = .ok () := by
    rw [hook]
    exact acc.valid
  rw [State.afterJoin_forwarded within valid]
  refine .writing (d := d) rfl hook ?_ client later
  show (writes (t.log ++ t.forwardEvents d)).map Prod.snd = [x.forwarded cfg]
  rw [writes_append, coll.writes_eq, writes_forwardEvents, coll.preBuf, coll.postBuf, ← List.map_append, items,
    ← List.flatMap_def]
  rfl

/-- An item behind the routing frame, or the end of the cycle. -/
lemma Turn.onPostRoute {is js : List (ParsedData F)} {key : Bytes} {dest : Option D} (acc : x.Accepted cfg)
    (here : s.conn.pc = .joining key (dest.map .ok) false) (split : x.post = is ++ js)
    (coll : Collecting cfg s.conn (x.pre ++ [.parsed x.routing]) is [])
    (client : s.client = given js ++ none :: script todo)
    (later : s.later = x.response :: todo.map Exchange.response) :
    Turn cfg x todo (s.next .client (s.conn.onPostRoute cfg key (dest.map .ok) (s.client.headD none))) := by
  cases js with
  | nil =>
    rw [List.append_nil] at split
    subst split
    have first : s.client.headD none = none := by rw [client]; rfl
    have rest : s.client.tail = script todo := by rw [client]; rfl
    have stopped := coll.stopped none
    rw [first]
    cases dest with
    | none => exact .collected rfl { stopped with } rest later
    | some d =>
      exact .afterJoin (s := s.next .client (s.conn.emit [.took none])) acc stopped rest later key d
  | cons i js =>
    have first : s.client.headD none = some (.ok i) := by rw [client]; rfl
    have rest : s.client.tail = given js ++ none :: script todo := by rw [client]; rfl
    have limit := acc.request.postLimit
    have within : s.conn.cycle.postRouteCumulative + i.raw.length ≤ cfg.bufferLimits.maxPostRouteBytes := by
      rw [split, rawLength_append, ← List.singleton_append, rawLength_append, rawLength_singleton] at limit
      rw [coll.postCumulative]
      omega
    rw [first, State.onPostRoute_kept within]
    exact .joining here (split.trans (List.append_cons ..)) (coll.pushPost i rfl rfl rfl rfl rfl rfl) rest later

/-- The response is written. -/
lemma Turn.endRelay {r : Relay H D} (sent : Sent cfg x todo [] s) (bytes : clientBytes s.conn.log = x.answered cfg)
    (hook : r.responseHook = x.responseHook cfg) : Turn cfg x todo { s with conn := s.conn.endRelay r } := by
  have closes : s.conn.shouldClose r = x.closes cfg := by
    rw [State.shouldClose, sent.hook, hook, Exchange.closes]
  rw [State.endRelay, State.endCycle, closes]
  cases close : x.closes cfg with
  | true => exact .isOver (k := r.key) (d := r.dest) (by rw [close]; rfl) { sent with } bytes rfl
  | false => exact .isOver (k := r.key) (d := r.dest) (by rw [close]; rfl) { sent with } bytes rfl

/-- A flush leaves the rest of the response as it is. -/
lemma Sent.flush {rest : List (ParsedData F)} (sent : Sent cfg x todo rest s) (bs : Bytes) (pc : Pc H D) :
    Sent cfg x todo rest
      { s with conn := { s.conn.emit [.captureResponse bs, .clientWrite bs] with pc := pc } } := by
  refine { sent with wrote := ?_ }
  show (writes (s.conn.log ++ _)).map Prod.snd = _
  rw [writes_append, ← sent.wrote]
  exact congrArg _ (List.append_nil _)

omit [Frame F] in
/-- What the hook of the response makes of an item. -/
lemma responseHook_item {h h0 : Option H} {is : List (ParsedData F)}
    (hook : h = h0.map ((frames is).foldl ConnectionHook.onFrame ·)) (i : ParsedData F) :
    (match i with
      | .parsed f => h.map (ConnectionHook.onFrame · f)
      | .passthrough _ => h) = h0.map ((frames (is ++ [i])).foldl ConnectionHook.onFrame ·) := by
  rw [hook, frames_append, frames_singleton]
  cases i with
  | parsed f =>
    dsimp only
    rw [Option.map_map]
    refine congrArg (Option.map · h0) (funext fun h1 => ?_)
    show [f].foldl ConnectionHook.onFrame ((frames is).foldl ConnectionHook.onFrame h1) = _
    exact List.foldl_append.symm
  | passthrough bs => rw [ParsedData.frame?, Option.toList_none, List.append_nil]

/-- An item of the response, or its end. -/
lemma Turn.onRelay {r : Relay H D} {is js : List (ParsedData F)}
    (split : x.response = is ++ js) (sent : Sent cfg x todo js s)
    (bytes : clientBytes s.conn.log ++ r.batch = relayed cfg is)
    (hook : r.responseHook = cfg.responseHookFactory.map ((frames is).foldl ConnectionHook.onFrame ·)) :
    Turn cfg x todo (s.next .response (s.conn.onRelay cfg r (s.response.head?.map .ok))) := by
  cases js with
  | nil =>
    rw [List.append_nil] at split
    subst split
    have stays : s.next .response = fun conn => { s with conn := conn } := by
      funext conn
      show { s with conn := conn, response := s.response.tail } = _
      rw [sent.response]
      rfl
    rw [sent.response, stays]
    unfold State.onRelay
    dsimp only [List.head?_nil, Option.map_none]
    split
    · refine .flushingLast rfl (sent.flush _ _) ?_ hook
      show clientBytes (s.conn.log ++ _) = _
      rw [clientBytes_append, Exchange.answered, ← bytes]
      exact congrArg _ (List.append_nil _)
    · rename_i empty
      have nothing : r.batch = [] := List.eq_nil_of_length_eq_zero (Nat.eq_zero_of_not_pos empty)
      rw [nothing, List.append_nil] at bytes
      exact .endRelay sent bytes hook
  | cons i js =>
    have split' : x.response = is ++ [i] ++ js := split.trans (List.append_cons ..)
    have response : s.response.tail = js := by rw [sent.response]; rfl
    have rest : Sent cfg x todo js { s with response := s.response.tail } := { sent with response := response }
    have bytes' : clientBytes s.conn.log ++ (r.batch ++ i.output (cfg.responsePipeline.getD id)) =
        relayed cfg (is ++ [i]) := by
      rw [← List.append_assoc, bytes, relayed, relayed, List.flatMap_append, List.flatMap_singleton]
    rw [sent.response]
    unfold State.onRelay
    dsimp only [List.head?_cons, Option.map_some]
    split
    · refine .relaying (.inr rfl) split' (rest.flush _ _) ?_ (responseHook_item hook i)
      show clientBytes (s.conn.log ++ _) ++ [] = _
      rw [clientBytes_append, List.append_nil, ← bytes']
      exact congrArg _ (List.append_nil _)
    · exact .relaying (.inl rfl) split' { rest with } bytes' (responseHook_item hook i)

/-- An exchange that is over. -/
lemma Turn.over (turn : Turn cfg x todo s) (isOver : s.conn.pc.Over) :
    ∃ k d, s.conn.pc = (if x.closes cfg then .finished (.ok ()) else .releasing k d) ∧ Sent cfg x todo [] s ∧
      clientBytes s.conn.log = x.answered cfg ∧ s.conn.firstCycle = false := by
  cases turn with
  | isOver here sent bytes later => exact ⟨_, _, here, sent, bytes, later⟩
  | relaying here _ _ _ _ =>
    rcases here with here | here
    · exact (here ▸ isOver : (Pc.relaying _ : Pc H D).Over).elim
    · exact (here ▸ isOver : (Pc.flushing _ : Pc H D).Over).elim
  | preRoute here _ _ _ _ => exact (here ▸ isOver : (Pc.preRoute : Pc H D).Over).elim
  | acquiring here _ _ _ => exact (here ▸ isOver : (Pc.acquiring _ : Pc H D).Over).elim
  | joining here _ _ _ _ => exact (here ▸ isOver : (Pc.joining _ _ _ : Pc H D).Over).elim
  | collected here _ _ _ => exact (here ▸ isOver : (Pc.joining _ _ _ : Pc H D).Over).elim
  | writing here _ _ _ _ => exact (here ▸ isOver : (Pc.writing _ _ : Pc H D).Over).elim
  | flushingLast here _ _ _ => exact (here ▸ isOver : (Pc.flushingLast _ : Pc H D).Over).elim

/-- A step within an exchange. -/
lemma Turn.step (parser : cfg.responseParser = true) (acc : x.Accepted cfg) (unwritten : Unwritten s.conn)
    (going : ¬ s.conn.pc.Over) (turn : Turn cfg x todo s) (st : step cfg s a = some s') : Turn cfg x todo s' := by
  cases turn with
  | preRoute here split coll client later =>
    rw [step_preRoute here st]
    exact .onPreRoute acc here split coll client later
  | acquiring here coll client later =>
    obtain ⟨dest, rfl⟩ := step_acquiring here st
    refine .joining (o := dest) rfl (List.nil_append _).symm ?_ client later
    exact coll.quiet (quiet_singleton (e := .acquired _ dest) trivial) rfl rfl rfl rfl rfl rfl
  | joining here split coll client later =>
    rcases step_joining here st with rfl | ⟨d, rfl⟩
    · exact .onPostRoute acc here split coll client later
    · refine .joining (o := some d) rfl split ?_ client later
      exact coll.quiet (quiet_singleton (e := .routed _ (.ok d)) trivial) rfl rfl rfl rfl rfl rfl
  | collected here coll client later =>
    obtain ⟨d, rfl⟩ := step_collected here st
    refine .afterJoin (t := s.conn.emit [.routed _ (.ok d)]) acc ?_ client later _ d
    exact coll.quiet (quiet_singleton (e := .routed _ (.ok d)) trivial) rfl rfl rfl rfl rfl rfl
  | writing here hook wrote client later =>
    rw [step_writing here st, State.toRelay, if_pos parser]
    have response : s.later.headD [] = x.response := by rw [later]; rfl
    have rest : s.later.tail = todo.map Exchange.response := by rw [later]; rfl
    have silent : clientBytes s.conn.log = [] := unwritten (here ▸ trivial)
    refine .relaying (.inl rfl) (List.nil_append _).symm ⟨hook, wrote, client, response, rest⟩ ?_ ?_
    · exact (List.append_nil _).trans silent
    · exact (congrFun Option.map_id _).symm
  | relaying here split sent bytes hook =>
    rcases here with here | here
    · rw [step_relaying here st]
      exact .onRelay split sent bytes hook
    · rw [step_flushing here st]
      exact .relaying (.inl rfl) split { sent with } bytes hook
  | flushingLast here sent bytes hook =>
    rw [step_flushingLast here st]
    exact .endRelay sent bytes hook
  | isOver here _ _ _ =>
    refine absurd ?_ going
    rw [here]
    split
    · trivial
    · trivial

omit [ConnectionHook H F] in
/-- One more exchange has been told. -/
lemma Told.concat {logs : List (List (Event F H D))} {log : List (Event F H D)} (told : Told cfg done logs)
    (wrote : (writes log).map Prod.snd = [x.forwarded cfg]) (bytes : clientBytes log = x.answered cfg) :
    Told cfg (done ++ [x]) (logs ++ [log]) := by
  refine ⟨?_, ?_⟩
  · rw [List.map_append, told.1, List.map_append, List.map_singleton, wrote]
    rfl
  · rw [List.map_append, told.2, List.map_append, List.map_singleton, bytes]
    rfl

/-- A step leads on among the exchanges. -/
theorem Serving.step (parser : cfg.responseParser = true) (accepted : ∀ x ∈ xs, x.Accepted cfg)
    (unwritten : Unwritten s.conn) (serving : Serving cfg xs s) (st : step cfg s a = some s') : Serving cfg xs s' := by
  obtain ⟨conn, move, same⟩ := Option.map_eq_some_iff.1 st
  have conn_eq : s'.conn = conn := by
    rw [← same]
    cases a <;> rfl
  cases serving with
  | @turn done x todo all told turn =>
    have acc : x.Accepted cfg := by
      refine accepted x ?_
      rw [all]
      exact List.mem_append_right _ List.mem_cons_self
    by_cases isOver : s.conn.pc.Over
    · obtain ⟨k, d, here, sent, bytes, later⟩ := turn.over isOver
      cases closes : x.closes cfg with
      | true =>
        rw [closes, if_pos rfl] at here
        exact absurd st (not_step_finished here)
      | false =>
        rw [closes, if_neg Bool.false_ne_true] at here
        obtain ⟨es, rfl, released⟩ := step_releasing here st
        have silent : writes es = [] ∧ clientBytes es = [] := by
          constructor
          · refine List.filterMap_eq_nil_iff.2 fun e mem => ?_
            rw [released e mem]
          · refine List.flatMap_eq_nil_iff.2 fun e mem => ?_
            rw [released e mem]
        have fresh : Collecting cfg ((s.conn.emit es).nextCycle cfg) [] [] [] := by constructor <;> rfl
        refine Serving.begin (told.concat (x := x) ?_ ?_) ?_ rfl (.inl later) fresh sent.client sent.later
        · show (writes (s.conn.log ++ es)).map Prod.snd = _
          rw [writes_append, silent.1, List.append_nil, sent.wrote]
        · show clientBytes (s.conn.log ++ es) = _
          rw [clientBytes_append, silent.2, List.append_nil, bytes]
        · rw [all, List.append_assoc]
          rfl
    · have past : s'.conn.past = s.conn.past := by
        rw [conn_eq]
        refine (step_advances move ?_).past
        intro release
        rw [release] at move
        cases step_cases move with
        | released here _ => exact isOver (here ▸ trivial)
        | dropped here _ => exact isOver (here ▸ trivial)
      exact .turn all (past ▸ told) (turn.step parser acc unwritten isOver st)
  | drained told here later coll client =>
    obtain rfl := step_preRoute here st
    have first : s.client.headD none = none := by rw [client]; rfl
    have empty : (s.conn.emit [.took none]).cycle.preRouteBuf = [] := coll.preBuf
    rw [first]
    have returns : s.conn.onPreRoute cfg none = (s.conn.emit [.took none]).finish {} (.ok ()) := by
      show (s.conn.emit [.took none]).endPreRoute cfg false = _
      rw [State.endPreRoute, empty]
      show (if (false || (!s.conn.firstCycle && true)) = true then _ else _) = _
      rw [later]
      rfl
    rw [returns]
    refine .ended told rfl ?_ ?_
    · show writes (s.conn.log ++ [.took none]) = []
      rw [writes_append, coll.writes_eq]
      rfl
    · show clientBytes (s.conn.log ++ [.took none]) = []
      rw [clientBytes_append, unwritten (here ▸ trivial)]
      rfl
  | ended _ here _ _ => exact absurd st (not_step_finished here)

/-! ## The end of a run -/

/-- The end is the only place without a rank. -/
lemma finished_of_rank {pc : Pc H D} (zero : pc.rank = 0) : ∃ r, pc = .finished r := by
  unfold Pc.rank at zero
  split at zero <;> first | exact ⟨_, rfl⟩ | cases zero

/-- What bounds the rest of a run: the place, and what the streams still give. -/
def potential (s : State F H D) : Nat :=
  s.conn.pc.rank + (s.client.map Item.worth).sum + 2 * (s.response.length + (s.later.map List.length).sum)

/-- Every step uses up some of the potential. -/
lemma potential_step (st : step cfg s a = some s') : potential s' + 1 ≤ potential s := by
  obtain ⟨conn, move, rfl⟩ := Option.map_eq_some_iff.1 st
  -- only the items of the two streams add to the rank, and they are paid for
  have other : (∀ o, a.act s ≠ .clientItem o) → (a.act s).isResponseItem = false →
      conn.pc.rank + 1 ≤ s.conn.pc.rank := by
    intro other silent
    have rank := rank_other other move
    rw [silent] at rank
    exact rank
  cases a with
  | client =>
    have rank := rank_clientItem move
    have client : (s.client.map Item.worth).sum =
        (s.client.headD none).worth + (s.client.tail.map Item.worth).sum := by
      cases s.client with
      | nil => rfl
      | cons o os => exact List.sum_cons
    simp only [potential, State.next]
    omega
  | response =>
    have rank := rank_other (a := Action.act s .response) (by rintro _ ⟨⟩) move
    simp only [potential, State.next]
    cases response : s.response with
    | nil =>
      have given : (Action.act s (.response : Action D)).isResponseItem = false := by rw [Action.act, response]; rfl
      rw [given] at rank
      simp only [List.tail_nil, Bool.false_eq_true, if_false] at rank ⊢
      omega
    | cons i is =>
      have given : (Action.act s (.response : Action D)).isResponseItem = true := by rw [Action.act, response]; rfl
      rw [given] at rank
      simp only [List.tail_cons, List.length_cons, if_true] at rank ⊢
      omega
  | wrote =>
    have rank := other (by rintro _ ⟨⟩) rfl
    have later : (s.later.headD []).length + (s.later.tail.map List.length).sum = (s.later.map List.length).sum := by
      cases s.later with
      | nil => rfl
      | cons is later => exact List.sum_cons.symm
    simp only [potential, State.next]
    omega
  | pool _ | route _ | flushed | release =>
    have rank := other (by rintro _ ⟨⟩) rfl
    simp only [potential, State.next]
    omega

/-- What was written to the destinations in some cycles. -/
def wrote (logs : List (List (Event F H D))) : List Bytes := logs.flatMap fun log => (writes log).map Prod.snd

/-- What was written to the client in some cycles. -/
def heard (logs : List (List (Event F H D))) : Bytes := logs.flatMap clientBytes

/-- The logs of the cycles of the connection. -/
def State.logs (s : State F H D) : List (List (Event F H D)) := s.conn.past ++ [s.conn.log]

omit [ConnectionHook H F] in
/-- What was written to the destinations, exchange by exchange. -/
lemma Told.wrote {logs : List (List (Event F H D))} (told : Told cfg xs logs) :
    Script.wrote logs = xs.map (·.forwarded cfg) := by
  rw [Script.wrote, List.flatMap_def, told.1, ← List.flatMap_def, List.map_eq_flatMap]

omit [ConnectionHook H F] in
/-- What was written to the client, exchange by exchange. -/
lemma Told.heard {logs : List (List (Event F H D))} (told : Told cfg xs logs) :
    Script.heard logs = xs.flatMap (·.answered cfg) := by
  rw [Script.heard, List.flatMap_def, told.2, ← List.flatMap_def]

/-- What was written in the cycle is the beginning of what the exchange comes to. -/
lemma Turn.written (unwritten : Unwritten s.conn) (turn : Turn cfg x todo s) :
    (writes s.conn.log).map Prod.snd <+: [x.forwarded cfg] ∧ clientBytes s.conn.log <+: x.answered cfg := by
  have collecting : ∀ {pre post : List (ParsedData F)} {stop : List (Item F)},
      Collecting cfg s.conn pre post stop → s.conn.pc.Early →
      (writes s.conn.log).map Prod.snd <+: [x.forwarded cfg] ∧ clientBytes s.conn.log <+: x.answered cfg := by
    intro pre post stop coll early
    rw [coll.writes_eq, unwritten early]
    exact ⟨List.nil_prefix, List.nil_prefix⟩
  cases turn with
  | preRoute here _ coll _ _ => exact collecting coll (here ▸ trivial)
  | acquiring here coll _ _ => exact collecting coll (here ▸ trivial)
  | joining here _ coll _ _ => exact collecting coll (here ▸ trivial)
  | collected here coll _ _ => exact collecting coll (here ▸ trivial)
  | writing here _ wrote _ _ =>
    rw [wrote, unwritten (here ▸ trivial)]
    exact ⟨List.prefix_rfl, List.nil_prefix⟩
  | @relaying r is js _ split sent bytes _ =>
    have whole : x.answered cfg = clientBytes s.conn.log ++ (r.batch ++ relayed cfg js) := by
      rw [Exchange.answered, split, ← List.append_assoc, bytes, relayed, relayed, relayed, List.flatMap_append]
    rw [sent.wrote, whole]
    exact ⟨List.prefix_rfl, List.prefix_append _ _⟩
  | flushingLast _ sent bytes _ =>
    rw [sent.wrote, bytes]
    exact ⟨List.prefix_rfl, List.prefix_rfl⟩
  | isOver _ sent bytes _ =>
    rw [sent.wrote, bytes]
    exact ⟨List.prefix_rfl, List.prefix_rfl⟩

omit [Frame F] [ConnectionHook H F] in
/-- What was written in cycles behind others. -/
@[simp] lemma wrote_append (ls ms : List (List (Event F H D))) : wrote (ls ++ ms) = wrote ls ++ wrote ms :=
  List.flatMap_append

omit [Frame F] [ConnectionHook H F] in
/-- What was heard in cycles behind others. -/
@[simp] lemma heard_append (ls ms : List (List (Event F H D))) : heard (ls ++ ms) = heard ls ++ heard ms :=
  List.flatMap_append

omit [Frame F] [ConnectionHook H F] in
/-- What was written in the past cycles and in the current one. -/
lemma wrote_logs (s : State F H D) : wrote s.logs = wrote s.conn.past ++ (writes s.conn.log).map Prod.snd := by
  rw [State.logs, wrote_append, wrote, wrote, List.flatMap_singleton]

omit [Frame F] [ConnectionHook H F] in
/-- What was heard in the past cycles and in the current one. -/
lemma heard_logs (s : State F H D) : heard s.logs = heard s.conn.past ++ clientBytes s.conn.log := by
  rw [State.logs, heard_append, heard, heard, List.flatMap_singleton]

/-- What was written is the beginning of what the exchanges come to. -/
lemma Serving.written (unwritten : Unwritten s.conn) (serving : Serving cfg xs s) :
    wrote s.logs <+: xs.map (·.forwarded cfg) ∧ heard s.logs <+: xs.flatMap (·.answered cfg) := by
  rw [wrote_logs, heard_logs]
  cases serving with
  | @turn done x todo all told turn =>
    obtain ⟨wrote, heard⟩ := turn.written unwritten
    have split : done ++ x :: todo = done ++ [x] ++ todo := List.append_cons ..
    rw [all, split, told.wrote, told.heard, List.map_append, List.map_append, List.flatMap_append, List.flatMap_append,
      List.flatMap_singleton]
    constructor
    · exact ((List.prefix_append_right_inj _).2 wrote).trans (List.prefix_append _ _)
    · exact ((List.prefix_append_right_inj _).2 heard).trans (List.prefix_append _ _)
  | drained told here _ coll _ =>
    rw [told.wrote, told.heard, coll.writes_eq, unwritten (here ▸ trivial), List.map_nil, List.append_nil,
      List.append_nil]
    exact ⟨List.prefix_rfl, List.prefix_rfl⟩
  | ended told _ wrote heard =>
    rw [told.wrote, told.heard, wrote, heard, List.map_nil, List.append_nil, List.append_nil]
    exact ⟨List.prefix_rfl, List.prefix_rfl⟩

/-- A connection that has returned has served every exchange. -/
lemma Serving.finished (kept : ∀ x ∈ xs.dropLast, x.closes cfg = false) {r : Except RailscaleError Unit}
    (stops : s.conn.pc = .finished r) (serving : Serving cfg xs s) :
    r = .ok () ∧ wrote s.logs = xs.map (·.forwarded cfg) ∧ heard s.logs = xs.flatMap (·.answered cfg) := by
  rw [wrote_logs, heard_logs]
  cases serving with
  | @turn done x todo all told turn =>
    obtain ⟨k, d, here, sent, bytes, -⟩ := turn.over (stops ▸ trivial)
    cases closes : x.closes cfg with
    | false =>
      rw [closes, if_neg Bool.false_ne_true, stops] at here
      cases here
    | true =>
      rw [closes, if_pos rfl, stops] at here
      obtain rfl := Pc.finished.inj here
      -- only the last exchange closes the connection
      obtain rfl : todo = [] := by
        by_contra more
        have mem : x ∈ xs.dropLast := by
          rw [all, List.dropLast_append_of_ne_nil (List.cons_ne_nil x todo), List.dropLast_cons_of_ne_nil more]
          exact List.mem_append_right _ List.mem_cons_self
        cases closes.symm.trans (kept x mem)
      have whole := told.concat sent.wrote bytes
      rw [← all] at whole
      refine ⟨rfl, ?_, ?_⟩
      · rw [← whole.wrote, wrote_append, wrote, wrote, List.flatMap_singleton]
      · rw [← whole.heard, heard_append, heard, heard, List.flatMap_singleton]
  | drained _ here _ _ _ => cases stops.symm.trans here
  | ended told here wrote heard =>
    obtain rfl := Pc.finished.inj (stops.symm.trans here)
    refine ⟨rfl, ?_, ?_⟩
    · rw [told.wrote, wrote, List.map_nil, List.append_nil]
    · rw [told.heard, heard, List.append_nil]

/-- A step that the connection can take is a step of the script. -/
lemma exists_step (a : Action D) (can : (Service.step cfg s.conn (a.act s)).isSome = true) :
    ∃ a s', step cfg s a = some s' := by
  obtain ⟨conn, move⟩ := Option.isSome_iff_exists.1 can
  exact ⟨a, s.next a conn, by rw [step, move, Option.map_some]⟩

/-- What the connection awaits comes. -/
lemma Turn.goes [Inhabited D] (turn : Turn cfg x todo s) :
    s.conn.pc = .finished (.ok ()) ∨ ∃ a s', Script.step cfg s a = some s' := by
  cases turn with
  | preRoute here _ _ _ _ => exact .inr (exists_step .client (by unfold Service.step; rw [here]; rfl))
  | acquiring here _ _ _ => exact .inr (exists_step (.pool none) (by unfold Service.step; rw [here]; rfl))
  | joining here _ _ _ _ => exact .inr (exists_step .client (by unfold Service.step; rw [here]; rfl))
  | collected here _ _ _ => exact .inr (exists_step (.route default) (by unfold Service.step; rw [here]; rfl))
  | writing here _ _ _ _ => exact .inr (exists_step .wrote (by unfold Service.step; rw [here]; rfl))
  | relaying here _ _ _ _ =>
    rcases here with here | here
    · exact .inr (exists_step .response (by unfold Service.step; rw [here]; rfl))
    · exact .inr (exists_step .flushed (by unfold Service.step; rw [here]; rfl))
  | flushingLast here _ _ _ => exact .inr (exists_step .flushed (by unfold Service.step; rw [here]; rfl))
  | isOver here _ _ _ =>
    cases closes : x.closes cfg with
    | true =>
      rw [closes, if_pos rfl] at here
      exact .inl here
    | false =>
      rw [closes, if_neg Bool.false_ne_true] at here
      cases stabling : cfg.stabling with
      | true => exact .inr (exists_step .release (by unfold Service.step; rw [here]; simp [Action.act, stabling]))
      | false => exact .inr (exists_step .release (by unfold Service.step; rw [here]; simp [Action.act, stabling]))

/-- A connection that serves has returned, or it can go on. -/
lemma Serving.goes [Inhabited D] (serving : Serving cfg xs s) :
    s.conn.pc = .finished (.ok ()) ∨ ∃ a s', Script.step cfg s a = some s' := by
  cases serving with
  | turn _ _ turn => exact turn.goes
  | drained _ here _ _ _ => exact .inr (exists_step .client (by unfold Service.step; rw [here]; rfl))
  | ended _ here _ _ => exact .inl here

/-- What the steps keep. -/
def Inv (cfg : Config F H) (xs : List (Exchange F)) (s : State F H D) : Prop := Unwritten s.conn ∧ Serving cfg xs s

/-- Every step keeps the invariant. -/
lemma Inv.step (parser : cfg.responseParser = true) (accepted : ∀ x ∈ xs, x.Accepted cfg) (inv : Inv cfg xs s)
    (st : Script.step cfg s a = some s') : Inv cfg xs s' := by
  refine ⟨?_, inv.2.step parser accepted inv.1 st⟩
  obtain ⟨conn, move, rfl⟩ := Option.map_eq_some_iff.1 st
  have still : Unwritten conn := step_unwritten inv.1 move
  cases a <;> exact still

/-- So does every run. -/
lemma inv_of_run (parser : cfg.responseParser = true) (some_exchange : xs ≠ []) (accepted : ∀ x ∈ xs, x.Accepted cfg)
    {as : List (Action D)} (run : Run (step cfg) (.init cfg xs) as s) : Inv cfg xs s := by
  have fresh : Collecting cfg (.init cfg : Service.State F H D) [] [] [] := by constructor <;> rfl
  have told : Told cfg [] (State.init cfg xs : State F H D).conn.past := ⟨rfl, rfl⟩
  have start : Serving cfg xs (.init cfg xs : State F H D) :=
    .begin told rfl rfl (.inr some_exchange) fresh rfl rfl
  exact run.invariant (fun _ _ _ inv st => inv.step parser accepted st) ⟨fun _ => rfl, start⟩

/-- A connection that is served leads on to its return. -/
lemma exists_finished [Inhabited D] (parser : cfg.responseParser = true) (accepted : ∀ x ∈ xs, x.Accepted cfg)
    (inv : Inv cfg xs s) : ∃ bs s', Run (step cfg) s bs s' ∧ s'.conn.pc = .finished (.ok ()) :=
  Run.exists_final (I := Inv cfg xs) (fun _ _ _ inv st => inv.step parser accepted st) (fun _ _ _ => potential_step)
    (fun _ inv => inv.2.goes) inv

/-- A connection whose client stream gives the requests of some exchanges, with `None` behind each, and whose response
streams give their responses and then `None` serves them in order, when the router and the writes succeed, the requests
are accepted, and at most the last exchange asks to close the connection. At every moment of every run it has written to
the destinations the beginning of what the requests come to, one write a request, and to the client the beginning of
what the responses come to. When it returns, it returns well and has written both whole. Every run leads on to its
return, and no run goes on for ever. -/
theorem serves_of_run [Inhabited D] {cfg : Config F H} (parser : cfg.responseParser = true) {xs : List (Exchange F)}
    (some_exchange : xs ≠ []) (accepted : ∀ x ∈ xs, x.Accepted cfg) (kept : ∀ x ∈ xs.dropLast, x.closes cfg = false)
    {as : List (Action D)} {s : State F H D} (run : Run (step cfg) (.init cfg xs) as s) :
    (wrote s.logs <+: xs.map (·.forwarded cfg) ∧ heard s.logs <+: xs.flatMap (·.answered cfg)) ∧
      (∀ r, s.conn.pc = .finished r →
        r = .ok () ∧ wrote s.logs = xs.map (·.forwarded cfg) ∧ heard s.logs = xs.flatMap (·.answered cfg)) ∧
      (∃ bs s', Run (step cfg) s bs s' ∧ s'.conn.pc = .finished (.ok ())) ∧
      as.length ≤ potential (.init cfg xs : State F H D) := by
  obtain ⟨unwritten, serving⟩ := inv_of_run parser some_exchange accepted run
  refine ⟨serving.written unwritten, fun r stops => serving.finished kept stops, ?_, ?_⟩
  · exact exists_finished parser accepted ⟨unwritten, serving⟩
  · have pays : as.length + potential s ≤ potential (.init cfg xs) + 0 * as.countP (fun _ => false) :=
      run.length_le fun _ _ _ => potential_step
    omega

end machine

section http

open Http

/-- Two requests on one connection, the second of which closes it. -/
def httpExchanges : List (Exchange HttpFrame) :=
  [⟨[], .requestLine (Bytes.lit "POST / HTTP/1.1\r\n"),
      [.parsed (.header (Bytes.lit "Content-Length: 1\r\n")), .passthrough (Bytes.lit "\r\nx")], okItems⟩,
    ⟨[], .requestLine (Bytes.lit "GET / HTTP/1.1\r\n"),
      [.parsed (.header (Bytes.lit "Connection: close\r\n")), .passthrough (Bytes.lit "\r\n")], okItems⟩]

/-- The connection serves them. The router answers before the first request is whole, and after the second. -/
def httpActions : List (Action Nat) :=
  [.client, .client, .route 7, .client, .client, .wrote, .response, .response, .response, .flushed, .release,
    .client, .client, .client, .client, .route 8, .wrote, .response, .response, .response, .flushed]

/-- The run of these actions, and what it has written. -/
theorem serves_of_run_http :
    ∃ s : State HttpFrame HttpDeriverHook Nat,
      Run (step relayConfig) (.init relayConfig httpExchanges) httpActions s ∧ s.conn.pc = .finished (.ok ()) ∧
        wrote s.logs = [Bytes.lit "POST / HTTP/1.1\r\nContent-Length: 1\r\n\r\nx",
          Bytes.lit "GET / HTTP/1.1\r\nConnection: close\r\n\r\n"] ∧
        heard s.logs = Bytes.lit "HTTP/1.1 200 OK\r\n\r\nokHTTP/1.1 200 OK\r\n\r\nok" := by
  have run : Run (step relayConfig) (.init relayConfig httpExchanges) httpActions _ := .of_exec rfl
  have accepted : ∀ x ∈ httpExchanges, x.Accepted relayConfig := by
    intro x mem
    rcases List.mem_cons.1 mem with rfl | mem
    · exact ⟨⟨by decide, by decide, by decide, by decide⟩, by rfl⟩
    · obtain rfl := List.mem_singleton.1 mem
      exact ⟨⟨by decide, by decide, by decide, by decide⟩, by rfl⟩
  have kept : ∀ x ∈ httpExchanges.dropLast, x.closes relayConfig = false := by decide +kernel
  obtain ⟨-, whole, -, -⟩ := serves_of_run rfl (List.cons_ne_nil _ _) accepted kept run
  obtain ⟨-, wrote, heard⟩ := whole _ rfl
  exact ⟨_, run, rfl, wrote.trans (by decide +kernel), heard.trans (by decide +kernel)⟩

end http

end Script

end Railscale
