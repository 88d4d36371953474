import Railscale.Atom.Frame

/-!
# One connection

Model of `Pipeline::do_connection` of `train_track/src/core/service.rs` as a machine: a state holds the
local variables of the loop and the place where it awaits something, an action is what it gets there,
and `step` runs the code up to the next place. The two futures of `tokio::join!` are two kinds of
actions in one place, so that they interleave in every way. What the loop does to the world is logged,
one log a cycle. Durations and the counters of `otel` are left out.
-/

namespace Railscale

/-- Rust `BufferLimits`. -/
structure BufferLimits where
  maxPreRouteBytes : Nat
  maxPostRouteBytes : Nat

/-- Rust `ConnectionResult`, without its durations. -/
structure ConnectionResult where
  frameCount : Nat := 0
  responseBytes : Nat := 0
  requestBytes : Nat := 0
  routed : Bool := false
  deriving DecidableEq

/-- Rust `ConnectionResult::accumulate`. -/
def ConnectionResult.accumulate (total cr : ConnectionResult) : ConnectionResult where
  frameCount := total.frameCount + cr.frameCount
  responseBytes := total.responseBytes + cr.responseBytes
  requestBytes := total.requestBytes + cr.requestBytes
  routed := total.routed || cr.routed

namespace Service

/-- What `do_connection` is called with. A factory is the value it makes. -/
structure Config (F H : Type) where
  process : F → F
  hookFactory : H
  bufferLimits : BufferLimits
  errorResponder : Option (RailscaleError → Bytes) := none
  responseParser : Bool := false
  responsePipeline : Option (F → F) := none
  responseHookFactory : Option H := none
  stabling : Bool := false

/-- What a stream gives when it is awaited. -/
abbrev Item (F : Type) := Option (Except RailscaleError (ParsedData F))

/-- What a stream with the errors of its transport gives. -/
def Item.ofIo {F : Type} (o : Option (Except IoError (ParsedData F))) : Item F :=
  o.map (·.mapError RailscaleError.ofIo)

/-- What the loop does and sees, in order. -/
inductive Event (F H D : Type) where
  | took (o : Item F)
  | onFrame (f : F)
  | acquired (key : Bytes) (dest : Option D)
  | routed (key : Bytes) (r : Except RailscaleError D)
  | validated (hook : H) (r : Except RailscaleError Unit)
  | upstreamOpen
  | captureRequest (bs : Bytes)
  | destWrite (dest : D) (bs : Bytes)
  | captureResponse (bs : Bytes)
  | clientWrite (bs : Bytes)
  | errorResponse (bs : Bytes)
  | released (key : Bytes) (dest : D)

/-- The local variables of one cycle. -/
structure Cycle (H : Type) where
  hook : H
  frameCount : Nat
  requestBytes : Nat
  preRouteCumulative : Nat
  preRouteBuf : List Bytes
  postRouteCumulative : Nat
  postRouteBuf : List Bytes
  needRoute : Bool

/-- The local variables of the relay. -/
structure Relay (H D : Type) where
  key : Bytes
  dest : D
  responseHook : Option H
  respBytes : Nat
  batch : Bytes

/-- The places where the loop awaits something. -/
inductive Pc (H D : Type) where
  | preRoute
  | acquiring (key : Bytes)
  | joining (key : Bytes) (dest : Option (Except RailscaleError D)) (collected : Bool)
  | writing (key : Bytes) (dest : D)
  | relaying (r : Relay H D)
  | flushing (r : Relay H D)
  | flushingLast (r : Relay H D)
  | flushingError (r : Relay H D) (e : RailscaleError)
  | copying (key : Bytes) (dest : D)
  | releasing (key : Bytes) (dest : D)
  | finished (r : Except RailscaleError Unit)

/-- The places where an item of the client is awaited. -/
def awaitsClient {H D : Type} : Pc H D → Bool
  | .preRoute => true
  | .joining _ _ false => true
  | _ => false

/-- A connection: the place, the variables and the logs of the cycles. -/
structure State (F H D : Type) where
  pc : Pc H D
  cycle : Cycle H
  firstCycle : Bool
  total : ConnectionResult
  log : List (Event F H D)
  past : List (List (Event F H D))

/-- What is awaited: an item of the client stream, the pool, the router, the write to the destination,
an item of the response stream, a write to the client, the copy of a raw response, and the call of
`release`. -/
inductive Action (F D : Type) where
  | clientItem (o : Item F)
  | acquired (dest : Option D)
  | routed (r : Except RailscaleError D)
  | wrote (r : Except RailscaleError Unit)
  | responseItem (o : Item F)
  | clientWrote (r : Except RailscaleError Unit)
  | copied (r : Except RailscaleError Nat)
  | release

section machine

variable {F H D : Type} [Frame F] [ConnectionHook H F] (cfg : Config F H)

/-- The variables at the top of the loop. -/
def Cycle.new : Cycle H where
  hook := cfg.hookFactory
  frameCount := 0
  requestBytes := 0
  preRouteCumulative := 0
  preRouteBuf := []
  postRouteCumulative := 0
  postRouteBuf := []
  needRoute := false

/-- The `ConnectionResult` of a cycle. -/
def Cycle.result (c : Cycle H) (routed : Bool) (responseBytes : Nat) : ConnectionResult where
  frameCount := c.frameCount
  responseBytes := responseBytes
  requestBytes := c.requestBytes
  routed := routed

/-- A connection before its first cycle. -/
def State.init : State F H D where
  pc := .preRoute
  cycle := .new cfg
  firstCycle := true
  total := {}
  log := []
  past := []

namespace State

variable (s : State F H D)

/-- Log something. -/
def emit (es : List (Event F H D)) : State F H D := { s with log := s.log ++ es }

/-- Return from `do_connection`. -/
def finish (cr : ConnectionResult) (r : Except RailscaleError Unit) : State F H D :=
  { s with pc := .finished r, total := s.total.accumulate cr }

/-- Rust `write_error_response`. -/
def writeErrorResponse (err : RailscaleError) : State F H D :=
  match cfg.errorResponder with
  | some responder => s.emit [.errorResponse (responder err)]
  | none => s

/-- Answer an error and return it. -/
def fail (cr : ConnectionResult) (err : RailscaleError) : State F H D :=
  (s.writeErrorResponse cfg err).finish cr (.error err)

/-- The counters that an item of the client stream advances, whatever comes of it. -/
def count (i : ParsedData F) (c : Cycle H) : Cycle H :=
  match i with
  | .passthrough bs => { c with requestBytes := c.requestBytes + bs.length }
  | .parsed f => { c with
      frameCount := c.frameCount + 1, requestBytes := c.requestBytes + (Frame.asBytes f).length }

/-- Awaiting the pool, or the router when there is no pool. -/
def toAcquire (key : Bytes) : State F H D :=
  if cfg.stabling then { s with pc := .acquiring key }
  else { s with pc := .joining key none false, cycle := { s.cycle with needRoute := true } }

/-- The end of the pre-route loop without a routing key. -/
def endPreRoute (clientClosed : Bool) : State F H D :=
  if clientClosed || (!s.firstCycle && s.cycle.preRouteBuf.isEmpty) then s.finish {} (.ok ())
  else
    s.fail cfg (s.cycle.result false 0)
      ((RailscaleError.ofKind .noRoutingFrame).inPhase .parse)

/-- A turn of the pre-route loop. -/
def onPreRoute (o : Item F) : State F H D :=
  let s := s.emit [.took o]
  match o with
  | none => s.endPreRoute cfg false
  | some (.error err) =>
    if !s.firstCycle && err.kind == .connectionClosed then s.endPreRoute cfg true
    else s.fail cfg (s.cycle.result false 0) (err.inPhase .parse)
  | some (.ok i) =>
    let c := count i s.cycle
    let c := { c with preRouteCumulative := c.preRouteCumulative + i.raw.length }
    if c.preRouteCumulative > cfg.bufferLimits.maxPreRouteBytes then
      fail cfg { s with cycle := c } (c.result false 0)
        ((RailscaleError.ofKind .bufferLimitExceeded).inPhase .parse)
    else
      let c := { c with preRouteBuf := c.preRouteBuf ++ [i.output cfg.process] }
      match i with
      | .passthrough _ => { s with cycle := c }
      | .parsed f =>
        let s := { s with cycle := { c with hook := ConnectionHook.onFrame c.hook f } }
        let s := s.emit [.onFrame f]
        match Frame.routingKey f with
        | some key => s.toAcquire cfg key
        | none => s

/-- The code between `tokio::join!` and `dest.write`. -/
def afterJoin (key : Bytes) (dest : Except RailscaleError D) : State F H D :=
  let c := s.cycle
  if c.postRouteCumulative > cfg.bufferLimits.maxPostRouteBytes then
    s.fail cfg (c.result false 0) ((RailscaleError.ofKind .bufferLimitExceeded).inPhase .forward)
  else
    let s := s.emit [.validated c.hook (ConnectionHook.validate c.hook)]
    match ConnectionHook.validate c.hook with
    | .error err => s.fail cfg (c.result false 0) (err.inPhase .parse)
    | .ok () =>
      match dest with
      | .error err => s.fail cfg (c.result false 0) (err.inPhase .routing)
      | .ok d =>
        let data := (c.preRouteBuf ++ c.postRouteBuf).flatten
        let s := if c.needRoute then s.emit [.upstreamOpen] else s
        { s.emit [.captureRequest data, .destWrite d data] with pc := .writing key d }

/-- The post-route loop is over: go on when the destination is there too. -/
def endPostRoute (key : Bytes) (dest : Option (Except RailscaleError D)) : State F H D :=
  match dest with
  | some r => s.afterJoin cfg key r
  | none => { s with pc := .joining key none true }

/-- A turn of the post-route loop. -/
def onPostRoute (key : Bytes) (dest : Option (Except RailscaleError D)) (o : Item F) :
    State F H D :=
  let s := s.emit [.took o]
  match o with
  | none => s.endPostRoute cfg key dest
  | some (.error _) => s.endPostRoute cfg key dest
  | some (.ok i) =>
    let c := count i s.cycle
    let c := { c with postRouteCumulative := c.postRouteCumulative + i.raw.length }
    if c.postRouteCumulative > cfg.bufferLimits.maxPostRouteBytes then
      endPostRoute cfg { s with cycle := c } key dest
    else
      let c := { c with postRouteBuf := c.postRouteBuf ++ [i.output cfg.process] }
      match i with
      | .passthrough _ => { s with cycle := c }
      | .parsed f =>
        let s := { s with cycle := { c with hook := ConnectionHook.onFrame c.hook f } }
        s.emit [.onFrame f]

/-- The end of a cycle: close, or release the destination and go on. -/
def endCycle (key : Bytes) (dest : D) (responseBytes : Nat) (requestClose : Bool) : State F H D :=
  let s := { s with total := s.total.accumulate (s.cycle.result true responseBytes), firstCycle := false }
  if requestClose then { s with pc := .finished (.ok ()) } else { s with pc := .releasing key dest }

/-- The top of the loop again. -/
def nextCycle : State F H D :=
  { s with pc := .preRoute, cycle := .new cfg, log := [], past := s.past ++ [s.log] }

/-- What the two hooks say about the connection. -/
def shouldClose (r : Relay H D) : Bool :=
  ConnectionHook.shouldCloseConnection s.cycle.hook ||
    r.responseHook.any ConnectionHook.shouldCloseConnection

/-- The response is relayed. -/
def endRelay (r : Relay H D) : State F H D :=
  s.endCycle r.key r.dest r.respBytes (s.shouldClose r)

/-- A turn of the relay loop. -/
def onRelay (r : Relay H D) (o : Item F) : State F H D :=
  match o with
  | none =>
    if r.batch.length > 0 then
      { s.emit [.captureResponse r.batch, .clientWrite r.batch] with pc := .flushingLast r }
    else s.endRelay r
  | some (.error err) =>
    if r.batch.length > 0 then { s.emit [.clientWrite r.batch] with pc := .flushingError r err }
    else s.finish (s.cycle.result true r.respBytes) (.error (err.inPhase .relay))
  | some (.ok i) =>
    let bytes := i.output (cfg.responsePipeline.getD id)
    let r := { r with
      responseHook := match i with
        | .parsed f => r.responseHook.map (ConnectionHook.onFrame · f)
        | .passthrough _ => r.responseHook
      respBytes := r.respBytes + bytes.length
      batch := r.batch ++ bytes }
    if r.batch.length > 32768 then
      { s.emit [.captureResponse r.batch, .clientWrite r.batch] with
        pc := .flushing { r with batch := [] } }
    else { s with pc := .relaying r }

/-- The code behind a successful `dest.write`. -/
def toRelay (key : Bytes) (dest : D) : State F H D :=
  if cfg.responseParser then
    { s with pc := .relaying ⟨key, dest, cfg.responseHookFactory, 0, []⟩ }
  else { s with pc := .copying key dest }

end State

/-- What the loop makes of what it awaits. -/
def step (s : State F H D) (a : Action F D) : Option (State F H D) :=
  match s.pc, a with
  | .preRoute, .clientItem o => some (s.onPreRoute cfg o)
  | .acquiring key, .acquired dest =>
    some { s.emit [.acquired key dest] with
      pc := .joining key (dest.map .ok) false
      cycle := { s.cycle with needRoute := dest.isNone } }
  | .joining key dest false, .clientItem o => some (s.onPostRoute cfg key dest o)
  | .joining key none collected, .routed r =>
    let s := s.emit [.routed key r]
    if collected then some (s.afterJoin cfg key r)
    else some { s with pc := .joining key (some r) false }
  | .writing key dest, .wrote (.ok ()) => some (s.toRelay cfg key dest)
  | .writing _ _, .wrote (.error err) =>
    some (s.finish (s.cycle.result true 0) (.error (err.inPhase .forward)))
  | .relaying r, .responseItem o => some (s.onRelay cfg r o)
  | .flushing r, .clientWrote (.ok ()) => some { s with pc := .relaying r }
  | .flushing r, .clientWrote (.error err) =>
    some (s.finish (s.cycle.result true r.respBytes) (.error (err.inPhase .relay)))
  | .flushingLast r, .clientWrote (.ok ()) => some (s.endRelay r)
  | .flushingLast r, .clientWrote (.error err) =>
    some (s.finish (s.cycle.result true r.respBytes) (.error (err.inPhase .relay)))
  | .flushingError r err, .clientWrote _ =>
    some (s.finish (s.cycle.result true r.respBytes) (.error (err.inPhase .relay)))
  | .copying key dest, .copied (.ok n) => some (s.endCycle key dest n true)
  | .copying _ _, .copied (.error err) =>
    some (s.finish (s.cycle.result true 0) (.error (err.inPhase .relay)))
  | .releasing key dest, .release =>
    if cfg.stabling then some (State.nextCycle cfg (s.emit [.released key dest]))
    else some (s.nextCycle cfg)
  | _, _ => none

/-- Everything a step can be. -/
inductive Trans (s : State F H D) : Action F D → State F H D → Prop where
  | preRoute {o} :
    s.pc = .preRoute →
    Trans s (.clientItem o) (s.onPreRoute cfg o)
  | acquired {key dest} :
    s.pc = .acquiring key →
    Trans s (.acquired dest) { s.emit [.acquired key dest] with
      pc := .joining key (dest.map .ok) false, cycle := { s.cycle with needRoute := dest.isNone } }
  | postRoute {key dest o} :
    s.pc = .joining key dest false →
    Trans s (.clientItem o) (s.onPostRoute cfg key dest o)
  | routed {key r} :
    s.pc = .joining key none false →
    Trans s (.routed r) { s.emit [.routed key r] with pc := .joining key (some r) false }
  | joined {key r} :
    s.pc = .joining key none true →
    Trans s (.routed r) ((s.emit [.routed key r]).afterJoin cfg key r)
  | wrote {key dest} :
    s.pc = .writing key dest →
    Trans s (.wrote (.ok ())) (s.toRelay cfg key dest)
  | writeError {key dest err} :
    s.pc = .writing key dest →
    Trans s (.wrote (.error err)) (s.finish (s.cycle.result true 0) (.error (err.inPhase .forward)))
  | relay {r o} :
    s.pc = .relaying r →
    Trans s (.responseItem o) (s.onRelay cfg r o)
  | flushed {r} :
    s.pc = .flushing r →
    Trans s (.clientWrote (.ok ())) { s with pc := .relaying r }
  | flushedLast {r} :
    s.pc = .flushingLast r →
    Trans s (.clientWrote (.ok ())) (s.endRelay r)
  | flushError {r err} :
    s.pc = .flushing r ∨ s.pc = .flushingLast r →
    Trans s (.clientWrote (.error err))
      (s.finish (s.cycle.result true r.respBytes) (.error (err.inPhase .relay)))
  | flushedError {r err res} :
    s.pc = .flushingError r err →
    Trans s (.clientWrote res)
      (s.finish (s.cycle.result true r.respBytes) (.error (err.inPhase .relay)))
  | copied {key dest n} :
    s.pc = .copying key dest →
    Trans s (.copied (.ok n)) (s.endCycle key dest n true)
  | copyError {key dest err} :
    s.pc = .copying key dest →
    Trans s (.copied (.error err)) (s.finish (s.cycle.result true 0) (.error (err.inPhase .relay)))
  | released {key dest} :
    s.pc = .releasing key dest →
    cfg.stabling = true →
    Trans s .release (State.nextCycle cfg (s.emit [.released key dest]))
  | dropped {key dest} :
    s.pc = .releasing key dest →
    cfg.stabling = false →
    Trans s .release (s.nextCycle cfg)

variable {cfg}

/-- A step is one of these. -/
theorem step_cases {s s' : State F H D} {a : Action F D} (st : step cfg s a = some s') :
    Trans cfg s a s' := by
  unfold step at st
  split at st
  · rename_i here
    exact Option.some.inj st ▸ .preRoute here
  · rename_i here
    exact Option.some.inj st ▸ .acquired here
  · rename_i here
    exact Option.some.inj st ▸ .postRoute here
  · rename_i collected _ here
    cases collected with
    | true => exact Option.some.inj st ▸ .joined here
    | false => exact Option.some.inj st ▸ .routed here
  · rename_i here
    exact Option.some.inj st ▸ .wrote here
  · rename_i here
    exact Option.some.inj st ▸ .writeError here
  · rename_i here
    exact Option.some.inj st ▸ .relay here
  · rename_i here
    exact Option.some.inj st ▸ .flushed here
  · rename_i here
    exact Option.some.inj st ▸ .flushError (.inl here)
  · rename_i here
    exact Option.some.inj st ▸ .flushedLast here
  · rename_i here
    exact Option.some.inj st ▸ .flushError (.inr here)
  · rename_i here
    exact Option.some.inj st ▸ .flushedError here
  · rename_i here
    exact Option.some.inj st ▸ .copied here
  · rename_i here
    exact Option.some.inj st ▸ .copyError here
  · rename_i here
    split at st
    · rename_i on
      exact Option.some.inj st ▸ .released here on
    · rename_i off
      exact Option.some.inj st ▸ .dropped here (by simpa using off)
  · cases st

end machine

/-! ## The parts of a step -/

namespace State

variable {F H D : Type} (cfg : Config F H) (s : State F H D)

/-- The events come behind the log. -/
@[simp] lemma emit_log (es : List (Event F H D)) : (s.emit es).log = s.log ++ es := rfl

/-- Logging leaves the cycle as it is. -/
@[simp] lemma emit_cycle (es : List (Event F H D)) : (s.emit es).cycle = s.cycle := rfl

/-- Logging does not end the first cycle. -/
@[simp] lemma emit_firstCycle (es : List (Event F H D)) : (s.emit es).firstCycle = s.firstCycle := rfl

/-- The answer to an error, if there is one. -/
def errorEvents (err : RailscaleError) : List (Event F H D) :=
  match cfg.errorResponder with
  | some responder => [.errorResponse (responder err)]
  | none => []

/-- Failing is to tell the client and to return the error. -/
lemma fail_eq (cr : ConnectionResult) (err : RailscaleError) :
    s.fail cfg cr err = (s.emit (errorEvents cfg err)).finish cr (.error err) := by
  rw [fail, writeErrorResponse, errorEvents]
  cases cfg.errorResponder with
  | some responder => rfl
  | none => simp [emit]

/-- What an item that is taken into a buffer leaves in the log. -/
def itemEvents (i : ParsedData F) : List (Event F H D) :=
  .took (some (.ok i)) :: i.frame?.toList.map .onFrame

section loops

variable [Frame F] [ConnectionHook H F]

/-- The variables of the cycle behind an item that is taken into the buffer before the routing frame. -/
def keepPre (i : ParsedData F) (c : Cycle H) : Cycle H :=
  { c with
    frameCount := (count i c).frameCount
    requestBytes := (count i c).requestBytes
    hook := i.frame?.toList.foldl ConnectionHook.onFrame c.hook
    preRouteCumulative := c.preRouteCumulative + i.raw.length
    preRouteBuf := c.preRouteBuf ++ [i.output cfg.process] }

/-- The variables of the cycle behind an item that is taken into the buffer behind the routing frame. -/
def keepPost (i : ParsedData F) (c : Cycle H) : Cycle H :=
  { c with
    frameCount := (count i c).frameCount
    requestBytes := (count i c).requestBytes
    hook := i.frame?.toList.foldl ConnectionHook.onFrame c.hook
    postRouteCumulative := c.postRouteCumulative + i.raw.length
    postRouteBuf := c.postRouteBuf ++ [i.output cfg.process] }

/-- Everything a turn of the pre-route loop can do. -/
inductive PreRouted : Item F → State F H D → Prop where
  | ended :
    PreRouted none ((s.emit [.took none]).endPreRoute cfg false)
  | closed {err} :
    s.firstCycle = false →
    err.kind = .connectionClosed →
    PreRouted (some (.error err)) ((s.emit [.took (some (.error err))]).endPreRoute cfg true)
  | failed {err cr err'} :
    PreRouted (some (.error err)) ((s.emit [.took (some (.error err))]).fail cfg cr err')
  | overflow {i c cr err} :
    c.preRouteBuf = s.cycle.preRouteBuf →
    c.postRouteBuf = s.cycle.postRouteBuf →
    PreRouted (some (.ok i)) (fail cfg { s.emit [.took (some (.ok i))] with cycle := c } cr err)
  | kept {i} :
    s.cycle.preRouteCumulative + i.raw.length ≤ cfg.bufferLimits.maxPreRouteBytes →
    (∀ f, i.frame? = some f → Frame.routingKey f = none) →
    PreRouted (some (.ok i)) { s.emit (itemEvents i) with cycle := keepPre cfg i s.cycle }
  | routed {f key} :
    s.cycle.preRouteCumulative + (Frame.asBytes f).length ≤ cfg.bufferLimits.maxPreRouteBytes →
    Frame.routingKey f = some key →
    PreRouted (some (.ok (.parsed f)))
      (toAcquire cfg
        { s.emit (itemEvents (.parsed f)) with cycle := keepPre cfg (.parsed f) s.cycle } key)

/-- Everything a turn of the post-route loop can do. -/
inductive PostRouted (key : Bytes) (dest : Option (Except RailscaleError D)) :
    Item F → State F H D → Prop where
  | stopped {o} :
    (∀ i, o ≠ some (.ok i)) →
    PostRouted key dest o ((s.emit [.took o]).endPostRoute cfg key dest)
  | overflow {i c} :
    c.postRouteCumulative > cfg.bufferLimits.maxPostRouteBytes →
    c.preRouteBuf = s.cycle.preRouteBuf →
    c.postRouteBuf = s.cycle.postRouteBuf →
    PostRouted key dest (some (.ok i))
      (endPostRoute cfg { s.emit [.took (some (.ok i))] with cycle := c } key dest)
  | kept {i} :
    s.cycle.postRouteCumulative + i.raw.length ≤ cfg.bufferLimits.maxPostRouteBytes →
    PostRouted key dest (some (.ok i)) { s.emit (itemEvents i) with cycle := keepPost cfg i s.cycle }

/-- The cases of an item in the pre-route loop. -/
lemma onPreRoute_cases (o : Item F) : PreRouted cfg s o (s.onPreRoute cfg o) := by
  unfold onPreRoute
  match o with
  | none => exact .ended
  | some (.error err) =>
    simp only
    split
    · rename_i quits
      simp only [emit_firstCycle, Bool.and_eq_true, Bool.not_eq_true', beq_iff_eq] at quits
      exact .closed quits.1 quits.2
    · exact .failed
  | some (.ok (.passthrough bs)) =>
    simp only
    split
    · exact .overflow rfl rfl
    · rename_i within
      exact .kept (i := .passthrough bs) (Nat.le_of_not_lt within) nofun
  | some (.ok (.parsed f)) =>
    have log : ∀ g, (s.log ++ [.took (some (.ok (.parsed f)))] ++ [.onFrame g]) =
        s.log ++ [.took (some (.ok (.parsed f))), .onFrame g] := fun g => List.append_assoc _ _ _
    simp only
    split
    · exact .overflow rfl rfl
    · rename_i within
      have within := Nat.le_of_not_lt within
      cases key : Frame.routingKey f with
      | some key =>
        have routed : PreRouted cfg s (some (.ok (.parsed f))) _ := .routed within key
        simp only [emit, log] at routed ⊢
        exact routed
      | none =>
        have kept : PreRouted cfg s (some (.ok (.parsed f))) _ :=
          .kept within fun g h => Option.some.inj h ▸ key
        simp only [emit, log] at kept ⊢
        exact kept

/-- The cases of an item in the post-route loop. -/
lemma onPostRoute_cases (key : Bytes) (dest : Option (Except RailscaleError D)) (o : Item F) :
    PostRouted cfg s key dest o (s.onPostRoute cfg key dest o) := by
  unfold onPostRoute
  match o with
  | none => exact .stopped nofun
  | some (.error err) => exact .stopped nofun
  | some (.ok (.passthrough bs)) =>
    simp only
    split
    · rename_i excess
      exact .overflow excess rfl rfl
    · rename_i within
      exact .kept (i := .passthrough bs) (Nat.le_of_not_lt within)
  | some (.ok (.parsed f)) =>
    simp only
    split
    · rename_i excess
      exact .overflow excess rfl rfl
    · rename_i within
      have kept : PostRouted cfg s key dest (some (.ok (.parsed f))) _ :=
        .kept (Nat.le_of_not_lt within)
      simp only [emit, List.append_assoc] at kept ⊢
      exact kept

end loops

/-- What is logged about a fresh destination. -/
def openEvents (c : Cycle H) : List (Event F H D) := if c.needRoute then [.upstreamOpen] else []

/-- What is logged about a request that is forwarded. -/
def forwardEvents (d : D) : List (Event F H D) :=
  .validated s.cycle.hook (.ok ()) :: openEvents s.cycle ++
    [.captureRequest (s.cycle.preRouteBuf ++ s.cycle.postRouteBuf).flatten,
      .destWrite d (s.cycle.preRouteBuf ++ s.cycle.postRouteBuf).flatten]

/-- Everything the code between the join and the write can do. -/
inductive Joined [ConnectionHook H F] (key : Bytes) : Except RailscaleError D → State F H D → Prop where
  | overflow {dest err} :
    s.cycle.postRouteCumulative > cfg.bufferLimits.maxPostRouteBytes →
    Joined key dest (s.fail cfg (s.cycle.result false 0) err)
  | invalid {dest err err'} :
    s.cycle.postRouteCumulative ≤ cfg.bufferLimits.maxPostRouteBytes →
    ConnectionHook.validate s.cycle.hook = .error err →
    Joined key dest
      ((s.emit [.validated s.cycle.hook (.error err)]).fail cfg (s.cycle.result false 0) err')
  | unrouted {err err'} :
    s.cycle.postRouteCumulative ≤ cfg.bufferLimits.maxPostRouteBytes →
    ConnectionHook.validate s.cycle.hook = .ok () →
    Joined key (.error err)
      ((s.emit [.validated s.cycle.hook (.ok ())]).fail cfg (s.cycle.result false 0) err')
  | forwarded {d} :
    s.cycle.postRouteCumulative ≤ cfg.bufferLimits.maxPostRouteBytes →
    ConnectionHook.validate s.cycle.hook = .ok () →
    Joined key (.ok d) { s.emit (s.forwardEvents d) with pc := .writing key d }

/-- The cases of the checks behind the join. -/
lemma afterJoin_cases [ConnectionHook H F] (key : Bytes) (dest : Except RailscaleError D) :
    Joined cfg s key dest (s.afterJoin cfg key dest) := by
  unfold afterJoin
  simp only
  split
  · rename_i excess
    exact .overflow excess
  rename_i within
  have within := Nat.le_of_not_lt within
  cases valid : ConnectionHook.validate s.cycle.hook with
  | error err => exact .invalid within valid
  | ok u =>
    cases dest with
    | error err => exact .unrouted within valid
    | ok d =>
      have forwarded : Joined cfg s key (.ok d) _ := .forwarded within valid
      rw [forwardEvents, openEvents] at forwarded
      cases needed : s.cycle.needRoute with
      | true => simpa [emit, needed] using forwarded
      | false => simpa [emit, needed] using forwarded

end State

end Service

end Railscale
