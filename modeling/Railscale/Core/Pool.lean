import Railscale.Core.Forward
import Railscale.Core.Stabling

/-!
# Connections that share a pool

Any number of connections run `do_connection` and share one `Stabling`. Every step of a connection and
every access to the pool is a step of its own, so a run is an interleaving of them. A destination is
the number of the call of `router.route` that made it, and `routes` holds the keys of these calls.

A destination is stored, taken and written to under the key that it was made for: the pool keeps that
of what it stores (`Stabling`), and a connection of what it holds (`Origin`).
-/

namespace Railscale

namespace Service

variable {F H D : Type}

/-! ## One connection -/

/-- The routing key of the running cycle. -/
def Pc.key : Pc H D → Option Bytes
  | .preRoute => none
  | .acquiring key => some key
  | .joining key _ _ => some key
  | .writing key _ => some key
  | .relaying r => some r.key
  | .flushing r => some r.key
  | .flushingLast r => some r.key
  | .flushingError r _ => some r.key
  | .copying key _ => some key
  | .releasing key _ => some key
  | .finished _ => none

/-- The destination that the running cycle holds. -/
def Pc.dest : Pc H D → Option D
  | .preRoute => none
  | .acquiring _ => none
  | .joining _ (some (.ok d)) _ => some d
  | .joining _ _ _ => none
  | .writing _ d => some d
  | .relaying r => some r.dest
  | .flushing r => some r.dest
  | .flushingLast r => some r.dest
  | .flushingError r _ => some r.dest
  | .copying _ d => some d
  | .releasing _ d => some d
  | .finished _ => none

/-- The destination that an action brings. -/
def Action.brings : Action F D → Option D
  | .acquired dest => dest
  | .routed (.ok d) => some d
  | _ => none

variable [Frame F]

/-- The routing key of a cycle: that of the first frame that has one. -/
def routingKey (log : List (Event F H D)) : Option Bytes := (hooked log).findSome? Frame.routingKey

/-- The routing key of a cycle stays. -/
lemma routingKey_append {l : List (Event F H D)} {k : Bytes} (h : routingKey l = some k)
    (m : List (Event F H D)) : routingKey (l ++ m) = some k := by
  rw [routingKey, hooked_append, List.findSome?_append]
  rw [routingKey] at h
  rw [h]
  rfl

/-- Events without a frame leave the routing key as it is. -/
lemma routingKey_unhooked {es : List (Event F H D)} (unhooked : hooked es = [])
    (l : List (Event F H D)) : routingKey (l ++ es) = routingKey l := by
  rw [routingKey, hooked_append, unhooked, List.append_nil, routingKey]

/-- An item with a routing key is the first that has one. -/
lemma routingKey_item {l : List (Event F H D)} (h : routingKey l = none) (i : ParsedData F) :
    routingKey (l ++ State.itemEvents i) = i.frame?.bind Frame.routingKey := by
  rw [routingKey] at h
  rw [routingKey, hooked_append, List.findSome?_append, h]
  cases i with
  | parsed f => exact List.findSome?_singleton
  | passthrough bs => rfl

/-- Every write of a cycle is to a destination that was made for its routing key. -/
def WritesTo (Made : Bytes → D → Prop) (log : List (Event F H D)) : Prop :=
  ∀ d bs, (d, bs) ∈ writes log → ∃ k, routingKey log = some k ∧ Made k d

/-- What a connection holds and has written to was made for the key it holds it under. -/
structure Origin (Made : Bytes → D → Prop) (s : State F H D) : Prop where
  unrouted : s.pc = .preRoute → routingKey s.log = none
  key : ∀ k, s.pc.key = some k → routingKey s.log = some k
  dest : ∀ k d, s.pc.key = some k → s.pc.dest = some d → Made k d
  writesTo : WritesTo Made s.log
  past : ∀ log ∈ s.past, WritesTo Made log

section origin

variable {Made Made' : Bytes → D → Prop} {s s' : State F H D}

/-- More destinations may have been made. -/
lemma WritesTo.mono {log : List (Event F H D)} (h : WritesTo Made log)
    (le : ∀ k d, Made k d → Made' k d) : WritesTo Made' log := by
  intro d bs mem
  obtain ⟨k, key, made⟩ := h d bs mem
  exact ⟨k, key, le k d made⟩

/-- More destinations may have been made. -/
lemma Origin.mono (o : Origin Made s) (le : ∀ k d, Made k d → Made' k d) : Origin Made' s where
  unrouted := o.unrouted
  key := o.key
  dest k d hk hd := le k d (o.dest k d hk hd)
  writesTo := o.writesTo.mono le
  past log hl := (o.past log hl).mono le

/-- Events without a write change nothing. -/
lemma WritesTo.append {l es : List (Event F H D)} (h : WritesTo Made l) (none : writes es = []) :
    WritesTo Made (l ++ es) := by
  intro d bs mem
  rw [writes_append, none, List.append_nil] at mem
  obtain ⟨k, key, made⟩ := h d bs mem
  exact ⟨k, routingKey_append key es, made⟩

/-- Returning, with nothing written. -/
lemma Origin.finished (o : Origin Made s) {es r} (pc : s'.pc = .finished r)
    (log : s'.log = s.log ++ es) (past : s'.past = s.past) (none : writes es = []) : Origin Made s' where
  unrouted h := by rw [pc] at h; cases h
  key k h := by rw [pc] at h; cases h
  dest k d h := by rw [pc] at h; cases h
  writesTo := log ▸ o.writesTo.append none
  past := past ▸ o.past

/-- Going on with the key, with nothing written. -/
lemma Origin.keeps (o : Origin Made s) {es k} (key : s.pc.key = some k) (key' : s'.pc.key = some k)
    (log : s'.log = s.log ++ es) (past : s'.past = s.past) (none : writes es = [])
    (dest : ∀ d, s'.pc.dest = some d → s.pc.dest = some d ∨ Made k d) : Origin Made s' where
  unrouted h := by rw [h] at key'; cases key'
  key k' h := by
    obtain rfl := Option.some.inj (key'.symm.trans h)
    rw [log]
    exact routingKey_append (o.key k key) es
  dest k' d hk hd := by
    obtain rfl := Option.some.inj (key'.symm.trans hk)
    rcases dest d hd with old | made
    · exact o.dest k d key old
    · exact made
  writesTo := log ▸ o.writesTo.append none
  past := past ▸ o.past

variable {cfg : Config F H}

omit [Frame F] in
/-- An error response is no write to a destination. -/
lemma writes_errorEvents (err : RailscaleError) :
    writes (State.errorEvents cfg err : List (Event F H D)) = [] :=
  (quiet_nil (quiet_errorEvents err)).2.2

/-- Failing, with nothing written. -/
lemma Origin.fail (o : Origin Made s) (cr : ConnectionResult) (err : RailscaleError) :
    Origin Made (s.fail cfg cr err) := by
  rw [State.fail_eq]
  exact o.finished rfl rfl rfl (writes_errorEvents err)

/-- At the start nothing is held. -/
lemma Origin.init : Origin Made (State.init cfg : State F H D) where
  unrouted _ := rfl
  key := nofun
  dest := nofun
  writesTo := nofun
  past := nofun

/-- The cycle after this one. -/
lemma Origin.nextCycle (o : Origin Made s) : Origin Made (s.nextCycle cfg) where
  unrouted _ := rfl
  key := nofun
  dest := nofun
  writesTo := nofun
  past := by
    intro log hl
    rcases List.mem_append.1 hl with hl | hl
    · exact o.past log hl
    · rw [List.mem_singleton.1 hl]
      exact o.writesTo

/-- Logging neither a frame nor a write. -/
lemma Origin.emit (o : Origin Made s) {es : List (Event F H D)} (unhooked : hooked es = [])
    (none : writes es = []) : Origin Made (s.emit es) where
  unrouted h := by
    rw [State.emit_log, routingKey_unhooked unhooked]
    exact o.unrouted h
  key k h := routingKey_append (o.key k h) es
  dest := o.dest
  writesTo := o.writesTo.append none
  past := o.past

/-- The variables of the cycle do not matter. -/
lemma Origin.withCycle (o : Origin Made s) (c : Cycle H) : Origin Made { s with cycle := c } :=
  { o with }

/-- The end of the pre-route loop keeps the origin. -/
lemma Origin.endPreRoute (o : Origin Made s) (clientClosed : Bool) :
    Origin Made (s.endPreRoute cfg clientClosed) := by
  rw [State.endPreRoute]
  split
  · exact o.finished rfl (List.append_nil _).symm rfl rfl
  · exact o.fail _ _

/-- The frame with the routing key. -/
lemma Origin.routes (o : Origin Made s) (pc : s.pc = .preRoute) {f : F} {key : Bytes}
    (hk : Frame.routingKey f = some key) (c : Cycle H) :
    Origin Made (State.toAcquire cfg { s.emit (State.itemEvents (.parsed f)) with cycle := c } key) := by
  have found : routingKey (s.log ++ State.itemEvents (.parsed f)) = some key :=
    (routingKey_item (o.unrouted pc) (.parsed f)).trans hk
  have writesTo := o.writesTo.append (itemEvents_seen (.parsed f)).2.2
  rw [State.toAcquire]
  split
  · refine ⟨?_, fun k h => Option.some.inj h ▸ found, ?_, writesTo, o.past⟩
    · rintro ⟨⟩
    · rintro _ _ _ ⟨⟩
  · refine ⟨?_, fun k h => Option.some.inj h ▸ found, ?_, writesTo, o.past⟩
    · rintro ⟨⟩
    · rintro _ _ _ ⟨⟩

/-- An item without one. -/
lemma Origin.skips (o : Origin Made s) {i : ParsedData F}
    (hk : ∀ f, i.frame? = some f → Frame.routingKey f = none) (c : Cycle H) :
    Origin Made { s.emit (State.itemEvents i) with cycle := c } where
  unrouted h := by
    refine (routingKey_item (o.unrouted h) i).trans ?_
    cases hi : i.frame? with
    | none => rfl
    | some f => exact hk f hi
  key k h := routingKey_append (o.key k h) _
  dest := o.dest
  writesTo := o.writesTo.append (itemEvents_seen i).2.2
  past := o.past

/-- The one write of a cycle, to a destination made for its key. -/
lemma Origin.forward (o : Origin Made s) {key : Bytes} {d : D} (hk : s.pc.key = some key)
    (made : Made key d) : Origin Made { s.emit (s.forwardEvents d) with pc := .writing key d } where
  unrouted := nofun
  key k h := Option.some.inj h ▸ routingKey_append (o.key key hk) _
  dest k d' hk' hd := Option.some.inj hk' ▸ Option.some.inj hd ▸ made
  writesTo := by
    intro d' bs mem
    have found := routingKey_append (o.key key hk) (s.forwardEvents d)
    change (d', bs) ∈ writes (s.log ++ s.forwardEvents d) at mem
    rw [writes_append] at mem
    rcases List.mem_append.1 mem with mem | mem
    · obtain ⟨k, hk', made⟩ := o.writesTo d' bs mem
      exact ⟨k, routingKey_append hk' _, made⟩
    · rw [writes_forwardEvents] at mem
      cases List.mem_singleton.1 mem
      exact ⟨key, found, made⟩
  past := o.past

/-- The key goes on to the next place, with what it holds. -/
lemma Origin.moves (o : Origin Made s) {key : Bytes} (hk : s.pc.key = some key) {pc : Pc H D}
    (key' : pc.key = some key) (dest : ∀ d, pc.dest = some d → s.pc.dest = some d ∨ Made key d) :
    Origin Made { s with pc := pc } :=
  o.keeps hk key' (List.append_nil _).symm rfl rfl dest

/-- The end of a cycle behind its relay keeps the origin. -/
lemma Origin.endCycle (o : Origin Made s) {key : Bytes} {d : D} (hk : s.pc.key = some key)
    (hd : s.pc.dest = some d) (n : Nat) (close : Bool) : Origin Made (s.endCycle key d n close) := by
  unfold State.endCycle
  cases close with
  | true => exact o.finished rfl (List.append_nil _).symm rfl rfl
  | false => exact o.keeps hk rfl (List.append_nil _).symm rfl rfl fun d' h => .inl (hd.trans h)

variable [ConnectionHook H F]

/-- An item of the client in the pre-route loop keeps the origin. -/
lemma Origin.onPreRoute (o : Origin Made s) (pc : s.pc = .preRoute) (i : Item F) :
    Origin Made (s.onPreRoute cfg i) := by
  have taken : ∀ i, Origin Made (s.emit [.took i]) := fun i => o.emit rfl rfl
  have turn := State.onPreRoute_cases cfg s i
  generalize s.onPreRoute cfg i = s' at turn ⊢
  cases turn with
  | ended => exact (taken _).endPreRoute _
  | closed _ _ => exact (taken _).endPreRoute _
  | failed => exact (taken _).fail _ _
  | overflow _ _ => exact ((taken _).withCycle _).fail _ _
  | kept _ unkeyed => exact o.skips unkeyed _
  | routed _ keyed => exact o.routes pc keyed _

/-- The checks behind the join keep the origin. -/
lemma Origin.afterJoin (o : Origin Made s) {key : Bytes} {dest : Except RailscaleError D}
    (hk : s.pc.key = some key) (made : ∀ d, dest = .ok d → Made key d) :
    Origin Made (s.afterJoin cfg key dest) := by
  have validated : ∀ r, Origin Made (s.emit [.validated s.cycle.hook r]) := fun r => o.emit rfl rfl
  have joined := State.afterJoin_cases cfg s key dest
  generalize s.afterJoin cfg key dest = s' at joined ⊢
  cases joined with
  | overflow _ => exact o.fail _ _
  | invalid _ _ => exact (validated _).fail _ _
  | unrouted _ _ => exact (validated _).fail _ _
  | forwarded _ _ => exact o.forward hk (made _ rfl)

/-- The end of the collecting future keeps the origin. -/
lemma Origin.endPostRoute (o : Origin Made s) {key : Bytes} {dest : Option (Except RailscaleError D)}
    (hk : s.pc.key = some key) (made : ∀ d, dest = some (.ok d) → Made key d) :
    Origin Made (s.endPostRoute cfg key dest) := by
  cases dest with
  | some r => exact o.afterJoin hk fun d e => made d (congrArg some e)
  | none => exact o.moves hk rfl nofun

/-- An item of the client in the post-route loop keeps the origin. -/
lemma Origin.onPostRoute (o : Origin Made s) {key : Bytes} {dest : Option (Except RailscaleError D)}
    (pc : s.pc = .joining key dest false) (i : Item F) :
    Origin Made (s.onPostRoute cfg key dest i) := by
  have hk : s.pc.key = some key := by rw [pc]; rfl
  have made : ∀ d, dest = some (.ok d) → Made key d := by
    rintro d rfl
    exact o.dest key d hk (by rw [pc]; rfl)
  have taken : ∀ i, Origin Made (s.emit [.took i]) := fun i => o.emit rfl rfl
  have turn := State.onPostRoute_cases cfg s key dest i
  generalize s.onPostRoute cfg key dest i = s' at turn ⊢
  cases turn with
  | stopped _ => exact (taken _).endPostRoute hk made
  | overflow _ _ _ => exact ((taken _).withCycle _).endPostRoute hk made
  | kept _ => exact o.keeps hk hk rfl rfl (itemEvents_seen _).2.2 fun d h => .inl h

/-- A turn of the relay loop keeps the origin. -/
lemma Origin.onRelay (o : Origin Made s) {r : Relay H D} (pc : s.pc = .relaying r) (i : Item F) :
    Origin Made (s.onRelay cfg r i) := by
  have hk : s.pc.key = some r.key := by rw [pc]; rfl
  have hd : s.pc.dest = some r.dest := by rw [pc]; rfl
  unfold State.onRelay
  match i with
  | none =>
    simp only
    split
    · exact o.keeps hk rfl rfl rfl rfl fun d h => .inl (hd.trans h)
    · exact o.endCycle hk hd _ _
  | some (.error err) =>
    simp only
    split
    · exact o.keeps hk rfl rfl rfl rfl fun d h => .inl (hd.trans h)
    · exact o.finished rfl (List.append_nil _).symm rfl rfl
  | some (.ok i) =>
    simp only
    split
    · exact o.keeps hk rfl rfl rfl rfl fun d h => .inl (hd.trans h)
    · exact o.moves hk rfl fun d h => .inl (hd.trans h)

/-- A step keeps the origins when what it brings was made for the key. -/
theorem Origin.step {a : Action F D} (o : Origin Made s) (st : Service.step cfg s a = some s')
    (made : ∀ k d, s.pc.key = some k → a.brings = some d → Made k d) : Origin Made s' := by
  have returned : ∀ cr r, Origin Made (s.finish cr r) :=
    fun cr r => o.finished rfl (List.append_nil _).symm rfl rfl
  cases step_cases st with
  | preRoute here => exact o.onPreRoute here _
  | @acquired key dest here =>
    have hk : s.pc.key = some key := by rw [here]; rfl
    refine o.keeps hk rfl rfl rfl rfl fun d h => .inr (made key d hk ?_)
    cases dest with
    | none => cases h
    | some d' => exact h
  | postRoute here => exact o.onPostRoute here _
  | @routed key r here =>
    have hk : s.pc.key = some key := by rw [here]; rfl
    refine o.keeps hk rfl rfl rfl rfl fun d h => .inr (made key d hk ?_)
    cases r with
    | error e => cases h
    | ok d' => exact h
  | @joined key r here =>
    have hk : s.pc.key = some key := by rw [here]; rfl
    have logged : Origin Made (s.emit [.routed key r]) := o.emit rfl rfl
    refine logged.afterJoin hk ?_
    rintro d rfl
    exact made key d hk rfl
  | @wrote key dest here =>
    have hk : s.pc.key = some key := by rw [here]; rfl
    have hd : s.pc.dest = some dest := by rw [here]; rfl
    rw [State.toRelay]
    split
    · exact o.moves hk rfl fun d h => .inl (hd.trans h)
    · exact o.moves hk rfl fun d h => .inl (hd.trans h)
  | relay here => exact o.onRelay here _
  | @flushed r here =>
    have hk : s.pc.key = some r.key := by rw [here]; rfl
    have hd : s.pc.dest = some r.dest := by rw [here]; rfl
    exact o.moves hk rfl fun d h => .inl (hd.trans h)
  | flushedLast here => exact o.endCycle (by rw [here]; rfl) (by rw [here]; rfl) _ _
  | copied here => exact o.endCycle (by rw [here]; rfl) (by rw [here]; rfl) _ _
  | @released key dest here _ => exact (o.emit (rfl : hooked [.released key dest] = []) rfl).nextCycle
  | dropped here _ => exact o.nextCycle
  | writeError here => exact returned _ _
  | flushError here => exact returned _ _
  | flushedError here => exact returned _ _
  | copyError here => exact returned _ _

end origin

/-- An action that touches neither the pool nor the router. -/
def Action.isLocal : Action F D → Bool
  | .acquired _ => false
  | .routed _ => false
  | .release => false
  | _ => true

end Service

/-! ## Many connections -/

namespace Pool

open Service

/-- A connection, and what it has popped when the removal of the emptied key is still to come. -/
structure Conn (F H : Type) where
  state : Service.State F H Nat
  popped : Option (Option Nat)

/-- The pool, the connections and the keys of the calls of `router.route` so far. -/
structure State (F H : Type) where
  stabling : Stabling Nat
  conns : List (Conn F H)
  routes : List Bytes

/-- What happens next: a connection is accepted, connection `i` takes a step of its own, runs the
guarded part of `acquire`, removes the emptied key, gets an answer of the router, or releases its
destination, and the reaper runs. -/
inductive Action (F : Type) where
  | accept
  | conn (i : Nat) (a : Service.Action F Nat)
  | pop (i now : Nat)
  | remove (i : Nat)
  | route (i : Nat) (r : Except RailscaleError Unit)
  | release (i now : Nat)
  | reap (now : Nat)

section system

variable {F H : Type} [Frame F] [ConnectionHook H F] (cfg : Config F H)

/-- A pool without connections. -/
def State.init (config : StablingConfig) : State F H := ⟨.new config, [], []⟩

/-- Connection `i` takes a step. -/
def State.advance (p : State F H) (i : Nat) (a : Service.Action F Nat) : Option (State F H) := do
  let c ← p.conns[i]?
  let s ← Service.step cfg c.state a
  some { p with conns := p.conns.set i ⟨s, none⟩ }

/-- What connection `i` is about to do. -/
def State.pc (p : State F H) (i : Nat) : Option (Pc H Nat) := p.conns[i]?.map (·.state.pc)

/-- What connection `i` has popped, when it still has to remove the key. -/
def State.popped (p : State F H) (i : Nat) : Option (Option Nat) := p.conns[i]?.bind (·.popped)

/-- Connection `i` waits for the removal of the key. -/
def State.hold (p : State F H) (i : Nat) (dest : Option Nat) : Option (State F H) := do
  let c ← p.conns[i]?
  some { p with conns := p.conns.set i { c with popped := some dest } }

/-- One step of the connections and their pool. -/
def step (p : State F H) (a : Action F) : Option (State F H) :=
  match a with
  | .accept => some { p with conns := p.conns ++ [⟨.init cfg, none⟩] }
  | .conn i a => if a.isLocal then p.advance cfg i a else none
  | .pop i now =>
    match p.pc i, p.popped i with
    | some (.acquiring key), none =>
      let (found, stabling) := p.stabling.pop key now
      let p := { p with stabling := stabling }
      if found.emptied then p.hold i found.dest else p.advance cfg i (.acquired found.dest)
    | _, _ => none
  | .remove i =>
    match p.pc i, p.popped i with
    | some (.acquiring key), some dest =>
      State.advance cfg { p with stabling := p.stabling.remove key } i (.acquired dest)
    | _, _ => none
  | .route i (.ok ()) =>
    match p.pc i with
    | some (.joining key none _) =>
      State.advance cfg { p with routes := p.routes ++ [key] } i (.routed (.ok p.routes.length))
    | _ => none
  | .route i (.error err) => p.advance cfg i (.routed (.error err))
  | .release i now =>
    match p.pc i with
    | some (.releasing key dest) =>
      if cfg.stabling then
        State.advance cfg { p with stabling := p.stabling.release key dest now } i .release
      else p.advance cfg i .release
    | _ => none
  | .reap now => some { p with stabling := p.stabling.reapExpired now }

/-- The destination was made by `router.route` for the key. -/
def Made (routes : List Bytes) (key : Bytes) (dest : Nat) : Prop := routes[dest]? = some key

/-- What is stored, held, popped or written to was made for its key. -/
structure Inv (p : State F H) : Prop where
  stabled : ∀ k d, p.stabling.Stabled k d → Made p.routes k d
  conns : ∀ c ∈ p.conns, Origin (Made p.routes) c.state
  popped : ∀ c ∈ p.conns, ∀ k d, c.state.pc.key = some k → c.popped = some (some d) → Made p.routes k d

variable {cfg} {p p' : State F H}

omit [ConnectionHook H F] in
/-- At the start there is no connection and nothing in the pool. -/
lemma Inv.init (config : StablingConfig) : Inv (State.init config : State F H) where
  stabled k d h := absurd h (Stabling.not_stabled_new config k d)
  conns _ hc := (List.not_mem_nil hc).elim
  popped _ hc := (List.not_mem_nil hc).elim

/-- A call of the router does not change what was made before. -/
lemma Made.append {routes : List Bytes} {k : Bytes} {d : Nat} (made : Made routes k d)
    (routes' : List Bytes) : Made (routes ++ routes') k d := by
  obtain ⟨lt, -⟩ := List.getElem?_eq_some_iff.1 made
  rw [Made, List.getElem?_append_left lt]
  exact made

omit [ConnectionHook H F] in
/-- One more call of the router. -/
lemma Inv.route (inv : Inv p) (key : Bytes) : Inv { p with routes := p.routes ++ [key] } where
  stabled k d h := (inv.stabled k d h).append _
  conns c hc := (inv.conns c hc).mono fun _ _ made => made.append _
  popped c hc k d hk hd := (inv.popped c hc k d hk hd).append _

omit [ConnectionHook H F] in
/-- The pool may only gain what was made for its key. -/
lemma Inv.withStabling (inv : Inv p) {stabling : Stabling Nat}
    (h : ∀ k d, stabling.Stabled k d → Made p.routes k d) : Inv { p with stabling := stabling } :=
  { inv with stabled := h }

omit [Frame F] [ConnectionHook H F] in
/-- The place of a connection, looked up. -/
lemma pc_eq_some {i : Nat} {pc : Pc H Nat} :
    p.pc i = some pc ↔ ∃ c, p.conns[i]? = some c ∧ c.state.pc = pc :=
  Option.map_eq_some_iff

/-- A step of a connection, when what it brings was made for its key. -/
lemma Inv.advance (inv : Inv p) {i : Nat} {a : Service.Action F Nat} (st : p.advance cfg i a = some p')
    (made : ∀ pc k d, p.pc i = some pc → pc.key = some k → a.brings = some d → Made p.routes k d) :
    Inv p' := by
  obtain ⟨c, hc, rest⟩ := Option.bind_eq_some_iff.1 st
  obtain ⟨s, move, e⟩ := Option.bind_eq_some_iff.1 rest
  cases e
  have origin : Origin (Made p.routes) s :=
    (inv.conns c (List.mem_of_getElem? hc)).step move fun k d => made c.state.pc k d (pc_eq_some.2 ⟨c, hc, rfl⟩)
  refine ⟨inv.stabled, fun c' hc' => ?_, fun c' hc' k d hk hd => ?_⟩
  · rcases List.mem_or_eq_of_mem_set hc' with hc' | rfl
    · exact inv.conns c' hc'
    · exact origin
  · rcases List.mem_or_eq_of_mem_set hc' with hc' | rfl
    · exact inv.popped c' hc' k d hk hd
    · cases hd

omit [ConnectionHook H F] in
/-- A connection that waits for the removal of its key. -/
lemma Inv.hold (inv : Inv p) {i : Nat} {dest : Option Nat} {key : Bytes}
    (pc : p.pc i = some (.acquiring key)) (made : ∀ d, dest = some d → Made p.routes key d)
    (st : p.hold i dest = some p') : Inv p' := by
  obtain ⟨c, hc, e⟩ := Option.bind_eq_some_iff.1 st
  cases e
  obtain ⟨c0, hc0, pc⟩ := pc_eq_some.1 pc
  obtain rfl := Option.some.inj (hc.symm.trans hc0)
  refine ⟨inv.stabled, fun c' hc' => ?_, fun c' hc' k d hk hd => ?_⟩
  · rcases List.mem_or_eq_of_mem_set hc' with hc' | rfl
    · exact inv.conns c' hc'
    · exact inv.conns c (List.mem_of_getElem? hc)
  · rcases List.mem_or_eq_of_mem_set hc' with hc' | rfl
    · exact inv.popped c' hc' k d hk hd
    · change c.state.pc.key = some k at hk
      rw [pc] at hk
      exact Option.some.inj hk ▸ made d (Option.some.inj hd)

/-- A step keeps the invariant. -/
theorem Inv.step {a : Action F} (inv : Inv p) (st : Pool.step cfg p a = some p') : Inv p' := by
  cases a with
  | accept =>
    cases st
    refine ⟨inv.stabled, fun c hc => ?_, fun c hc => ?_⟩
    · rcases List.mem_append.1 hc with hc | hc
      · exact inv.conns c hc
      · rw [List.mem_singleton.1 hc]
        exact .init
    · rcases List.mem_append.1 hc with hc | hc
      · exact inv.popped c hc
      · rw [List.mem_singleton.1 hc]
        nofun
  | conn i a =>
    simp only [Pool.step, Option.ite_none_right_eq_some] at st
    refine inv.advance st.2 fun _ _ d _ _ brings => ?_
    cases a with
    | acquired => exact absurd st.1 nofun
    | routed => exact absurd st.1 nofun
    | _ => cases brings
  | pop i now =>
    simp only [Pool.step] at st
    split at st
    · rename_i key pc _
      have kept := inv.withStabling
        fun k d (h : (p.stabling.pop key now).2.Stabled k d) => inv.stabled k d (Stabling.stabled_pop h)
      have made : ∀ d, (p.stabling.pop key now).1.dest = some d → Made p.routes key d :=
        fun d h => inv.stabled key d (Stabling.stabled_of_pop h)
      split at st
      -- the connection goes on with what it popped, or first has to remove the key
      · exact kept.hold pc made st
      · refine kept.advance st fun pc' k d pc2 hk brings => ?_
        cases Option.some.inj (pc.symm.trans pc2)
        cases Option.some.inj hk
        exact made d brings
    · cases st
  | remove i =>
    simp only [Pool.step] at st
    split at st
    · rename_i key dest pc popped
      have kept := inv.withStabling
        fun k d (h : (p.stabling.remove key).Stabled k d) => inv.stabled k d (Stabling.stabled_remove h)
      refine kept.advance st fun pc' k d pc2 hk brings => ?_
      cases Option.some.inj (pc.symm.trans pc2)
      obtain ⟨c, hc, pc⟩ := pc_eq_some.1 pc
      have popped : c.popped = some (some d) := by
        rw [State.popped, hc] at popped
        exact popped.trans (congrArg some brings)
      exact inv.popped c (List.mem_of_getElem? hc) k d (pc ▸ hk) popped
    · cases st
  | route i r =>
    cases r with
    | error err => exact inv.advance st fun _ _ _ _ _ brings => nomatch brings
    | ok u =>
      simp only [Pool.step] at st
      split at st
      · rename_i key _ pc
        refine (inv.route key).advance st fun pc' k d pc2 hk brings => ?_
        cases Option.some.inj (pc.symm.trans pc2)
        cases Option.some.inj hk
        cases Option.some.inj brings
        exact List.getElem?_concat_length
      · cases st
  | release i now =>
    simp only [Pool.step] at st
    split at st
    · rename_i key dest pc
      split at st
      · obtain ⟨c, hc, pc⟩ := pc_eq_some.1 pc
        -- what is stored is what the connection held, under the key it held it for
        have held : Made p.routes key dest :=
          (inv.conns c (List.mem_of_getElem? hc)).dest key dest (by rw [pc]; rfl) (by rw [pc]; rfl)
        refine (inv.withStabling ?_).advance st fun _ _ _ _ _ brings => nomatch brings
        intro k d h
        rcases Stabling.stabled_release h with ⟨rfl, rfl⟩ | h
        · exact held
        · exact inv.stabled k d h
      · exact inv.advance st fun _ _ _ _ _ brings => nomatch brings
    · cases st
  | reap now =>
    cases st
    exact inv.withStabling fun k d h => inv.stabled k d (Stabling.stabled_reapExpired h)

/-- In every interleaving of any number of connections, what is stored in the pool under a key, and
what a cycle with that routing key writes to, was made by `router.route` for it. -/
theorem made_of_run {config : StablingConfig} {as : List (Action F)}
    (run : Run (Pool.step cfg) (State.init config) as p) :
    (∀ k d, p.stabling.Stabled k d → Made p.routes k d) ∧
      ∀ c ∈ p.conns, ∀ log ∈ c.state.past ++ [c.state.log], WritesTo (Made p.routes) log := by
  have inv : Inv p := run.invariant (fun _ _ _ inv st => inv.step st) (.init config)
  refine ⟨inv.stabled, fun c hc log hl => ?_⟩
  rcases List.mem_append.1 hl with hl | hl
  · exact (inv.conns c hc).past log hl
  · rw [List.mem_singleton.1 hl]
    exact (inv.conns c hc).writesTo

end system

section http

open Http

/-- A service for HTTP with a pool. -/
def pooledConfig : Config HttpFrame HttpDeriverHook where
  process := id
  hookFactory := .new
  bufferLimits := ⟨64, 64⟩
  responseParser := true
  stabling := true

/-- A request without headers. -/
def bareRequest : Bytes := Bytes.lit "GET / HTTP/1.1\r\n\r\n"

/-- Its request line on connection `i`. -/
def requestLineOf (i : Nat) : Action HttpFrame :=
  .conn i (.clientItem (some (.ok (.parsed (.requestLine (Bytes.lit "GET / HTTP/1.1\r\n"))))))

/-- Its empty line, and the end of the cycle. -/
def emptyLineOf (i : Nat) : List (Action HttpFrame) :=
  [.conn i (.clientItem (some (.ok (.passthrough Bytes.crlf)))), .conn i (.clientItem none)]

/-- Two connections with the same request: the second one gets the destination of the first one out of
the pool. -/
def sharedActions : List (Action HttpFrame) :=
  [.accept, .accept, requestLineOf 0, .pop 0 0, requestLineOf 1, .route 0 (.ok ())] ++ emptyLineOf 0 ++
    [.conn 0 (.wrote (.ok ())), .conn 0 (.responseItem none), .release 0 1, .pop 1 2, .remove 1] ++
    emptyLineOf 1

/-- The second connection writes to the destination of the first one. -/
theorem made_of_run_shared :
    ∃ p, Run (Pool.step pooledConfig) (State.init {}) sharedActions p ∧
      (p.conns.map fun c => (c.state.past ++ [c.state.log]).flatMap writes) =
        [[(0, bareRequest)], [(0, bareRequest)]] ∧
      (∀ k d, p.stabling.Stabled k d → Made p.routes k d) ∧
      ∀ c ∈ p.conns, ∀ log ∈ c.state.past ++ [c.state.log], WritesTo (Made p.routes) log := by
  have run : Run (Pool.step pooledConfig) (State.init {}) sharedActions _ := .of_exec rfl
  exact ⟨_, run, by decide +kernel, made_of_run run⟩

end http

end Pool

end Railscale
