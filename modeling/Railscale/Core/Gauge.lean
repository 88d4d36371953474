import Railscale.Core.Pool
import Railscale.Core.Upstreams

/-!
# The gauge of the upstreams

The recorder counts the upstreams: up by one in every cycle that forwards its request to a fresh destination, and down
by one at the end of every connection that has forwarded a request at all. The pool takes destinations from one
connection to another, so the two need not match. `Matched` says when they do, and then the gauge is right in every
state of every interleaving (`counts_of_every`).
-/

namespace Railscale

/-! ## The connections of a pool -/

namespace Pool

open Service

variable {F H : Type} [Frame F] [ConnectionHook H F]

/-- What a step does to the connections. -/
inductive Moves (cfg : Config F H) (p p' : State F H) : Prop where
  | kept :
    p'.conns = p.conns →
    Moves cfg p p'
  | accepted :
    p'.conns = p.conns ++ [⟨.init cfg, none⟩] →
    Moves cfg p p'
  | advanced {i c a s} :
    p.conns[i]? = some c →
    Service.step cfg c.state a = some s →
    p'.conns = p.conns.set i ⟨s, none⟩ →
    Moves cfg p p'
  | held {i c key popped} :
    p.conns[i]? = some c →
    c.state.pc = .acquiring key →
    p'.conns = p.conns.set i { c with popped := popped } →
    Moves cfg p p'

variable {cfg : Config F H} {p p' : State F H} {a : Action F}

/-- A step of connection `i` is seen as what it does. -/
lemma Moves.advance {q : State F H} {i : Nat} {a : Service.Action F Nat} (st : q.advance cfg i a = some p')
    (conns : q.conns = p.conns) : Moves cfg p p' := by
  obtain ⟨c, here, rest⟩ := Option.bind_eq_some_iff.1 st
  obtain ⟨s, move, same⟩ := Option.bind_eq_some_iff.1 rest
  cases same
  rw [conns] at here
  exact .advanced here move (congrArg (List.set · i _) conns)

/-- A step is one of these. -/
theorem step_moves (st : step cfg p a = some p') : Moves cfg p p' := by
  cases a with
  | accept =>
    cases st
    exact .accepted rfl
  | conn i a =>
    simp only [step, Option.ite_none_right_eq_some] at st
    exact .advance st.2 rfl
  | pop i now =>
    simp only [step] at st
    split at st
    · rename_i key pc _
      split at st
      · obtain ⟨c, here, same⟩ := Option.bind_eq_some_iff.1 st
        cases same
        obtain ⟨c0, here0, pc⟩ := pc_eq_some.1 pc
        cases here.symm.trans here0
        exact .held here pc rfl
      · exact .advance st rfl
    · cases st
  | remove i =>
    simp only [step] at st
    split at st
    · exact .advance st rfl
    · cases st
  | route i r =>
    cases r with
    | error err => exact .advance st rfl
    | ok u =>
      simp only [step] at st
      split at st
      · exact .advance st rfl
      · cases st
  | release i now =>
    simp only [step] at st
    split at st
    · split at st
      · exact .advance st rfl
      · exact .advance st rfl
    · cases st
  | reap now =>
    cases st
    exact .kept rfl

/-- A connection that has returned stays as it is. -/
lemma Moves.finished (moves : Moves cfg p p') {i : Nat} {c : Conn F H} {r : Except RailscaleError Unit}
    (here : p.conns[i]? = some c) (pc : c.state.pc = .finished r) : p'.conns[i]? = some c := by
  have other : ∀ {j c'}, p.conns[j]? = some c' → (∀ r, c'.state.pc ≠ .finished r) →
      ∀ c'', (p.conns.set j c'')[i]? = some c := by
    intro j c' here' going c''
    have ne : j ≠ i := by
      rintro rfl
      cases here.symm.trans here'
      exact going r pc
    rw [List.getElem?_set_ne ne]
    exact here
  cases moves with
  | kept conns =>
    rw [conns]
    exact here
  | accepted conns =>
    rw [conns, List.getElem?_append_left (List.getElem?_eq_some_iff.1 here).1]
    exact here
  | advanced here' st conns =>
    rw [conns]
    exact other here' (fun r pc' => absurd st (not_step_finished pc')) _
  | held here' pc' conns =>
    rw [conns]
    exact other here' (fun r pc'' => nomatch pc'.symm.trans pc'') _

/-- What every step of a connection keeps holds of all connections. -/
lemma Moves.forall {P : Service.State F H Nat → Prop} (moves : Moves cfg p p') (init : P (.init cfg))
    (keep : ∀ {s a s'}, P s → Service.step cfg s a = some s' → P s') (all : ∀ c ∈ p.conns, P c.state) :
    ∀ c ∈ p'.conns, P c.state := by
  intro c mem
  cases moves with
  | kept conns =>
    rw [conns] at mem
    exact all c mem
  | accepted conns =>
    rw [conns] at mem
    rcases List.mem_append.1 mem with mem | mem
    · exact all c mem
    · rw [List.mem_singleton.1 mem]
      exact init
  | @advanced _ c' _ _ here st conns =>
    rw [conns] at mem
    rcases List.mem_or_eq_of_mem_set mem with mem | rfl
    · exact all c mem
    · exact keep (all c' (List.mem_of_getElem? here)) st
  | @held _ c' _ _ here _ conns =>
    rw [conns] at mem
    rcases List.mem_or_eq_of_mem_set mem with mem | rfl
    · exact all c mem
    · exact all c' (List.mem_of_getElem? here)

end Pool

/-! ## The recorder -/

namespace Gauge

open Service

/-- The connections and their pool, the connections that `handle_connection` is done with, and the counter of the
recorder. -/
structure State (F H : Type) where
  pool : Pool.State F H
  ended : List Nat
  upstreams : Int

/-- What happens next: a step of the connections and their pool, or the end of `handle_connection` on connection `i`. -/
inductive Action (F : Type) where
  | pool (a : Pool.Action F)
  | close (i : Nat)

section system

variable {F H : Type}

/-- The calls of `upstream_open` on connection `i`. -/
def opened (p : Pool.State F H) (i : Nat) : Nat :=
  match p.conns[i]? with
  | some c => opens c.state.cycles.flatten
  | none => 0

/-- The calls of `upstream_open` on all connections. -/
def openedAll (p : Pool.State F H) : Nat := ((List.range p.conns.length).map (opened p)).sum

/-- The call of `upstream_close` at the end of connection `i`. -/
def closed (p : Pool.State F H) (i : Nat) : Nat :=
  match p.conns[i]? with
  | some c => c.state.total.routed.toNat
  | none => 0

/-- Connection `i` has returned from `do_connection`. -/
def returned (p : Pool.State F H) (i : Nat) : Bool :=
  match p.pc i with
  | some (.finished _) => true
  | _ => false

/-- The calls of `upstream_close` so far. -/
def closedAll (g : State F H) : Nat := (g.ended.map (closed g.pool)).sum

variable [Frame F] [ConnectionHook H F] (cfg : Config F H)

/-- A recorder without connections. -/
def State.init (config : StablingConfig) : State F H := ⟨.init config, [], 0⟩

/-- One step: the calls of `upstream_open` that it makes are added to the counter, and that of `upstream_close` is
taken off. -/
def step (g : State F H) (a : Action F) : Option (State F H) :=
  match a with
  | .pool a =>
    (Pool.step cfg g.pool a).map fun p =>
      { g with pool := p, upstreams := g.upstreams + ((openedAll p : Int) - openedAll g.pool) }
  | .close i =>
    if returned g.pool i ∧ i ∉ g.ended then
      some { g with ended := i :: g.ended, upstreams := g.upstreams - closed g.pool i }
    else none

/-- The counter is not negative, and it is zero when no connection is active and the pool is empty. -/
def Counts (g : State F H) : Prop :=
  0 ≤ g.upstreams ∧
    ((∀ i < g.pool.conns.length, i ∈ g.ended) → (∀ k d, ¬ g.pool.stabling.Stabled k d) → g.upstreams = 0)

/-- A connection that ends has forwarded no request, or just one of its requests to a fresh destination. -/
def Matched (g : State F H) (a : Action F) : Prop :=
  ∀ i c, a = .close i → g.pool.conns[i]? = some c → c.state.cycles.any forwarded = true →
    c.state.cycles.countP fresh = 1

/-- What the counter is made of. -/
structure Inv (g : State F H) : Prop where
  metered : ∀ c ∈ g.pool.conns, Metered c.state
  ended : ∀ i ∈ g.ended, ∃ c r, g.pool.conns[i]? = some c ∧ c.state.pc = .finished r
  once : g.ended.Nodup
  balance : g.upstreams = openedAll g.pool - closedAll g

/-- The connections that have ended are matched. -/
def Even (g : State F H) : Prop := ∀ i ∈ g.ended, opened g.pool i = closed g.pool i

variable {cfg} {g g' : State F H} {a : Action F}

omit [Frame F] [ConnectionHook H F] in
/-- At the start no call has been made. -/
lemma Inv.init (config : StablingConfig) : Inv (State.init config : State F H) where
  metered _ mem := absurd mem List.not_mem_nil
  ended _ mem := absurd mem List.not_mem_nil
  once := .nil
  balance := rfl

omit [Frame F] [ConnectionHook H F] in
/-- A connection has returned if that is where it is. -/
lemma returned_iff {p : Pool.State F H} {i : Nat} :
    returned p i = true ↔ ∃ c r, p.conns[i]? = some c ∧ c.state.pc = .finished r := by
  constructor
  · intro done
    rw [returned] at done
    split at done
    · rename_i r pc
      obtain ⟨c, here, pc⟩ := Pool.pc_eq_some.1 pc
      exact ⟨c, r, here, pc⟩
    · cases done
  · rintro ⟨c, r, here, pc⟩
    rw [returned, Pool.pc_eq_some.2 ⟨c, here, pc⟩]

/-- The connections that have ended stay as they are. -/
lemma Inv.frozen (inv : Inv g) {p : Pool.State F H} {a : Pool.Action F} (move : Pool.step cfg g.pool a = some p)
    {i : Nat} (mem : i ∈ g.ended) : p.conns[i]? = g.pool.conns[i]? := by
  obtain ⟨c, r, here, pc⟩ := inv.ended i mem
  rw [here, (Pool.step_moves move).finished here pc]

/-- Every step keeps what the counter is made of. -/
lemma Inv.step (inv : Inv g) (st : Gauge.step cfg g a = some g') : Inv g' := by
  cases a with
  | pool a =>
    obtain ⟨p, move, rfl⟩ := Option.map_eq_some_iff.1 st
    refine ⟨?_, fun i mem => ?_, inv.once, ?_⟩
    · exact (Pool.step_moves move).forall .init (fun metered st => metered.step st) inv.metered
    · rw [inv.frozen move mem]
      exact inv.ended i mem
    · have same : g.ended.map (closed p) = g.ended.map (closed g.pool) := by
        refine List.map_congr_left fun i mem => ?_
        rw [closed, inv.frozen move mem, closed]
      have balance := inv.balance
      rw [closedAll, ← same] at balance
      show g.upstreams + ((openedAll p : Int) - openedAll g.pool) = openedAll p - ((g.ended.map (closed p)).sum : Int)
      omega
  | close i =>
    simp only [Gauge.step, Option.ite_none_right_eq_some, Option.some.injEq] at st
    obtain ⟨⟨done, new⟩, rfl⟩ := st
    refine ⟨inv.metered, List.forall_mem_cons.2 ⟨returned_iff.1 done, inv.ended⟩, inv.once.cons new, ?_⟩
    have more : closedAll { g with ended := i :: g.ended } = closed g.pool i + closedAll g := List.sum_cons
    have balance := inv.balance
    show g.upstreams - closed g.pool i = openedAll g.pool - (closedAll { g with ended := i :: g.ended } : Int)
    omega

omit [Frame F] [ConnectionHook H F] in
/-- A connection that ends is matched when it should be. -/
lemma opened_eq_closed {p : Pool.State F H} {i : Nat} {c : Pool.Conn F H} {r : Except RailscaleError Unit}
    (metered : Metered c.state) (here : p.conns[i]? = some c) (pc : c.state.pc = .finished r)
    (matched : c.state.cycles.any forwarded = true → c.state.cycles.countP fresh = 1) : opened p i = closed p i := by
  have calls := opens_flatten metered.opened.cycles
  have routed := metered.settles.isOver (pc ▸ trivial)
  rw [opened, closed, here]
  show opens c.state.cycles.flatten = c.state.total.routed.toNat
  rw [calls, routed]
  cases forwards : c.state.cycles.any forwarded with
  | true => exact matched forwards
  | false =>
    refine List.countP_eq_zero.2 fun log mem isFresh => ?_
    exact List.any_eq_false.1 forwards log mem (Bool.and_eq_true_iff.1 isFresh).1

/-- A step that ends no unmatched connection keeps all of them matched. -/
lemma Even.step (even : Even g) (inv : Inv g) (matched : Matched g a) (st : Gauge.step cfg g a = some g') :
    Even g' := by
  cases a with
  | pool a =>
    obtain ⟨p, move, rfl⟩ := Option.map_eq_some_iff.1 st
    intro i mem
    show opened p i = closed p i
    rw [opened, closed, inv.frozen move mem]
    exact even i mem
  | close i =>
    simp only [Gauge.step, Option.ite_none_right_eq_some, Option.some.injEq] at st
    obtain ⟨⟨done, new⟩, rfl⟩ := st
    intro j mem
    rcases List.mem_cons.1 mem with rfl | mem
    · obtain ⟨c, r, here, pc⟩ := returned_iff.1 done
      exact opened_eq_closed (inv.metered c (List.mem_of_getElem? here)) here pc (matched j c rfl here)
    · exact even j mem

omit [Frame F] [ConnectionHook H F] in
/-- When the connections that have ended are matched, the counter is right. -/
lemma Even.counts (even : Even g) (inv : Inv g) : Counts g := by
  have closes : closedAll g = (g.ended.map (opened g.pool)).sum := by
    rw [closedAll, List.map_congr_left even]
  have within : g.ended ⊆ List.range g.pool.conns.length := by
    intro i mem
    obtain ⟨c, r, here, -⟩ := inv.ended i mem
    exact List.mem_range.2 (List.getElem?_eq_some_iff.1 here).1
  have balance := inv.balance
  refine ⟨?_, fun all _ => ?_⟩
  · have le := sum_map_le (opened g.pool) inv.once within
    rw [← closes] at le
    change closedAll g ≤ openedAll g.pool at le
    omega
  · have everyone : g.ended.Perm (List.range g.pool.conns.length) := by
      refine (List.perm_ext_iff_of_nodup inv.once List.nodup_range).2 fun i => ?_
      exact ⟨fun mem => within mem, fun mem => all i (List.mem_range.1 mem)⟩
    have same : closedAll g = openedAll g.pool := closes.trans (everyone.map _).sum_nat
    omega

/-- Only the ends of the connections have a condition. -/
lemma every_pool (g : State F H) (as : List (Pool.Action F)) : Every (Gauge.step cfg) Matched g (as.map .pool) := by
  induction as generalizing g with
  | nil => trivial
  | cons a as ih =>
    intro g1 _
    exact ⟨fun i c same => (nomatch same), ih g1⟩

/-- In every interleaving of any number of connections the counter is right all along, if the connections that end
have forwarded no request, or just one of their requests to a fresh destination. -/
theorem counts_of_every {config : StablingConfig} {as : List (Action F)}
    (every : Every (Gauge.step cfg) Matched (State.init config) as) :
    Always (Gauge.step cfg) Counts (State.init config) as := by
  apply Every.always (I := fun g => Inv g ∧ Even g) ?_ ?_ every
  · exact ⟨.init config, fun _ mem => absurd mem List.not_mem_nil⟩
  · intro g a g' both matched st
    exact ⟨both.1.step st, both.2.step both.1 matched st⟩
  · intro g both
    exact both.2.counts both.1

end system

section http

open Http Pool

/-- Connection `i` relays a response without items and releases its destination, and its client ends. -/
def endOf (i now : Nat) : List (Pool.Action HttpFrame) :=
  [.conn i (.wrote (.ok ())), .conn i (.responseItem none), .release i now, .conn i (.clientItem none)]

/-- A connection that gets its own destination out of the pool for its second request. -/
def keptActions : List (Pool.Action HttpFrame) :=
  [.accept, requestLineOf 0, .pop 0 0, .route 0 (.ok ())] ++ emptyLineOf 0 ++
    [.conn 0 (.wrote (.ok ())), .conn 0 (.responseItem none), .release 0 1, requestLineOf 0, .pop 0 2, .remove 0] ++
    emptyLineOf 0 ++ endOf 0 3

/-- The counter is right behind its two requests. -/
theorem counts_of_every_kept :
    ∃ g, Run (Gauge.step pooledConfig) (State.init {}) (keptActions.map .pool ++ [.close 0]) g ∧
      Every (Gauge.step pooledConfig) Matched (State.init {}) (keptActions.map .pool ++ [.close 0]) ∧
      (g.pool.conns.map fun c => (c.state.cycles.countP forwarded, c.state.cycles.countP fresh)) = [(2, 1)] ∧
      Counts g := by
  have before : Run (Gauge.step pooledConfig) (State.init {}) (keptActions.map .pool) _ := .of_exec rfl
  have every : Every (Gauge.step pooledConfig) Matched (State.init {}) (keptActions.map .pool ++ [.close 0]) := by
    refine .append before (every_pool _ _) fun g1 st => ⟨?_, trivial⟩
    intro i c same here _
    cases same
    cases Option.some.inj here
    decide +kernel
  have run : Run (Gauge.step pooledConfig) (State.init {}) (keptActions.map .pool ++ [.close 0]) _ := .of_exec rfl
  exact ⟨_, run, every, by decide +kernel, (counts_of_every every).run run⟩

/-- Two connections with the same request: the second one gets the destination of the first one out of the pool, and
ends behind it. -/
def sharedEnds : List (Action HttpFrame) :=
  (sharedActions ++ [Pool.Action.conn 0 (.clientItem none)]).map .pool ++
    .close 0 :: (endOf 1 3).map .pool ++ [.close 1]

/-- The counter is negative when both connections have ended. -/
theorem not_counts_shared :
    ∃ g, Run (Gauge.step pooledConfig) (State.init {}) sharedEnds g ∧ g.upstreams = -1 ∧ ¬ Counts g := by
  have run : Run (Gauge.step pooledConfig) (State.init {}) sharedEnds _ := .of_exec rfl
  refine ⟨_, run, by decide +kernel, fun counts => ?_⟩
  exact absurd counts.1 (by decide +kernel)

end http

end Gauge

end Railscale
