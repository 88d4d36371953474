import Railscale.Core.Pool
import Railscale.Core.Steps

/-!
# Rejected requests

One connection alone with a pool. A cycle asks the pool as soon as it has the routing key, and reads and validates
the rest of the request behind that. Nothing that it got is put back when it fails before the write, so the pool is
as it was exactly when it had no fresh connection for the request (`restored_iff_nothingFresh`).
-/

namespace Railscale

namespace Service

variable {F H D : Type}

/-! ## Within a cycle -/

/-- The places behind the call of `acquire`. -/
def Pc.Asked : Pc H D → Prop
  | .preRoute => False
  | .acquiring _ => False
  | _ => True

/-- The cycle goes on. -/
structure Within (s s' : State F H D) : Prop where
  log : s.log <+: s'.log
  past : s'.past = s.past
  asked : s.pc.Asked → s'.pc.Asked

section within

/-- Behind the write the pool has been asked. -/
lemma Pc.After.asked {pc : Pc H D} (after : pc.After) : pc.Asked := by
  cases pc with
  | preRoute => exact after.elim
  | acquiring _ => exact after.elim
  | _ => trivial

variable [Frame F] {cfg : Config F H} {s s' : State F H D}

/-- A cycle that has asked the pool goes on from there. -/
lemma Early.asked {a : Action F D} {es : List (Event F H D)} {pc' : Pc H D} (early : Early cfg s a es pc')
    (asked : s.pc.Asked) : pc'.Asked := by
  cases early with
  | skipped here _ => exact here ▸ asked
  | found here _ _ =>
    rw [here] at asked
    exact asked.elim
  | _ => trivial

variable [ConnectionHook H F]

/-- A step stays in the cycle, or it is the release that ends it. -/
theorem within_of_step {a : Action F D} (st : step cfg s a = some s') :
    Within s s' ∨ (a = .release ∧ ∃ log, s'.past = s.past ++ [log]) := by
  by_cases after : s.pc.After
  · cases step_after after st with
    | stay _ pc log past _ => exact .inl ⟨log ▸ List.prefix_append _ _, past, fun _ => pc.asked⟩
    | next _ release _ _ _ past => exact .inr ⟨release, _, past⟩
  · obtain ⟨past, es, log, early⟩ := step_early after st
    exact .inl ⟨log ▸ List.prefix_append _ _, past, early.asked⟩

/-- The routing key is what the log says, before the call of `acquire`. -/
structure Keyed (s : State F H D) : Prop where
  unrouted : s.pc = .preRoute → routingKey s.log = none
  key : ∀ k, s.pc = .acquiring k → routingKey s.log = some k

omit [ConnectionHook H F] in
/-- Behind the call of `acquire` nothing is said. -/
lemma Keyed.of_asked (behind : s.pc.Asked) : Keyed s where
  unrouted here := by
    rw [here] at behind
    exact behind.elim
  key k here := by
    rw [here] at behind
    exact behind.elim

omit [ConnectionHook H F] in
/-- A step up to the write keeps that. -/
lemma Early.keyed {a : Action F D} {es : List (Event F H D)} (early : Early cfg s a es s'.pc)
    (log : s'.log = s.log ++ es) (keyed : Keyed s) : Keyed s' := by
  generalize here' : s'.pc = pc' at early
  have asked (behind : pc'.Asked) : Keyed s' := .of_asked (here' ▸ behind)
  cases early with
  | @skipped i here unkeyed =>
    refine ⟨fun _ => ?_, fun k acquiring => nomatch here'.symm.trans acquiring⟩
    rw [log, routingKey_item (keyed.unrouted here) i]
    cases frame : i.frame? with
    | none => rfl
    | some f => exact unkeyed f frame
  | @found f key _ here found place =>
    rcases place with rfl | rfl
    · refine ⟨fun pre => (nomatch here'.symm.trans pre), fun k acquiring => ?_⟩
      cases here'.symm.trans acquiring
      rw [log, routingKey_item (keyed.unrouted here)]
      exact found
    · exact asked trivial
  | acquired _ => exact asked trivial
  | answered _ => exact asked trivial
  | kept _ => exact asked trivial
  | collected _ => exact asked trivial
  | forwarded _ _ => exact asked trivial
  | failed _ _ => exact asked trivial
  | returned _ => exact asked trivial

/-- A step within the cycle keeps that. -/
lemma Keyed.step {a : Action F D} (keyed : Keyed s) (st : Service.step cfg s a = some s') (w : Within s s') :
    Keyed s' := by
  by_cases after : s.pc.After
  · exact .of_asked (w.asked after.asked)
  · obtain ⟨-, es, log, early⟩ := step_early after st
    exact early.keyed log keyed

end within

end Service

/-! ## The connection and its pool -/

namespace Rejection

open Service

/-- A connection, its pool, and when the running cycle has asked the pool. -/
structure State (F H D : Type) where
  conn : Service.State F H D
  pool : Stabling D
  asked : Option Nat

/-- What happens next: a step of the connection, a call of `acquire`, an answer of the router or a call of
`release`. -/
inductive Action (F D : Type) where
  | conn (a : Service.Action F D)
  | acquire (now : Nat)
  | route (r : Except RailscaleError D)
  | release (now : Nat)

section machine

variable {F H D : Type} [Frame F] [ConnectionHook H F] (cfg : Config F H)

/-- One step of the connection with its pool. -/
def step (s : State F H D) (a : Action F D) : Option (State F H D) :=
  match a with
  | .conn a =>
    if a.isLocal then (Service.step cfg s.conn a).map fun conn => { s with conn := conn } else none
  | .acquire now =>
    match s.conn.pc with
    | .acquiring key =>
      let (dest, pool) := s.pool.acquire key now
      (Service.step cfg s.conn (.acquired dest)).map fun conn => ⟨conn, pool, some now⟩
    | _ => none
  | .route r => (Service.step cfg s.conn (.routed r)).map fun conn => { s with conn := conn }
  | .release now =>
    match s.conn.pc with
    | .releasing key dest =>
      let pool := if cfg.stabling then s.pool.release key dest now else s.pool
      (Service.step cfg s.conn .release).map fun conn => ⟨conn, pool, none⟩
    | _ => none

/-- Everything a step can be. -/
inductive Trans (s : State F H D) : Action F D → State F H D → Prop where
  | conn {a conn} :
    a.isLocal = true →
    Service.step cfg s.conn a = some conn →
    Trans s (.conn a) { s with conn := conn }
  | acquired {now key conn} :
    s.conn.pc = .acquiring key →
    Service.step cfg s.conn (.acquired (s.pool.acquire key now).1) = some conn →
    Trans s (.acquire now) ⟨conn, (s.pool.acquire key now).2, some now⟩
  | routed {r conn} :
    Service.step cfg s.conn (.routed r) = some conn →
    Trans s (.route r) { s with conn := conn }
  | released {now key dest conn} :
    s.conn.pc = .releasing key dest →
    Service.step cfg s.conn .release = some conn →
    Trans s (.release now) ⟨conn, if cfg.stabling then s.pool.release key dest now else s.pool, none⟩

variable {cfg}

/-- A step is one of these. -/
lemma step_cases {s s' : State F H D} {a : Action F D} (st : step cfg s a = some s') : Trans cfg s a s' := by
  cases a with
  | conn a =>
    simp only [step, Option.ite_none_right_eq_some] at st
    obtain ⟨conn, move, rfl⟩ := Option.map_eq_some_iff.1 st.2
    exact .conn st.1 move
  | acquire now =>
    simp only [step] at st
    split at st
    · rename_i here
      obtain ⟨conn, move, rfl⟩ := Option.map_eq_some_iff.1 st
      exact .acquired here move
    · cases st
  | route r =>
    obtain ⟨conn, move, rfl⟩ := Option.map_eq_some_iff.1 st
    exact .routed move
  | release now =>
    simp only [step] at st
    split at st
    · rename_i here
      obtain ⟨conn, move, rfl⟩ := Option.map_eq_some_iff.1 st
      exact .released here move
    · cases st

/-! ## What a cycle leaves in the pool -/

/-- The running cycle has left the pool as it was, or has asked it for its routing key. -/
structure Cycling (pool : Stabling D) (s : State F H D) : Prop where
  keyed : Keyed s.conn
  unasked : s.asked = none → s.pool = pool
  asked : ∀ now, s.asked = some now →
    s.conn.pc.Asked ∧ ∃ key, routingKey s.conn.log = some key ∧ s.pool = (pool.acquire key now).2

/-- The cycle that began with the pool and the past logs is running, or over. -/
def Inv (pool : Stabling D) (past : List (List (Event F H D))) (s : State F H D) : Prop :=
  (s.conn.past = past ∧ Cycling pool s) ∨ past.length < s.conn.past.length

variable {s s' : State F H D} {pool : Stabling D} {past : List (List (Event F H D))}

/-- A step of the connection within the cycle. -/
lemma Cycling.within (inv : Cycling pool s) {a : Service.Action F D} {conn : Service.State F H D}
    (st : Service.step cfg s.conn a = some conn) (w : Within s.conn conn) : Cycling pool { s with conn := conn } where
  keyed := inv.keyed.step st w
  unasked := inv.unasked
  asked now h := by
    obtain ⟨behind, key, found, taken⟩ := inv.asked now h
    obtain ⟨es, log⟩ := w.log
    refine ⟨w.asked behind, key, ?_, taken⟩
    rw [← log]
    exact routingKey_append found es

/-- The call of `acquire`. -/
lemma Cycling.acquire (inv : Cycling pool s) {key : Bytes} (here : s.conn.pc = .acquiring key) (now : Nat)
    {conn : Service.State F H D} {dest : Option D} (st : Service.step cfg s.conn (.acquired dest) = some conn)
    (w : Within s.conn conn) : Cycling pool ⟨conn, (s.pool.acquire key now).2, some now⟩ where
  keyed := inv.keyed.step st w
  unasked := nofun
  asked now' h := by
    cases h
    -- the pool is asked once a cycle
    have first : s.asked = none := by
      by_contra before
      obtain ⟨now', before⟩ := Option.ne_none_iff_exists'.1 before
      have behind := (inv.asked now' before).1
      rw [here] at behind
      exact behind
    have found : routingKey s.conn.log = some key := inv.keyed.key key here
    obtain ⟨es, log⟩ := w.log
    refine ⟨?_, key, ?_, ?_⟩
    · cases Service.step_cases st with
      | acquired _ => trivial
    · rw [← log]
      exact routingKey_append found es
    · rw [inv.unasked first]

omit [ConnectionHook H F] in
/-- A step within the cycle. -/
lemma Inv.within (inv : Inv pool past s) (w : Within s.conn s'.conn) (keep : Cycling pool s → Cycling pool s') :
    Inv pool past s' := by
  rcases inv with ⟨same, inv⟩ | ended
  · exact .inl ⟨w.past.trans same, keep inv⟩
  · refine .inr ?_
    rw [w.past]
    exact ended

/-- A step keeps the invariant. -/
theorem Inv.step {a : Action F D} (inv : Inv pool past s) (st : Rejection.step cfg s a = some s') :
    Inv pool past s' := by
  cases step_cases st with
  | conn isLocal move =>
    rcases within_of_step move with w | ⟨rfl, -⟩
    · exact inv.within w fun inv => inv.within move w
    · cases isLocal
  | acquired here move =>
    rcases within_of_step move with w | ⟨release, -⟩
    · exact inv.within w fun inv => inv.acquire here _ move w
    · cases release
  | routed move =>
    rcases within_of_step move with w | ⟨release, -⟩
    · exact inv.within w fun inv => inv.within move w
    · cases release
  | @released _ _ _ conn _ move =>
    have next : ∃ log, conn.past = s.conn.past ++ [log] := by
      cases Service.step_cases move with
      | released _ _ => exact ⟨_, rfl⟩
      | dropped _ _ => exact ⟨_, rfl⟩
    obtain ⟨log, next⟩ := next
    refine .inr ?_
    show past.length < conn.past.length
    rw [next, List.length_append]
    rcases inv with ⟨same, -⟩ | ended
    · rw [same]
      exact Nat.lt_succ_self _
    · exact Nat.lt_add_right 1 ended

/-- The top of the loop. -/
structure Top (cfg : Config F H) (s : State F H D) : Prop where
  pc : s.conn.pc = .preRoute
  cycle : s.conn.cycle = .new cfg
  log : s.conn.log = []
  asked : s.asked = none

/-- The cycle that begins in `s` returns an error in `s'` before `dest.write` is called. -/
structure Rejects (cfg : Config F H) (s : State F H D) (as : List (Action F D)) (s' : State F H D) : Prop where
  top : Top cfg s
  run : Run (Rejection.step cfg) s as s'
  past : s'.conn.past = s.conn.past
  failed : ∃ e, s'.conn.pc = .finished (.error e)
  unwritten : writes s'.conn.log = []

/-- The pool has lost connections only that had expired when the cycle asked for one. -/
def Restored (before after : Stabling D) (asked : Option Nat) : Prop :=
  ∀ key, ∃ gone, (before.queue key).Perm (gone ++ after.queue key) ∧
    ∀ conn ∈ gone, ∃ now ∈ asked, before.fresh now conn = false

/-- The pool has no fresh connection for the request when it is asked. -/
def NothingFresh (pool : Stabling D) (s' : State F H D) : Prop :=
  ∀ key now, routingKey s'.conn.log = some key → s'.asked = some now → pool.config.enabled = true →
    ∀ conn ∈ pool.queue key, pool.fresh now conn = false

omit [Frame F] [ConnectionHook H F] in
/-- A pool that has not changed. -/
lemma Restored.refl (pool : Stabling D) (asked : Option Nat) : Restored pool pool asked :=
  fun _ => ⟨[], .refl _, nofun⟩

omit [Frame F] [ConnectionHook H F] in
/-- What `acquire` takes out has expired when no connection of the key is fresh, and only then. -/
lemma restored_acquire (pool : Stabling D) (key : Bytes) (now : Nat) :
    Restored pool (pool.acquire key now).2 (some now) ↔
      (pool.config.enabled = true → ∀ conn ∈ pool.queue key, pool.fresh now conn = false) := by
  cases enabled : pool.config.enabled with
  | false =>
    rw [Stabling.acquire_disabled enabled]
    exact iff_of_true (.refl pool _) nofun
  | true =>
    obtain ⟨-, queues⟩ := Stabling.acquire_spec enabled key now
    rcases Stabling.popLoop_cases (pool.fresh now) (pool.queue key) with
      ⟨popped, stale⟩ | ⟨old, conn, rest, queue, popped, isFresh, -⟩
    · refine iff_of_true (fun k => ?_) fun _ => stale
      rw [queues]
      split
      · rename_i same
        refine ⟨pool.queue key, ?_, fun conn mem => ⟨now, rfl, stale conn mem⟩⟩
        rw [same, popped, List.append_nil]
      · exact ⟨[], .refl _, nofun⟩
    · refine iff_of_false (fun restored => ?_) fun stale => ?_
      · obtain ⟨gone, split, stale⟩ := restored key
        have cut : old ++ conn :: rest = old ++ [conn] ++ rest := List.append_cons old conn rest
        rw [queues, if_pos rfl, popped, queue, cut, List.perm_append_right_iff] at split
        have mem : conn ∈ gone := split.subset (List.mem_append_right old List.mem_cons_self)
        obtain ⟨_, asked, notFresh⟩ := stale conn mem
        cases asked
        exact absurd isFresh (ne_true_of_eq_false notFresh)
      · have mem : conn ∈ pool.queue key := by
          rw [queue]
          exact List.mem_append_right old List.mem_cons_self
        exact absurd isFresh (ne_true_of_eq_false (stale rfl conn mem))

/-- A request that is rejected leaves the pool as it was, up to what had expired, exactly when the pool has no
fresh connection for it. -/
theorem restored_iff_nothingFresh {as : List (Action F D)} (rejects : Rejects cfg s as s') :
    Restored s.pool s'.pool s'.asked ↔ NothingFresh s.pool s' := by
  obtain ⟨top, run, past, -, -⟩ := rejects
  have keyed : Keyed s.conn := by
    refine ⟨fun _ => ?_, fun k here => nomatch top.pc.symm.trans here⟩
    rw [top.log]
    rfl
  have start : Inv s.pool s.conn.past s := by
    refine .inl ⟨rfl, keyed, fun _ => rfl, fun now h => ?_⟩
    rw [top.asked] at h
    cases h
  have inv : Inv s.pool s.conn.past s' := run.invariant (fun _ _ _ inv st => inv.step st) start
  rcases inv with ⟨-, inv⟩ | ended
  · cases asked : s'.asked with
    | none =>
      rw [inv.unasked asked]
      refine iff_of_true (.refl _ _) fun _ _ _ h => ?_
      rw [asked] at h
      cases h
    | some now =>
      obtain ⟨-, key, found, taken⟩ := inv.asked now asked
      rw [taken, restored_acquire]
      constructor
      · intro stale key' now' found' asked' enabled
        cases found.symm.trans found'
        cases asked.symm.trans asked'
        exact stale enabled
      · intro nothing enabled
        exact nothing key now found asked enabled
  · rw [past] at ended
    exact absurd ended (Nat.lt_irrefl _)

end machine

section http

open Http

/-- The routing key of a request. -/
def requestLine : Bytes := Bytes.lit "GET / HTTP/1.1\r\n"

/-- The routing key of another one. -/
def otherLine : Bytes := Bytes.lit "GET /other HTTP/1.1\r\n"

/-- A pool with an idle connection. -/
def idlePool (key : Bytes) : Stabling Nat := (Stabling.new {}).release key 7 0

/-- A connection and its pool before the first request. -/
def idleState (key : Bytes) : State HttpFrame HttpDeriverHook Nat := ⟨.init Pool.pooledConfig, idlePool key, none⟩

/-- An item of the client stream. -/
def clientFrame (f : HttpFrame) : Action HttpFrame Nat := .conn (.clientItem (some (.ok (.parsed f))))

/-- The rest of a request with two lengths. -/
def twoLengths : List (Action HttpFrame Nat) :=
  [clientFrame (.header (Bytes.lit "Content-Length: 1\r\n")),
    clientFrame (.header (Bytes.lit "Content-Length: 2\r\n")), .conn (.clientItem none)]

/-- A request that gets a connection out of the pool. -/
def pooledActions : List (Action HttpFrame Nat) :=
  [clientFrame (.requestLine requestLine), .acquire 1] ++ twoLengths

/-- A request that finds nothing in the pool. -/
def routedActions : List (Action HttpFrame Nat) :=
  [clientFrame (.requestLine requestLine), .acquire 1, .route (.ok 8)] ++ twoLengths

/-- The pool keeps what it has for other requests. -/
theorem restored_iff_nothingFresh_other :
    ∃ s', Rejects Pool.pooledConfig (idleState otherLine) routedActions s' ∧
      Restored (idlePool otherLine) s'.pool s'.asked := by
  have run : Run (step Pool.pooledConfig) (idleState otherLine) routedActions _ := .of_exec rfl
  have rejects : Rejects Pool.pooledConfig (idleState otherLine) routedActions _ :=
    ⟨⟨rfl, rfl, rfl, rfl⟩, run, rfl, ⟨_, rfl⟩, rfl⟩
  refine ⟨_, rejects, (restored_iff_nothingFresh rejects).2 ?_⟩
  intro key now found asked _ conn mem
  cases asked
  have found : some requestLine = some key := found
  cases found
  exact absurd mem List.not_mem_nil

/-- The connection that a rejected request got out of the pool is lost. -/
theorem not_restored_pooled :
    ¬ ∀ (s : State HttpFrame HttpDeriverHook Nat) as s', Rejects Pool.pooledConfig s as s' →
      Restored s.pool s'.pool s'.asked := by
  intro all
  have run : Run (step Pool.pooledConfig) (idleState requestLine) pooledActions _ := .of_exec rfl
  obtain ⟨gone, whole, stale⟩ := all _ _ _ ⟨⟨rfl, rfl, rfl, rfl⟩, run, rfl, ⟨_, rfl⟩, rfl⟩ requestLine
  have whole : [(⟨7, 0⟩ : StabledConnection Nat)].Perm (gone ++ []) := whole
  rw [List.append_nil] at whole
  obtain ⟨now, asked, expired⟩ := stale ⟨7, 0⟩ (whole.subset List.mem_cons_self)
  cases asked
  cases expired

end http

end Rejection

end Railscale
