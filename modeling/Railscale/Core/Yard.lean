import Railscale.Core.Stabling
import Railscale.Lib.Run

/-!
# The books of the pool

A pool together with the books of what went in and out of it. Connections are told apart by the number of
their release, so that the pool stores pairs of a number and a destination; `Stabling` does not look at them.

An access to the `DashMap` is one step, and a run is an interleaving of the accesses of any number of
callers: `pop` and, if it has emptied the queue, `remove` are the two accesses of one `acquire`, and anything
may come between them. `accounted_iff_harmless` says when no connection is lost in such a run.
-/

namespace Railscale

/-- A release in the books. -/
structure Release (D : Type) where
  number : Nat
  key : Bytes
  dest : D
  stabledAt : Nat

/-- The connection as the pool stores it. -/
def Release.conn {D : Type} (r : Release D) : StabledConnection (Nat × D) := ⟨(r.number, r.dest), r.stabledAt⟩

/-- A pool and its books. -/
structure Yard (D : Type) where
  pool : Stabling (Nat × D)
  /-- the keys that some callers of `acquire` have emptied and are about to remove -/
  emptied : List Bytes
  clock : Nat
  /-- the latest release first, numbered in their order -/
  released : List (Release D)
  /-- the numbers of what was returned, with the keys it was asked for under -/
  returned : List (Nat × Bytes)
  /-- the numbers of what a release has evicted -/
  evicted : List Nat

/-- The accesses to the pool. -/
inductive Access (D : Type) where
  | pop (key : Bytes)
  | remove (key : Bytes)
  | release (key : Bytes) (dest : D)
  | reapExpired

namespace Yard

variable {D : Type}

/-- An empty pool with empty books. -/
def new (config : StablingConfig) : Yard D := ⟨.new config, [], 0, [], [], []⟩

/-- What a release evicts: the oldest connection of a queue that it finds full. -/
def evictee (s : Stabling (Nat × D)) (key : Bytes) : Option Nat :=
  if (s.queue key).length ≥ s.config.maxIdlePerHost then (s.queue key).getLast?.map (·.dest.1) else none

/-- Booking what was returned for a key. -/
def book (y : Yard D) (key : Bytes) : Option (Nat × D) → List (Nat × Bytes)
  | some (n, _) => (n, key) :: y.returned
  | none => y.returned

/-- The guarded part of `acquire`. -/
def pop (y : Yard D) (key : Bytes) (now : Nat) : Yard D :=
  let (found, pool) := y.pool.pop key now
  { y with
    pool := pool
    clock := now
    emptied := if found.emptied then key :: y.emptied else y.emptied
    returned := y.book key found.dest }

/-- The removal of an emptied key. -/
def remove (y : Yard D) (key : Bytes) (now : Nat) : Yard D :=
  { y with pool := y.pool.remove key, clock := now, emptied := y.emptied.erase key }

/-- A release. A pool that is disabled drops the connection, and it does not get into the books. -/
def release (y : Yard D) (key : Bytes) (dest : D) (now : Nat) : Yard D :=
  let n := y.released.length
  if y.pool.config.enabled then
    { y with
      pool := y.pool.release key (n, dest) now
      clock := now
      released := ⟨n, key, dest, now⟩ :: y.released
      evicted := (evictee y.pool key).toList ++ y.evicted }
  else { y with clock := now }

/-- A run of the reaper. -/
def reapExpired (y : Yard D) (now : Nat) : Yard D :=
  { y with pool := y.pool.reapExpired now, clock := now }

/-- One access, at a time that is not before the last one. Only an emptied key is removed. -/
def step (y : Yard D) (a : Nat × Access D) : Option (Yard D) :=
  if a.1 < y.clock then none
  else
    match a.2 with
    | .pop key => some (y.pop key a.1)
    | .remove key => if key ∈ y.emptied then some (y.remove key a.1) else none
    | .release key dest => some (y.release key dest a.1)
    | .reapExpired => some (y.reapExpired a.1)

/-! ## The books are right -/

/-- The numbers of what was returned. -/
def out (y : Yard D) : List Nat := y.returned.map Prod.fst

/-- What the books say is so, whatever the interleaving. -/
structure Inv (y : Yard D) : Prop where
  below : ∀ r ∈ y.released, r.number < y.released.length
  numbers : (y.released.map Release.number).Nodup
  /-- a stored connection is in the books, under its key, and neither returned nor evicted -/
  stored : ∀ k, ∀ conn ∈ y.pool.queue k, ∃ r ∈ y.released, r.key = k ∧ r.conn = conn ∧
    r.number ∉ y.out ∧ r.number ∉ y.evicted
  /-- a queue has its latest connection in front -/
  sorted : ∀ k, (y.pool.queue k).Pairwise fun conn conn' => conn'.dest.1 < conn.dest.1
  once : y.out.Nodup
  /-- what was returned was released under the key it was asked for under -/
  given : ∀ n k, (n, k) ∈ y.returned → ∃ r ∈ y.released, r.number = n ∧ r.key = k
  known : ∀ n ∈ y.evicted, n < y.released.length

/-- Every connection in the books is still stored, was returned, was evicted, or has reached
`idle_timeout`. -/
def Accounted (y : Yard D) : Prop :=
  ∀ r ∈ y.released, r.conn ∈ y.pool.queue r.key ∨ r.number ∈ y.out ∨ r.number ∈ y.evicted ∨
    y.pool.config.idleTimeout ≤ y.clock - r.stabledAt

/-- A step does not remove a key that holds a fresh connection. -/
def Harmless (y : Yard D) (a : Nat × Access D) : Prop :=
  match a.2 with
  | .remove key => ∀ conn ∈ y.pool.queue key, y.pool.fresh a.1 conn = false
  | _ => True

section books

variable {y : Yard D}

/-- A new pool has no releases. -/
lemma Inv.new (config : StablingConfig) : Inv (new config : Yard D) where
  below := nofun
  numbers := List.nodup_nil
  stored k conn mem := by
    rw [Yard.new, Stabling.queue_new] at mem
    cases mem
  sorted k := by
    rw [Yard.new, Stabling.queue_new]
    exact .nil
  once := List.nodup_nil
  given := nofun
  known := nofun

/-- A release is known by its number. -/
lemma Inv.unique (inv : Inv y) {r r' : Release D} (h : r ∈ y.released) (h' : r' ∈ y.released)
    (same : r.number = r'.number) : r = r' :=
  List.inj_on_of_nodup_map inv.numbers h h' same

/-- A connection is stored under one key only. -/
lemma Inv.number_ne (inv : Inv y) {key k : Bytes} {conn conn' : StabledConnection (Nat × D)}
    (h : conn ∈ y.pool.queue key) (h' : conn' ∈ y.pool.queue k) (other : k ≠ key) :
    conn'.dest.1 ≠ conn.dest.1 := by
  obtain ⟨r, mem, rfl, rfl, -⟩ := inv.stored key conn h
  obtain ⟨r', mem', rfl, rfl, -⟩ := inv.stored k conn' h'
  -- two releases of one number are one release, and that has one key
  intro same
  rw [inv.unique mem' mem same] at other
  exact other rfl

/-- Queues that have only become shorter. -/
lemma Inv.shrink (inv : Inv y) {pool : Stabling (Nat × D)}
    (sub : ∀ k, (pool.queue k).Sublist (y.pool.queue k)) (clock : Nat) (emptied : List Bytes) :
    Inv { y with pool := pool, clock := clock, emptied := emptied } where
  below := inv.below
  numbers := inv.numbers
  stored k conn mem := inv.stored k conn ((sub k).subset mem)
  sorted k := (inv.sorted k).sublist (sub k)
  once := inv.once
  given := inv.given
  known := inv.known

/-- What is returned has left the queues. -/
lemma Inv.give (inv : Inv y) {key : Bytes} {conn : StabledConnection (Nat × D)} (mem : conn ∈ y.pool.queue key)
    {pool : Stabling (Nat × D)} (sub : ∀ k, (pool.queue k).Sublist (y.pool.queue k))
    (gone : ∀ k, ∀ conn' ∈ pool.queue k, conn'.dest.1 ≠ conn.dest.1) (clock : Nat) (emptied : List Bytes) :
    Inv { y with
      pool := pool, clock := clock, emptied := emptied, returned := (conn.dest.1, key) :: y.returned } where
  below := inv.below
  numbers := inv.numbers
  stored k conn' mem' := by
    obtain ⟨r, hr, key', rfl, notOut, notEvicted⟩ := inv.stored k conn' ((sub k).subset mem')
    refine ⟨r, hr, key', rfl, ?_, notEvicted⟩
    exact List.not_mem_cons_of_ne_of_not_mem (gone k _ mem') notOut
  sorted k := (inv.sorted k).sublist (sub k)
  once := by
    obtain ⟨r, -, -, rfl, notOut, -⟩ := inv.stored key conn mem
    exact List.nodup_cons.2 ⟨notOut, inv.once⟩
  given n k h := by
    rcases List.mem_cons.1 h with e | h
    · cases e
      obtain ⟨r, hr, key', rfl, -⟩ := inv.stored key conn mem
      exact ⟨r, hr, rfl, key'⟩
    · exact inv.given n k h
  known := inv.known

/-- What is evicted has left the queues. -/
lemma Inv.evict (inv : Inv y) {key : Bytes} {conn : StabledConnection (Nat × D)} (mem : conn ∈ y.pool.queue key)
    {pool : Stabling (Nat × D)} (sub : ∀ k, (pool.queue k).Sublist (y.pool.queue k))
    (gone : ∀ k, ∀ conn' ∈ pool.queue k, conn'.dest.1 ≠ conn.dest.1) (clock : Nat) :
    Inv { y with pool := pool, clock := clock, evicted := conn.dest.1 :: y.evicted } where
  below := inv.below
  numbers := inv.numbers
  stored k conn' mem' := by
    obtain ⟨r, hr, key', rfl, notOut, notEvicted⟩ := inv.stored k conn' ((sub k).subset mem')
    refine ⟨r, hr, key', rfl, notOut, ?_⟩
    exact List.not_mem_cons_of_ne_of_not_mem (gone k _ mem') notEvicted
  sorted k := (inv.sorted k).sublist (sub k)
  once := inv.once
  given := inv.given
  known n h := by
    rcases List.mem_cons.1 h with rfl | h
    · obtain ⟨r, hr, -, rfl, -⟩ := inv.stored key conn mem
      exact inv.below r hr
    · exact inv.known n h

/-- A new connection goes to the front of its queue. -/
lemma Inv.push (inv : Inv y) (key : Bytes) (dest : D) (now : Nat) {pool : Stabling (Nat × D)}
    (queues : ∀ k, pool.queue k =
      if k = key then ⟨(y.released.length, dest), now⟩ :: y.pool.queue key else y.pool.queue k) :
    Inv { y with
      pool := pool, clock := now, released := ⟨y.released.length, key, dest, now⟩ :: y.released } where
  below r h := by
    rcases List.mem_cons.1 h with rfl | h
    · exact Nat.lt_succ_self _
    · exact Nat.lt_succ_of_lt (inv.below r h)
  numbers := by
    refine List.nodup_cons.2 ⟨fun h => ?_, inv.numbers⟩
    obtain ⟨r, hr, e⟩ := List.mem_map.1 h
    exact absurd (inv.below r hr) (e ▸ Nat.lt_irrefl _)
  stored k conn mem := by
    rw [queues] at mem
    have old : conn ∈ y.pool.queue k → ∃ r ∈ ⟨y.released.length, key, dest, now⟩ :: y.released,
        r.key = k ∧ r.conn = conn ∧ r.number ∉ y.out ∧ r.number ∉ y.evicted := by
      intro mem
      obtain ⟨r, hr, rest⟩ := inv.stored k conn mem
      exact ⟨r, List.mem_cons_of_mem _ hr, rest⟩
    split at mem
    · rename_i same
      rcases List.mem_cons.1 mem with rfl | mem
      · refine ⟨_, List.mem_cons_self, same.symm, rfl, fun h => ?_, fun h => ?_⟩
        · obtain ⟨⟨n, k'⟩, given, rfl⟩ := List.mem_map.1 h
          obtain ⟨r, hr, e, -⟩ := inv.given _ k' given
          exact absurd (inv.below r hr) (e ▸ Nat.lt_irrefl _)
        · exact absurd (inv.known _ h) (Nat.lt_irrefl _)
      · exact old (same ▸ mem)
    · exact old mem
  sorted k := by
    rw [queues]
    split
    · refine List.pairwise_cons.2 ⟨fun conn mem => ?_, inv.sorted key⟩
      obtain ⟨r, hr, -, rfl, -⟩ := inv.stored key conn mem
      exact inv.below r hr
    · exact inv.sorted k
  once := inv.once
  given n k h := by
    obtain ⟨r, hr, rest⟩ := inv.given n k h
    exact ⟨r, List.mem_cons_of_mem _ hr, rest⟩
  known n h := Nat.lt_succ_of_lt (inv.known n h)

/-- Only what has left its queue is to be looked at. -/
lemma Accounted.keep (acc : Accounted y) {y' : Yard D} (config : y'.pool.config = y.pool.config)
    (le : y.clock ≤ y'.clock) (out : y.out ⊆ y'.out) (evicted : y.evicted ⊆ y'.evicted)
    (released : ∀ r ∈ y'.released, r ∈ y.released ∨ r.conn ∈ y'.pool.queue r.key)
    (left : ∀ r ∈ y.released, r.conn ∈ y.pool.queue r.key → r.conn ∈ y'.pool.queue r.key ∨ r.number ∈ y'.out ∨
      r.number ∈ y'.evicted ∨ y.pool.config.idleTimeout ≤ y'.clock - r.stabledAt) : Accounted y' := by
  intro r hr
  rw [config]
  rcases released r hr with old | new
  · rcases acc r old with stored | returned | gone | expired
    · exact left r old stored
    · exact .inr (.inl (out returned))
    · exact .inr (.inr (.inl (evicted gone)))
    · exact .inr (.inr (.inr (by omega)))
  · exact .inl new

/-- The same when nothing is booked. -/
lemma Accounted.shrink (acc : Accounted y) (pool : Stabling (Nat × D)) (config : pool.config = y.pool.config)
    {now : Nat} (le : y.clock ≤ now) (emptied : List Bytes)
    (left : ∀ r ∈ y.released, r.conn ∈ y.pool.queue r.key →
      r.conn ∈ pool.queue r.key ∨ y.pool.fresh now r.conn = false) :
    Accounted { y with pool := pool, clock := now, emptied := emptied } := by
  refine acc.keep config le (List.Subset.refl _) (List.Subset.refl _) (fun r hr => .inl hr) fun r hr stored => ?_
  rcases left r hr stored with stored | stale
  · exact .inl stored
  · exact .inr (.inr (.inr (Stabling.fresh_eq_false.1 stale)))

end books

/-! ## The accesses -/

section accesses

variable {y : Yard D} {now : Nat}

/-- The guarded part of `acquire`, in one step. -/
lemma pop_eq (y : Yard D) (key : Bytes) (now : Nat) :
    y.pop key now = { y with
      pool := (y.pool.pop key now).2
      clock := now
      emptied := if (y.pool.pop key now).1.emptied then key :: y.emptied else y.emptied
      returned := y.book key (y.pool.pop key now).1.dest } :=
  rfl

/-- Another pool, with the queue `q` under the key and the same queues elsewhere. -/
def Replaces (s : Stabling (Nat × D)) (key : Bytes) (q : List (StabledConnection (Nat × D)))
    (pool : Stabling (Nat × D)) : Prop :=
  ∀ k, pool.queue k = if k = key then q else s.queue k

/-- A queue that is replaced by a part of it leaves every queue a part of what it was. -/
lemma Replaces.sublist {s pool : Stabling (Nat × D)} {key : Bytes} {q} (queues : Replaces s key q pool)
    (sub : q.Sublist (s.queue key)) (k : Bytes) : (pool.queue k).Sublist (s.queue k) := by
  rw [queues]
  split
  · rename_i same
    rw [same]
    exact sub
  · exact .refl _

/-- The queues of other keys stay. -/
lemma Replaces.other {s pool : Stabling (Nat × D)} {key : Bytes} {q} (queues : Replaces s key q pool)
    {r : Release D} (other : r.key ≠ key) (stored : r.conn ∈ s.queue r.key) : r.conn ∈ pool.queue r.key := by
  rwa [queues, if_neg other]

/-- A connection that is no more in its queue is in no other. -/
lemma Inv.gone (inv : Inv y) {key : Bytes} {conn : StabledConnection (Nat × D)} (mem : conn ∈ y.pool.queue key)
    {pool : Stabling (Nat × D)} {q} (queues : Replaces y.pool key q pool)
    (ne : ∀ conn' ∈ q, conn'.dest.1 ≠ conn.dest.1) (k : Bytes) :
    ∀ conn' ∈ pool.queue k, conn'.dest.1 ≠ conn.dest.1 := by
  intro conn' mem'
  rw [queues] at mem'
  split at mem'
  · exact ne conn' mem'
  · rename_i other
    exact inv.number_ne mem mem' other

/-- A queue that has lost only what has expired. -/
lemma drop_keeps (inv : Inv y) (acc : Accounted y) (le : y.clock ≤ now) {pool : Stabling (Nat × D)}
    (config : pool.config = y.pool.config) {key : Bytes} (queues : Replaces y.pool key [] pool)
    (stale : ∀ conn ∈ y.pool.queue key, y.pool.fresh now conn = false) (emptied : List Bytes) :
    Inv { y with pool := pool, clock := now, emptied := emptied } ∧
      Accounted { y with pool := pool, clock := now, emptied := emptied } := by
  refine ⟨inv.shrink (queues.sublist (List.nil_sublist _)) now emptied, acc.shrink pool config le emptied ?_⟩
  intro r _ stored
  by_cases same : r.key = key
  · rw [same] at stored
    exact .inr (stale _ stored)
  · exact .inl (queues.other same stored)

/-- A queue whose first fresh connection is returned, and that has lost what was in front of it. -/
lemma give_keeps (inv : Inv y) (acc : Accounted y) (le : y.clock ≤ now) {pool : Stabling (Nat × D)}
    (config : pool.config = y.pool.config) {key : Bytes} {old rest : List (StabledConnection (Nat × D))}
    {conn : StabledConnection (Nat × D)} (whole : y.pool.queue key = old ++ conn :: rest)
    (queues : Replaces y.pool key rest pool) (stale : ∀ conn ∈ old, y.pool.fresh now conn = false)
    (emptied : List Bytes) :
    Inv { y with
      pool := pool, clock := now, emptied := emptied, returned := (conn.dest.1, key) :: y.returned } ∧
    Accounted { y with
      pool := pool, clock := now, emptied := emptied, returned := (conn.dest.1, key) :: y.returned } := by
  have mem : conn ∈ y.pool.queue key := by
    rw [whole]
    exact List.mem_append_right _ List.mem_cons_self
  have sub : rest.Sublist (y.pool.queue key) := by
    rw [whole]
    exact (List.sublist_cons_self conn rest).trans (List.sublist_append_right old _)
  have sorted := inv.sorted key
  rw [whole, List.pairwise_append, List.pairwise_cons] at sorted
  have gone := inv.gone mem queues fun conn' mem' => Nat.ne_of_lt (sorted.2.1.1 conn' mem')
  refine ⟨inv.give mem (queues.sublist sub) gone now emptied, acc.keep config le ?_ ?_ ?_ ?_⟩
  · exact List.subset_cons_self _ _
  · exact List.Subset.refl _
  · exact fun r hr => .inl hr
  · intro r _ stored
    by_cases same : r.key = key
    · rw [same, whole] at stored
      rcases List.mem_append.1 stored with stored | stored
      -- in front of the connection, the connection itself, or behind it
      · exact .inr (.inr (.inr (Stabling.fresh_eq_false.1 (stale _ stored))))
      · rcases List.mem_cons.1 stored with rfl | stored
        · exact .inr (.inl List.mem_cons_self)
        · refine .inl ?_
          show r.conn ∈ pool.queue r.key
          rwa [queues, if_pos same]
    · exact .inl (queues.other same stored)

/-- The guarded part of `acquire` keeps the books right and loses nothing. -/
lemma pop_keeps (inv : Inv y) (acc : Accounted y) (le : y.clock ≤ now) (key : Bytes) :
    Inv (y.pop key now) ∧ Accounted (y.pop key now) := by
  rw [pop_eq]
  cases enabled : y.pool.config.enabled with
  | false =>
    rw [Stabling.pop_disabled enabled]
    exact ⟨inv.shrink (fun _ => .refl _) now _, acc.shrink _ rfl le _ fun r _ stored => .inl stored⟩
  | true =>
    obtain ⟨dest, config, queues⟩ := Stabling.pop_spec enabled key now
    rw [dest]
    rcases Stabling.popLoop_cases (y.pool.fresh now) (y.pool.queue key) with
      ⟨loop, stale⟩ | ⟨old, conn, rest, whole, loop, -, stale⟩
    · rw [loop] at queues ⊢
      exact drop_keeps inv acc le config queues stale _
    · rw [loop] at queues ⊢
      exact give_keeps inv acc le config whole queues stale _

/-- The reaper drops only what has expired. -/
lemma reapExpired_keeps (inv : Inv y) (acc : Accounted y) (le : y.clock ≤ now) :
    Inv (y.reapExpired now) ∧ Accounted (y.reapExpired now) := by
  have queues := Stabling.queue_reapExpired y.pool now
  have sub : ∀ k, ((y.pool.reapExpired now).queue k).Sublist (y.pool.queue k) := by
    intro k
    rw [queues]
    exact List.filter_sublist
  refine ⟨inv.shrink sub now y.emptied, acc.shrink (y.pool.reapExpired now) rfl le y.emptied fun r _ stored => ?_⟩
  cases fresh : y.pool.fresh now r.conn with
  | true =>
    rw [queues]
    exact .inl (List.mem_filter.2 ⟨stored, fresh⟩)
  | false => exact .inr rfl

/-- Removing an emptied queue keeps the invariant. -/
lemma Inv.remove (inv : Inv y) (key : Bytes) : Inv (y.remove key now) :=
  inv.shrink (Replaces.sublist (Stabling.queue_remove y.pool key) (List.nil_sublist _)) now _

/-- The removal of a key loses the fresh connections of its queue. -/
lemma remove_accounted (inv : Inv y) (acc : Accounted y) (le : y.clock ≤ now) (key : Bytes) :
    Accounted (y.remove key now) ↔ ∀ conn ∈ y.pool.queue key, y.pool.fresh now conn = false := by
  have queues : Replaces y.pool key [] (y.pool.remove key) := Stabling.queue_remove y.pool key
  constructor
  · intro acc' conn mem
    -- what was in the queue is neither returned nor evicted, so it must have expired
    obtain ⟨r, hr, same, rfl, notOut, notEvicted⟩ := inv.stored key conn mem
    rcases acc' r hr with stored | returned | gone | expired
    · have stored : r.conn ∈ (y.pool.remove key).queue r.key := stored
      rw [queues, if_pos same] at stored
      cases stored
    · exact absurd returned notOut
    · exact absurd gone notEvicted
    · exact Stabling.fresh_eq_false.2 expired
  · intro stale
    have config : (y.pool.remove key).config = y.pool.config := rfl
    exact (drop_keeps inv acc le config queues stale _).2

/-- A release evicts nothing and keeps the queue, or evicts its last connection and keeps the others. -/
lemma evictee_cases (s : Stabling (Nat × D)) (key : Bytes) :
    (evictee s key = none ∧ s.kept key = s.queue key) ∨
      ∃ conn, evictee s key = some conn.dest.1 ∧ s.queue key = s.kept key ++ [conn] := by
  rw [evictee, Stabling.kept]
  split
  · rcases List.eq_nil_or_concat' (s.queue key) with empty | ⟨init, conn, whole⟩
    · rw [empty]
      exact .inl ⟨rfl, rfl⟩
    · rw [whole, List.getLast?_concat, List.dropLast_concat]
      exact .inr ⟨conn, rfl, rfl⟩
  · exact .inl ⟨rfl, rfl⟩

/-- The books after an eviction, before the new connection is stored. -/
def evict (y : Yard D) (key : Bytes) (now : Nat) : Yard D :=
  { y with
    pool := { y.pool with idle := y.pool.idle.insert key (y.pool.kept key) }
    clock := now
    evicted := (evictee y.pool key).toList ++ y.evicted }

/-- An eviction replaces the queue by what is kept of it. -/
lemma queue_evict (y : Yard D) (key : Bytes) (now : Nat) :
    Replaces y.pool key (y.pool.kept key) (y.evict key now).pool :=
  Stabling.queue_insert y.pool key _

/-- An eviction keeps the invariant and the accounting. -/
lemma evict_keeps (inv : Inv y) (acc : Accounted y) (le : y.clock ≤ now) (key : Bytes) :
    Inv (y.evict key now) ∧ Accounted (y.evict key now) := by
  have queues := queue_evict y key now
  rcases evictee_cases y.pool key with ⟨nothing, kept⟩ | ⟨conn, evicted, whole⟩
  · have books : y.evict key now = { y with pool := (y.evict key now).pool, clock := now } := by
      rw [evict, nothing]
      rfl
    have sub : (y.pool.kept key).Sublist (y.pool.queue key) := by rw [kept]
    rw [books]
    refine ⟨inv.shrink (queues.sublist sub) now y.emptied, acc.shrink (y.evict key now).pool rfl le y.emptied ?_⟩
    intro r _ stored
    by_cases same : r.key = key
    · rw [queues, if_pos same, kept, ← same]
      exact .inl stored
    · exact .inl (queues.other same stored)
  · have books : y.evict key now =
        { y with pool := (y.evict key now).pool, clock := now, evicted := conn.dest.1 :: y.evicted } := by
      rw [evict, evicted]
      rfl
    have mem : conn ∈ y.pool.queue key := by
      rw [whole]
      exact List.mem_append_right _ List.mem_cons_self
    have sub : (y.pool.kept key).Sublist (y.pool.queue key) := by
      rw [whole]
      exact List.sublist_append_left _ _
    have sorted := inv.sorted key
    rw [whole, List.pairwise_append] at sorted
    have gone := inv.gone mem queues fun conn' mem' =>
      Nat.ne_of_gt (sorted.2.2 conn' mem' conn List.mem_cons_self)
    -- the queue is sorted, so the oldest connection is not among those that are kept
    rw [books]
    refine ⟨inv.evict mem (queues.sublist sub) gone now, acc.keep rfl le ?_ ?_ ?_ ?_⟩
    · exact List.Subset.refl _
    · exact List.subset_cons_self _ _
    · exact fun r hr => .inl hr
    · intro r _ stored
      by_cases same : r.key = key
      · rw [same, whole] at stored
        rcases List.mem_append.1 stored with stored | stored
        · refine .inl ?_
          show r.conn ∈ (y.evict key now).pool.queue r.key
          rwa [queues, if_pos same]
        · obtain rfl := List.mem_singleton.1 stored
          exact .inr (.inr (.inl List.mem_cons_self))
      · exact .inl (queues.other same stored)

/-- A release evicts and then stores. -/
lemma release_keeps (inv : Inv y) (acc : Accounted y) (le : y.clock ≤ now) (key : Bytes) (dest : D) :
    Inv (y.release key dest now) ∧ Accounted (y.release key dest now) := by
  rw [release]
  split
  · rename_i enabled
    obtain ⟨inv1, acc1⟩ := evict_keeps inv acc le key
    have queues : ∀ k, (y.pool.release key (y.released.length, dest) now).queue k =
        if k = key then ⟨(y.released.length, dest), now⟩ :: (y.evict key now).pool.queue key
        else (y.evict key now).pool.queue k := by
      intro k
      rw [Stabling.release_spec enabled, Stabling.queue_insert, queue_evict, queue_evict, if_pos rfl]
      split
      · rfl
      · rfl
    have config : (y.pool.release key (y.released.length, dest) now).config = y.pool.config := by
      rw [Stabling.release_spec enabled]
    refine ⟨inv1.push key dest now queues, acc1.keep config (Nat.le_refl _) ?_ ?_ ?_ ?_⟩
    · exact List.Subset.refl _
    · exact List.Subset.refl _
    · intro r hr
      rcases List.mem_cons.1 hr with rfl | hr
      · refine .inr ?_
        show _ ∈ (y.pool.release key (y.released.length, dest) now).queue key
        rw [queues, if_pos rfl]
        exact List.mem_cons_self
      · exact .inl hr
    · intro r _ stored
      refine .inl ?_
      show r.conn ∈ (y.pool.release key (y.released.length, dest) now).queue r.key
      rw [queues]
      split
      · rename_i same
        exact List.mem_cons_of_mem _ (same ▸ stored)
      · exact stored
  · exact ⟨inv.shrink (fun _ => .refl _) now y.emptied, acc.shrink _ rfl le y.emptied fun r _ stored => .inl stored⟩

/-- An access keeps the books right, and loses a connection exactly when it is not harmless. -/
lemma step_accounted (inv : Inv y) (acc : Accounted y) {a : Nat × Access D} {y' : Yard D}
    (st : y.step a = some y') : Inv y' ∧ (Accounted y' ↔ y.Harmless a) := by
  rw [step] at st
  split at st
  · cases st
  · rename_i le
    have le := Nat.le_of_not_lt le
    obtain ⟨now, access⟩ := a
    cases access with
    | pop key =>
      cases st
      obtain ⟨inv', acc'⟩ := pop_keeps inv acc le key
      exact ⟨inv', iff_of_true acc' trivial⟩
    | remove key =>
      obtain ⟨-, e⟩ := Option.ite_none_right_eq_some.1 st
      cases e
      exact ⟨inv.remove key, remove_accounted inv acc le key⟩
    | release key dest =>
      cases st
      obtain ⟨inv', acc'⟩ := release_keeps inv acc le key dest
      exact ⟨inv', iff_of_true acc' trivial⟩
    | reapExpired =>
      cases st
      obtain ⟨inv', acc'⟩ := reapExpired_keeps inv acc le
      exact ⟨inv', iff_of_true acc' trivial⟩

end accesses

/-- In an interleaving of accesses every connection is accounted for all along exactly when no key is
removed while its queue holds a fresh connection. -/
theorem accounted_iff_harmless (config : StablingConfig) (as : List (Nat × Access D)) :
    Always step Accounted (new config) as ↔ Every step Harmless (new config : Yard D) as :=
  always_iff_every (fun _ _ _ inv acc st => step_accounted inv acc st) (Inv.new config) nofun

/-- A release between the two accesses of an `acquire` that has emptied the queue: the second connection is
removed with the key. -/
theorem not_accounted_between :
    ¬ ∀ as : List (Nat × Access Unit), Always step Accounted (new {}) as := by
  intro always
  obtain ⟨y, run, queue, released, out, evicted, clock, timeout⟩ : ∃ y : Yard Unit,
      Run step (new {}) [(0, .release [107] ()), (0, .pop [107]), (0, .release [107] ()), (0, .remove [107])] y ∧
        y.pool.queue [107] = [] ∧ (⟨1, [107], (), 0⟩ : Release Unit) ∈ y.released ∧ y.out = [0] ∧ y.evicted = [] ∧
        y.clock = 0 ∧ y.pool.config.idleTimeout = 90 * 10 ^ 9 :=
    ⟨_, .of_exec rfl, rfl, List.mem_cons_self, rfl, rfl, rfl, rfl⟩
  rcases (always _).run run _ released with stored | returned | gone | expired
  · rw [queue] at stored
    cases stored
  · rw [out] at returned
    exact absurd returned (by decide)
  · rw [evicted] at gone
    cases gone
  · rw [clock, timeout] at expired
    exact absurd expired (by decide)

end Yard

end Railscale
