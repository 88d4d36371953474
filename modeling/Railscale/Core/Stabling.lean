import Railscale.Lib.Bytes
import Railscale.Lib.Map

/-!
# The pool of idle destinations

Model of `train_track/src/core/stabling.rs`. A queue is listed from its back, where `release` pushes and
`acquire` pops. Every access to the `DashMap` is one function here: `acquire` is the guarded loop `pop`
and, after the guard is dropped, `remove`. The clock is an argument.
-/

namespace Railscale

/-- Rust `StablingConfig`. Times are in nanoseconds. -/
structure StablingConfig where
  maxIdlePerHost : Nat := 8
  maxTotalIdle : Nat := 64
  idleTimeout : Nat := 90 * 10 ^ 9
  enabled : Bool := true

/-- Rust `StabledConnection`. -/
structure StabledConnection (D : Type) where
  dest : D
  stabledAt : Nat
  deriving DecidableEq

/-- Rust `Stabling`. -/
structure Stabling (D : Type) where
  config : StablingConfig
  idle : AList fun _ : Bytes => List (StabledConnection D)

/-- What the guarded loop of `acquire` found, and whether it emptied the queue of its key. -/
structure Popped (D : Type) where
  dest : Option D
  emptied : Bool

namespace Stabling

variable {D : Type}

/-- Rust `Stabling::new`. -/
def new (config : StablingConfig) : Stabling D := ⟨config, ∅⟩

/-- Whether a connection is younger than `idle_timeout`. -/
def fresh (s : Stabling D) (now : Nat) (conn : StabledConnection D) : Bool :=
  now - conn.stabledAt < s.config.idleTimeout

/-- The loop of `acquire`: pop until a connection is fresh. -/
def popLoop (fresh : StabledConnection D → Bool) :
    List (StabledConnection D) → Option D × List (StabledConnection D)
  | [] => (none, [])
  | conn :: queue => if fresh conn then (some conn.dest, queue) else popLoop fresh queue

/-- The guarded part of `acquire`. -/
def pop (s : Stabling D) (routingKey : Bytes) (now : Nat) : Popped D × Stabling D :=
  if s.config.enabled then
    match s.idle.lookup routingKey with
    | none => (⟨none, false⟩, s)
    | some queue =>
      let (dest, queue) := popLoop (s.fresh now) queue
      (⟨dest, queue.isEmpty⟩, { s with idle := s.idle.insert routingKey queue })
  else (⟨none, false⟩, s)

/-- The removal of a key that `acquire` has emptied. -/
def remove (s : Stabling D) (routingKey : Bytes) : Stabling D :=
  { s with idle := s.idle.erase routingKey }

/-- Rust `Stabling::acquire`, when nothing comes between its two accesses. -/
def acquire (s : Stabling D) (routingKey : Bytes) (now : Nat) : Option D × Stabling D :=
  let (found, s) := s.pop routingKey now
  (found.dest, if found.emptied then s.remove routingKey else s)

/-- Rust `Stabling::release`. -/
def release (s : Stabling D) (routingKey : Bytes) (dest : D) (now : Nat) : Stabling D :=
  if s.config.enabled then
    let queue := (s.idle.lookup routingKey).getD []
    let queue := if queue.length ≥ s.config.maxIdlePerHost then queue.dropLast else queue
    { s with idle := s.idle.insert routingKey (⟨dest, now⟩ :: queue) }
  else s

/-- Rust `Stabling::reap_expired`. -/
def reapExpired (s : Stabling D) (now : Nat) : Stabling D :=
  { s with idle := s.idle.retain fun queue =>
    let queue := queue.filter (s.fresh now)
    if queue.isEmpty then none else some queue }

/-- Rust `Stabling::idle_count`. -/
def idleCount (s : Stabling D) : Nat := (s.idle.entries.map fun e => e.2.length).sum

/-- The queue of a key, empty when there is none. -/
def queue (s : Stabling D) (routingKey : Bytes) : List (StabledConnection D) :=
  (s.idle.lookup routingKey).getD []

/-- The destination is stored under the key. -/
def Stabled (s : Stabling D) (routingKey : Bytes) (dest : D) : Prop :=
  ∃ queue conn, s.idle.lookup routingKey = some queue ∧ conn ∈ queue ∧ conn.dest = dest

/-! ## What an access leaves in the pool -/

/-- A new pool holds nothing. -/
lemma not_stabled_new (config : StablingConfig) (k : Bytes) (d : D) : ¬ (new config).Stabled k d := by
  rintro ⟨queue, conn, h, -⟩
  cases (AList.lookup_empty k).symm.trans h

/-- What the loop over a queue takes and what it leaves was in the queue. -/
lemma popLoop_subset (fresh : StabledConnection D → Bool) (queue : List (StabledConnection D)) :
    (∀ d, (popLoop fresh queue).1 = some d → ∃ conn ∈ queue, conn.dest = d) ∧
      (popLoop fresh queue).2 ⊆ queue := by
  induction queue with
  | nil => exact ⟨nofun, List.Subset.refl _⟩
  | cons conn queue ih =>
    rw [popLoop]
    split
    · refine ⟨fun d h => ⟨conn, List.mem_cons_self, Option.some.inj h⟩, List.subset_cons_self _ _⟩
    · refine ⟨fun d h => ?_, List.subset_cons_of_subset _ ih.2⟩
      obtain ⟨conn', mem, e⟩ := ih.1 d h
      exact ⟨conn', List.mem_cons_of_mem _ mem, e⟩

/-- What is stored after a queue was replaced. -/
lemma stabled_insert {s : Stabling D} {key k : Bytes} {queue : List (StabledConnection D)} {d : D}
    (h : Stabled { s with idle := s.idle.insert key queue } k d) :
    (k = key ∧ ∃ conn ∈ queue, conn.dest = d) ∨ s.Stabled k d := by
  obtain ⟨queue', conn, look, mem, e⟩ := h
  by_cases same : k = key
  · subst same
    rw [AList.lookup_insert] at look
    cases look
    exact .inl ⟨rfl, conn, mem, e⟩
  · rw [AList.lookup_insert_ne same] at look
    exact .inr ⟨queue', conn, look, mem, e⟩

/-- The loop takes a destination of the key. -/
lemma stabled_of_pop {s : Stabling D} {key : Bytes} {now : Nat} {d : D}
    (h : (s.pop key now).1.dest = some d) : s.Stabled key d := by
  unfold pop at h
  split at h
  · split at h
    · cases h
    · rename_i queue look
      obtain ⟨conn, mem, e⟩ := (popLoop_subset _ queue).1 d h
      exact ⟨queue, conn, look, mem, e⟩
  · cases h

/-- The loop adds nothing. -/
lemma stabled_pop {s : Stabling D} {key k : Bytes} {now : Nat} {d : D}
    (h : (s.pop key now).2.Stabled k d) : s.Stabled k d := by
  unfold pop at h
  split at h
  · split at h
    · exact h
    · rename_i queue look
      rcases stabled_insert h with ⟨rfl, conn, mem, e⟩ | h
      · exact ⟨queue, conn, look, (popLoop_subset _ queue).2 mem, e⟩
      · exact h
  · exact h

/-- What is stored behind a removal was stored. -/
lemma stabled_remove {s : Stabling D} {key k : Bytes} {d : D} (h : (s.remove key).Stabled k d) :
    s.Stabled k d := by
  obtain ⟨queue, conn, look, mem, e⟩ := h
  by_cases same : k = key
  · subst same
    rw [remove, AList.lookup_erase] at look
    cases look
  · rw [remove, AList.lookup_erase_ne same] at look
    exact ⟨queue, conn, look, mem, e⟩

/-- `release` adds the destination, under its key, and nothing else. -/
lemma stabled_release {s : Stabling D} {key k : Bytes} {dest d : D} {now : Nat}
    (h : (s.release key dest now).Stabled k d) : (k = key ∧ d = dest) ∨ s.Stabled k d := by
  unfold release at h
  split at h
  · rcases stabled_insert h with ⟨rfl, conn, mem, e⟩ | h
    · rcases List.mem_cons.1 mem with rfl | mem
      · exact .inl ⟨rfl, e.symm⟩
      · have mem : conn ∈ (s.idle.lookup k).getD [] := by
          split at mem
          · exact List.dropLast_subset _ mem
          · exact mem
        cases look : s.idle.lookup k with
        | none =>
          rw [look] at mem
          cases mem
        | some queue =>
          rw [look] at mem
          exact .inr ⟨queue, conn, look, mem, e⟩
    · exact .inr h
  · exact .inr h

/-- What is stored behind a reap was stored. -/
lemma stabled_reapExpired {s : Stabling D} {k : Bytes} {d : D} {now : Nat}
    (h : (s.reapExpired now).Stabled k d) : s.Stabled k d := by
  obtain ⟨queue, conn, look, mem, e⟩ := h
  rw [reapExpired, AList.lookup_retain] at look
  obtain ⟨queue', look', kept⟩ := Option.bind_eq_some_iff.1 look
  simp only [Option.ite_none_left_eq_some] at kept
  cases kept.2
  exact ⟨queue', conn, look', List.mem_of_mem_filter mem, e⟩

/-! ## What an access does to the queues -/

/-- A connection has expired when it was stored `idle_timeout` ago. -/
lemma fresh_eq_false {s : Stabling D} {now : Nat} {conn : StabledConnection D} :
    s.fresh now conn = false ↔ s.config.idleTimeout ≤ now - conn.stabledAt := by
  rw [fresh, decide_eq_false_iff_not, Nat.not_lt]

/-- The loop drops what is not fresh, up to the first connection that is. -/
lemma popLoop_cases (fresh : StabledConnection D → Bool) (queue : List (StabledConnection D)) :
    (popLoop fresh queue = (none, []) ∧ ∀ conn ∈ queue, fresh conn = false) ∨
      ∃ old conn rest, queue = old ++ conn :: rest ∧ popLoop fresh queue = (some conn.dest, rest) ∧
        fresh conn = true ∧ ∀ conn ∈ old, fresh conn = false := by
  induction queue with
  | nil => exact .inl ⟨rfl, nofun⟩
  | cons conn queue ih =>
    cases isFresh : fresh conn with
    | true =>
      refine .inr ⟨[], conn, queue, rfl, ?_, isFresh, nofun⟩
      rw [popLoop, if_pos isFresh]
    | false =>
      have skip : popLoop fresh (conn :: queue) = popLoop fresh queue := by
        rw [popLoop, if_neg (ne_true_of_eq_false isFresh)]
      rw [skip]
      rcases ih with ⟨e, stale⟩ | ⟨old, conn', rest, rfl, e, isFresh', stale⟩
      · exact .inl ⟨e, List.forall_mem_cons.2 ⟨isFresh, stale⟩⟩
      · exact .inr ⟨conn :: old, conn', rest, rfl, e, isFresh', List.forall_mem_cons.2 ⟨isFresh, stale⟩⟩

/-- A new pool has empty queues. -/
lemma queue_new (config : StablingConfig) (k : Bytes) : (new config : Stabling D).queue k = [] := by
  rw [queue, new, AList.lookup_empty]
  rfl

/-- An insertion replaces one queue. -/
lemma queue_insert (s : Stabling D) (key : Bytes) (q : List (StabledConnection D)) (k : Bytes) :
    queue { s with idle := s.idle.insert key q } k = if k = key then q else s.queue k := by
  rw [queue]
  split
  · rename_i same
    rw [same, AList.lookup_insert]
    rfl
  · rename_i other
    rw [AList.lookup_insert_ne other]
    rfl

/-- A removal empties one queue. -/
lemma queue_remove (s : Stabling D) (key k : Bytes) :
    (s.remove key).queue k = if k = key then [] else s.queue k := by
  rw [queue, remove]
  split
  · rename_i same
    rw [same, AList.lookup_erase]
    rfl
  · rename_i other
    rw [AList.lookup_erase_ne other]
    rfl

/-- The guarded part of `acquire` runs its loop on the queue of the key. -/
lemma pop_spec {s : Stabling D} (enabled : s.config.enabled = true) (key : Bytes) (now : Nat) :
    (s.pop key now).1.dest = (popLoop (s.fresh now) (s.queue key)).1 ∧
      (s.pop key now).2.config = s.config ∧
      ∀ k, (s.pop key now).2.queue k =
        if k = key then (popLoop (s.fresh now) (s.queue key)).2 else s.queue k := by
  rw [pop, if_pos enabled]
  cases look : s.idle.lookup key with
  | none =>
    have empty : s.queue key = [] := by
      rw [queue, look]
      rfl
    rw [empty]
    refine ⟨rfl, rfl, fun k => ?_⟩
    by_cases same : k = key
    · rw [if_pos same, same]
      exact empty
    · rw [if_neg same]
  | some q =>
    have whole : s.queue key = q := by
      rw [queue, look]
      rfl
    rw [whole]
    exact ⟨rfl, rfl, queue_insert s key _⟩

/-- A disabled pool gives nothing. -/
lemma pop_disabled {s : Stabling D} (disabled : s.config.enabled = false) (key : Bytes) (now : Nat) :
    s.pop key now = (⟨none, false⟩, s) := by
  rw [pop, if_neg (ne_true_of_eq_false disabled)]

/-- A call of `acquire` keeps the configuration. -/
lemma config_acquire (s : Stabling D) (key : Bytes) (now : Nat) : (s.acquire key now).2.config = s.config := by
  have pop : (s.pop key now).2.config = s.config := by
    cases enabled : s.config.enabled with
    | true => exact (pop_spec enabled key now).2.1
    | false => rw [pop_disabled enabled]
  show (if (s.pop key now).1.emptied then (s.pop key now).2.remove key else (s.pop key now).2).config = s.config
  split
  · exact pop
  · exact pop

/-- A release keeps the configuration. -/
lemma config_release (s : Stabling D) (key : Bytes) (dest : D) (now : Nat) :
    (s.release key dest now).config = s.config := by
  rw [release]
  split
  · rfl
  · rfl

/-- The loop has emptied the queue when the key is to be removed. -/
lemma queue_emptied {s : Stabling D} {key : Bytes} {now : Nat} (h : (s.pop key now).1.emptied = true) :
    (s.pop key now).2.queue key = [] := by
  unfold pop at h ⊢
  split at h
  · rename_i enabled
    rw [if_pos enabled]
    split at h
    · cases h
    · refine (queue_insert s key _ key).trans ?_
      rw [if_pos rfl]
      exact List.isEmpty_iff.1 h
  · cases h

/-- `acquire` runs its loop on the queue of the key, and a key that it removes has an empty queue. -/
lemma acquire_spec {s : Stabling D} (enabled : s.config.enabled = true) (key : Bytes) (now : Nat) :
    (s.acquire key now).1 = (popLoop (s.fresh now) (s.queue key)).1 ∧
      ∀ k, (s.acquire key now).2.queue k =
        if k = key then (popLoop (s.fresh now) (s.queue key)).2 else s.queue k := by
  obtain ⟨dest, -, queues⟩ := pop_spec enabled key now
  refine ⟨dest, fun k => ?_⟩
  show (if (s.pop key now).1.emptied then (s.pop key now).2.remove key else (s.pop key now).2).queue k = _
  split
  · rename_i emptied
    rw [queue_remove, queues]
    split
    · rw [← queue_emptied emptied, queues, if_pos rfl]
    · rfl
  · exact queues k

/-- A disabled pool gives nothing and stays as it is. -/
lemma acquire_disabled {s : Stabling D} (disabled : s.config.enabled = false) (key : Bytes) (now : Nat) :
    s.acquire key now = (none, s) := by
  rw [acquire, pop_disabled disabled]
  rfl

/-- A disabled pool takes nothing. -/
lemma release_disabled {s : Stabling D} (disabled : s.config.enabled = false) (key : Bytes) (dest : D)
    (now : Nat) : s.release key dest now = s := by
  rw [release, if_neg (ne_true_of_eq_false disabled)]

/-- The connections that `release` leaves in the queue: all, or all but the oldest. -/
def kept (s : Stabling D) (key : Bytes) : List (StabledConnection D) :=
  if (s.queue key).length ≥ s.config.maxIdlePerHost then (s.queue key).dropLast else s.queue key

/-- What a release keeps was in the queue, in order. -/
lemma kept_sublist (s : Stabling D) (key : Bytes) : (s.kept key).Sublist (s.queue key) := by
  rw [kept]
  split
  · exact List.dropLast_sublist _
  · exact List.Sublist.refl _

/-- A release puts the connection in front of what it keeps. -/
lemma release_spec {s : Stabling D} (enabled : s.config.enabled = true) (key : Bytes) (dest : D) (now : Nat) :
    s.release key dest now = { s with idle := s.idle.insert key (⟨dest, now⟩ :: s.kept key) } := by
  rw [release, if_pos enabled]
  rfl

/-- A release changes the queue of its key only. -/
lemma queue_release {s : Stabling D} (enabled : s.config.enabled = true) (key : Bytes) (dest : D) (now : Nat)
    (k : Bytes) :
    (s.release key dest now).queue k = if k = key then ⟨dest, now⟩ :: s.kept key else s.queue k := by
  rw [release_spec enabled]
  exact queue_insert s key _ k

/-- Reaping leaves what is fresh. -/
lemma queue_reapExpired (s : Stabling D) (now : Nat) (k : Bytes) :
    (s.reapExpired now).queue k = (s.queue k).filter (s.fresh now) := by
  rw [queue, reapExpired, AList.lookup_retain, queue]
  cases s.idle.lookup k with
  | none => rfl
  | some q =>
    rw [Option.bind_some, Option.getD_some]
    by_cases empty : (q.filter (s.fresh now)).isEmpty = true
    · rw [if_pos empty, List.isEmpty_iff.1 empty]
      rfl
    · rw [if_neg empty]
      rfl

end Stabling

end Railscale
