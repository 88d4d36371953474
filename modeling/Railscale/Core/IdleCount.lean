import Railscale.Core.Calls

/-!
# The size of the pool

`max_total_idle` is part of the configuration, and no operation reads it. `release` bounds the queue of its
own key; the pool as a whole grows with every release under a key whose queue has room. `within_iff_room` says
which runs stay within `max_total_idle` all the same, and `withinHost_iff_room` which runs stay within
`max_idle_per_host`.
-/

namespace Railscale

namespace Stabling

variable {D : Type}

/-- One call. -/
def call (s : Stabling D) (a : Nat × Call D) : Option (Stabling D) :=
  match a.2 with
  | .acquire key => some (s.acquire key a.1).2
  | .release key dest => some (s.release key dest a.1)
  | .reapExpired => some (s.reapExpired a.1)

/-! ## What a call does to the count -/

/-- The idle connections are counted queue by queue. -/
lemma idleCount_eq_total (s : Stabling D) : s.idleCount = s.idle.total List.length := rfl

/-- What is removed with a queue is the queue. -/
lemma idleCount_remove (s : Stabling D) (key : Bytes) :
    (s.remove key).idleCount + (s.queue key).length = s.idleCount := by
  have split := AList.total_erase List.length key s.idle
  rw [idleCount_eq_total, idleCount_eq_total, ← split, queue, remove]
  cases s.idle.lookup key with
  | none => rfl
  | some q => rfl

/-- What is in the pool behind an insertion, with the queue that it replaces. -/
lemma idleCount_insert (s : Stabling D) (key : Bytes) (q : List (StabledConnection D)) :
    idleCount { s with idle := s.idle.insert key q } + (s.queue key).length = q.length + s.idleCount := by
  have removed := idleCount_remove s key
  have inserted : idleCount { s with idle := s.idle.insert key q } = q.length + (s.remove key).idleCount :=
    AList.total_insert List.length key q s.idle
  omega

/-- The loop over a queue adds nothing. -/
lemma length_popLoop_le (fresh : StabledConnection D → Bool) (queue : List (StabledConnection D)) :
    (popLoop fresh queue).2.length ≤ queue.length := by
  rcases popLoop_cases fresh queue with ⟨loop, -⟩ | ⟨old, conn, rest, whole, loop, -⟩
  · rw [loop]
    exact Nat.zero_le _
  · rw [loop, whole, List.length_append, List.length_cons]
    show rest.length ≤ old.length + (rest.length + 1)
    omega

/-- The guarded part of `acquire` adds nothing. -/
lemma idleCount_pop_le (s : Stabling D) (key : Bytes) (now : Nat) : (s.pop key now).2.idleCount ≤ s.idleCount := by
  rw [pop]
  split
  · cases look : s.idle.lookup key with
    | none => exact Nat.le_refl _
    | some q =>
      have inserted := idleCount_insert s key (popLoop (s.fresh now) q).2
      have shorter := length_popLoop_le (s.fresh now) q
      have whole : s.queue key = q := by
        rw [queue, look]
        rfl
      rw [whole] at inserted
      show idleCount { s with idle := s.idle.insert key (popLoop (s.fresh now) q).2 } ≤ s.idleCount
      omega
  · exact Nat.le_refl _

/-- A call of `acquire` adds nothing. -/
lemma idleCount_acquire_le (s : Stabling D) (key : Bytes) (now : Nat) :
    (s.acquire key now).2.idleCount ≤ s.idleCount := by
  have popped := idleCount_pop_le s key now
  show (if (s.pop key now).1.emptied then (s.pop key now).2.remove key else (s.pop key now).2).idleCount ≤ _
  split
  · have removed := idleCount_remove (s.pop key now).2 key
    omega
  · exact popped

/-- Reaping adds nothing. -/
lemma idleCount_reapExpired_le (s : Stabling D) (now : Nat) : (s.reapExpired now).idleCount ≤ s.idleCount := by
  refine AList.total_retain_le ?_ s.idle
  intro q q' h
  obtain ⟨-, e⟩ := Option.ite_none_left_eq_some.1 h
  cases e
  exact List.length_filter_le _ _

/-- A release that evicts a connection: its queue has one, and is full. -/
def Evicts (s : Stabling D) (key : Bytes) : Prop :=
  s.queue key ≠ [] ∧ s.config.maxIdlePerHost ≤ (s.queue key).length

/-- What a release keeps of a queue: all of it, or all but one when it is full. -/
lemma length_kept (s : Stabling D) (key : Bytes) :
    (s.kept key).length =
      if s.config.maxIdlePerHost ≤ (s.queue key).length then (s.queue key).length - 1 else (s.queue key).length := by
  rw [kept]
  split
  · exact List.length_dropLast
  · rfl

/-- A release adds a connection, unless it evicts one for it. -/
lemma idleCount_release {s : Stabling D} (enabled : s.config.enabled = true) (key : Bytes) (dest : D) (now : Nat) :
    (s.Evicts key ∧ (s.release key dest now).idleCount = s.idleCount) ∨
      (¬ s.Evicts key ∧ (s.release key dest now).idleCount = s.idleCount + 1) := by
  rw [release_spec enabled]
  have inserted := idleCount_insert s key (⟨dest, now⟩ :: s.kept key)
  rw [List.length_cons] at inserted
  by_cases full : (s.queue key).length ≥ s.config.maxIdlePerHost
  -- with `max_idle_per_host` zero an empty queue is full as well, and there is nothing to evict
  · have kept := s.length_kept key
    rw [if_pos full] at kept
    by_cases empty : s.queue key = []
    · rw [empty] at inserted kept
      refine .inr ⟨fun evicts => evicts.1 empty, ?_⟩
      simp only [List.length_nil] at inserted kept
      omega
    · have pos := List.length_pos_of_ne_nil empty
      refine .inl ⟨⟨empty, full⟩, ?_⟩
      omega
  · have kept := s.length_kept key
    rw [if_neg full] at kept
    refine .inr ⟨fun evicts => full evicts.2, ?_⟩
    omega

/-! ## Whole runs -/

/-- The pool holds no more than `max_total_idle` connections. -/
def Within (s : Stabling D) : Prop := s.idleCount ≤ s.config.maxTotalIdle

/-- A release to an enabled pool finds fewer than `max_total_idle` connections there, or evicts one. -/
def Room (s : Stabling D) (a : Nat × Call D) : Prop :=
  match a.2 with
  | .release key _ => s.config.enabled = true → s.Evicts key ∨ s.idleCount < s.config.maxTotalIdle
  | _ => True

/-- A call keeps the pool within the limit exactly when it finds room. -/
lemma call_within {s s' : Stabling D} {a : Nat × Call D} (within : s.Within) (st : s.call a = some s') :
    s'.Within ↔ s.Room a := by
  obtain ⟨now, call⟩ := a
  rw [Within] at within
  cases call with
  | acquire key =>
    cases st
    refine iff_of_true ?_ trivial
    rw [Within, config_acquire]
    exact Nat.le_trans (idleCount_acquire_le s key now) within
  | reapExpired =>
    cases st
    refine iff_of_true ?_ trivial
    exact Nat.le_trans (idleCount_reapExpired_le s now) within
  | release key dest =>
    cases st
    rw [Within, config_release]
    show _ ↔ (s.config.enabled = true → s.Evicts key ∨ s.idleCount < s.config.maxTotalIdle)
    cases enabled : s.config.enabled with
    | false =>
      have same : s.release key dest now = s := by
        rw [release, enabled]
        rfl
      rw [same]
      refine iff_of_true within ?_
      rintro ⟨⟩
    | true =>
      rcases idleCount_release enabled key dest now with ⟨evicts, count⟩ | ⟨grows, count⟩
      · rw [count]
        exact iff_of_true within fun _ => .inl evicts
      · rw [count]
        constructor
        · exact fun le _ => .inr le
        · intro room
          rcases room rfl with evicts | less
          · exact absurd evicts grows
          · exact less

/-- In a run from an empty pool `idle_count()` stays within `max_total_idle` all along exactly when every
release has room. -/
theorem within_iff_room (config : StablingConfig) (as : List (Nat × Call D)) :
    Always call Within (new config) as ↔ Every call Room (new config : Stabling D) as :=
  always_iff_every (I := fun _ => True) (fun _ _ _ _ within st => ⟨trivial, call_within within st⟩) trivial
    (Nat.zero_le _)

/-- Two releases under different keys, with room for one connection in all. -/
theorem not_within_twoKeys :
    ¬ ∀ (config : StablingConfig) (as : List (Nat × Call Unit)), Always call Within (new config) as := by
  intro always
  obtain ⟨s, run, count, config⟩ : ∃ s : Stabling Unit,
      Run call (new { maxTotalIdle := 1 }) [(0, .release [97] ()), (0, .release [98] ())] s ∧
        s.idleCount = 2 ∧ s.config.maxTotalIdle = 1 :=
    ⟨_, .of_exec rfl, rfl, rfl⟩
  have within := (always _ _).run run
  rw [Within, count, config] at within
  exact absurd within (by decide)

/-! ## One key -/

/-- No key has more than `max_idle_per_host` connections. -/
def WithinHost (s : Stabling D) : Prop := ∀ k, (s.queue k).length ≤ s.config.maxIdlePerHost

/-- A release to an enabled pool that may store a connection at all. -/
def HostRoom (s : Stabling D) (a : Nat × Call D) : Prop :=
  match a.2 with
  | .release _ _ => s.config.enabled = true → 0 < s.config.maxIdlePerHost
  | _ => True

/-- A call of `acquire` makes no queue longer. -/
lemma length_acquire_le (s : Stabling D) (key : Bytes) (now : Nat) (k : Bytes) :
    ((s.acquire key now).2.queue k).length ≤ (s.queue k).length := by
  cases enabled : s.config.enabled with
  | false =>
    rw [acquire_disabled enabled]
  | true =>
    rw [(acquire_spec enabled key now).2]
    split
    · rename_i same
      rw [same]
      exact length_popLoop_le _ _
    · exact Nat.le_refl _

/-- A release keeps the bound of its key unless that is zero: it evicts before it stores. -/
lemma release_withinHost {s : Stabling D} (within : s.WithinHost) (enabled : s.config.enabled = true) (key : Bytes)
    (dest : D) (now : Nat) : (s.release key dest now).WithinHost ↔ 0 < s.config.maxIdlePerHost := by
  have length : (⟨dest, now⟩ :: s.kept key).length = (s.kept key).length + 1 := rfl
  have kept := length_kept s key
  have bound := within key
  constructor
  · intro within'
    have here := within' key
    rw [queue_release enabled, if_pos rfl, config_release] at here
    omega
  · intro pos k
    rw [queue_release enabled, config_release]
    split
    · rw [length, kept]
      split
      · omega
      · omega
    · exact within k

/-- A call keeps every queue within the limit exactly when it finds room there. -/
lemma call_withinHost {s s' : Stabling D} {a : Nat × Call D} (within : s.WithinHost) (st : s.call a = some s') :
    s'.WithinHost ↔ s.HostRoom a := by
  obtain ⟨now, call⟩ := a
  cases call with
  | acquire key =>
    cases st
    refine iff_of_true (fun k => ?_) trivial
    rw [config_acquire]
    exact Nat.le_trans (length_acquire_le s key now k) (within k)
  | reapExpired =>
    cases st
    refine iff_of_true (fun k => ?_) trivial
    rw [queue_reapExpired]
    exact Nat.le_trans (List.length_filter_le _ _) (within k)
  | release key dest =>
    cases st
    cases enabled : s.config.enabled with
    | false =>
      refine iff_of_true ?_ fun on => nomatch enabled.symm.trans on
      rw [release_disabled enabled]
      exact within
    | true =>
      rw [release_withinHost within enabled]
      exact ⟨fun pos _ => pos, fun room => room enabled⟩

/-- Every call returns, and keeps the configuration. -/
lemma call_total (s : Stabling D) (a : Nat × Call D) : ∃ s', s.call a = some s' ∧ s'.config = s.config := by
  obtain ⟨now, call⟩ := a
  cases call with
  | acquire key => exact ⟨_, rfl, config_acquire s key now⟩
  | release key dest => exact ⟨_, rfl, config_release s key dest now⟩
  | reapExpired => exact ⟨_, rfl, rfl⟩

/-- In a run from an empty pool no key has more than `max_idle_per_host` connections exactly when nothing is
released to an enabled pool that may not store any. -/
theorem withinHost_iff_room (config : StablingConfig) (as : List (Nat × Call D)) :
    Always call WithinHost (new config : Stabling D) as ↔
      ∀ now key dest, (now, Call.release key dest) ∈ as → config.enabled = true → 0 < config.maxIdlePerHost := by
  have start : (new config : Stabling D).WithinHost := by
    intro k
    rw [queue_new]
    exact Nat.zero_le _
  rw [always_iff_every (I := fun _ => True) (fun _ _ _ _ within st => ⟨trivial, call_withinHost within st⟩) trivial
    start]
  rw [every_iff_forall (I := fun s => s.config = config)
    (q := fun a => ∀ key dest, a.2 = .release key dest → config.enabled = true → 0 < config.maxIdlePerHost)]
  · constructor
    · intro room now key dest mem
      exact room _ mem key dest rfl
    · rintro room ⟨now, call⟩ mem key dest rfl
      exact room now key dest mem
  · intro s a same
    obtain ⟨s', st, config'⟩ := call_total s a
    exact ⟨s', st, config'.trans same⟩
  · rintro s ⟨now, call⟩ rfl
    cases call with
    | acquire key => exact iff_of_true trivial nofun
    | reapExpired => exact iff_of_true trivial nofun
    | release key dest =>
      refine ⟨fun room _ _ _ => room, fun room => room key dest rfl⟩
  · rfl

/-- A release to a pool that may store nothing per host. -/
theorem not_withinHost_zero :
    ¬ ∀ (config : StablingConfig) (as : List (Nat × Call Unit)), Always call WithinHost (new config) as := by
  intro always
  obtain ⟨s, run, queue, config⟩ : ∃ s : Stabling Unit,
      Run call (new { maxIdlePerHost := 0 }) [(0, .release [97] ())] s ∧
        s.queue [97] = [⟨(), 0⟩] ∧ s.config.maxIdlePerHost = 0 :=
    ⟨_, .of_exec rfl, rfl, rfl⟩
  have within := (always _ _).run run [97]
  rw [queue, config] at within
  exact absurd within (by decide)

end Stabling

end Railscale
