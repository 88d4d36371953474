import Railscale.Core.Steps

/-!
# How far a cycle gets

Two measures of the loop of `do_connection`, whatever its streams are. A place of the loop has a rank, which
every step lowers but for the items of the two streams; `Item.worth` bounds what an item of the client can add.
And a cycle gets past its pre-route loop, and so to another cycle, only on a frame with a routing key.
-/

namespace Railscale.Service

variable {F H D : Type}

/-! ## The rank of a place -/

/-- How many steps a place is away from the end of the connection when nothing more is to be read. -/
def Pc.rank : Pc H D → Nat
  | .finished _ => 0
  | .preRoute => 2
  | .releasing _ _ => 3
  | .flushingLast _ => 4
  | .flushingError _ _ => 4
  | .copying _ _ => 4
  | .relaying _ => 5
  | .flushing _ => 6
  | .writing _ _ => 6
  | .joining _ _ true => 7
  | .joining _ (some _) false => 8
  | .joining _ none false => 9
  | .acquiring _ => 10

/-- What an item of the client can add to the rank, and two. -/
def Item.worth : Item F → Nat
  | some (.ok (.parsed _)) => 10
  | some (.ok (.passthrough _)) => 2
  | _ => 0

/-- An item of a response. -/
def Action.isResponseItem : Action F D → Bool
  | .responseItem (some (.ok _)) => true
  | _ => false

section rank

variable {cfg : Config F H} {s s' : State F H D} {a : Action F D}

/-- A step that hears something comes from a place with a rank to spend. -/
lemma Hears.rank {es : List (Event F H D)} (hears : Hears s a es) :
    1 + a.items.length ≤ s.pc.rank ∧ (s.pc ≠ .preRoute → 7 + a.items.length ≤ s.pc.rank) := by
  cases hears with
  | pre here =>
    rw [here]
    exact ⟨Nat.le_refl 2, fun not => absurd rfl not⟩
  | post here =>
    rw [here]
    exact ⟨Nat.le_add_left 2 6, fun _ => Nat.le_refl 8⟩
  | route here =>
    rw [here]
    exact ⟨Nat.le_add_left 1 6, fun _ => Nat.le_refl 7⟩

/-- An item of the client is worth two steps at least. -/
lemma two_le_worth (i : ParsedData F) : 2 ≤ Item.worth (some (.ok i)) := by
  cases i with
  | parsed f => exact Nat.le_add_left 2 8
  | passthrough bs => exact Nat.le_refl 2

/-- A step up to the write lowers the rank, and once more when it takes an item, which adds its worth. -/
lemma Early.rank [Frame F] {es : List (Event F H D)} {pc' : Pc H D} (early : Early cfg s a es pc') :
    pc'.rank + (1 + a.items.length) ≤ s.pc.rank + (a.items.map Item.worth).sum := by
  cases early with
  | @skipped i here _ =>
    rw [here]
    exact Nat.add_le_add_left (two_le_worth i) _
  | found here _ place =>
    rw [here]
    rcases place with rfl | rfl
    · exact Nat.le_refl 12
    · exact Nat.le_succ 11
  | @acquired key dest here =>
    rw [here]
    cases dest with
    | none => exact Nat.le_refl 10
    | some d => exact Nat.le_succ 9
  | answered here =>
    rw [here]
    exact Nat.le_refl 9
  | @kept _ _ i here =>
    rw [here]
    exact Nat.add_le_add_left (two_le_worth i) _
  | collected here =>
    rw [here]
    exact Nat.le_add_right 9 _
  | forwarded hears joining =>
    have place := hears.rank.2 joining
    rw [← Nat.add_assoc]
    exact place.trans (Nat.le_add_right _ _)
  | failed hears _ =>
    rw [Pc.rank, Nat.zero_add]
    exact hears.rank.1.trans (Nat.le_add_right _ _)
  | returned here =>
    rw [here]
    exact Nat.le_add_right 2 _

variable [Frame F] [ConnectionHook H F]

/-- An item of the client adds to the rank what it is worth, less two. -/
lemma rank_clientItem {o : Item F} (st : step cfg s (.clientItem o) = some s') :
    s'.pc.rank + 2 ≤ s.pc.rank + o.worth := by
  obtain ⟨-, es, -, early⟩ := step_early (early_of_clientItem st) st
  exact early.rank

omit [Frame F] [ConnectionHook H F] in
/-- The end of a cycle is close to the end. -/
lemma rank_endCycle (key : Bytes) (dest : D) (n : Nat) (close : Bool) : (s.endCycle key dest n close).pc.rank ≤ 3 := by
  rw [State.endCycle]
  cases close with
  | true => exact Nat.zero_le 3
  | false => exact Nat.le_refl 3

/-- A turn of the relay loop costs one step, and an item of the response pays for two. -/
lemma rank_onRelay (r : Relay H D) (o : Item F) :
    (s.onRelay cfg r o).pc.rank + 1 ≤ 5 + if (Action.responseItem o : Action F D).isResponseItem then 2 else 0 := by
  unfold State.onRelay
  match o with
  | none =>
    simp only
    split
    · exact Nat.le_refl 5
    · exact (Nat.add_le_add_right (rank_endCycle _ _ _ _) 1).trans (Nat.le_succ 4)
  | some (.error err) =>
    simp only
    split
    · exact Nat.le_refl 5
    · exact Nat.le_add_left 1 4
  | some (.ok i) =>
    simp only
    split
    · exact Nat.le_refl 7
    · exact Nat.le_succ 6

/-- Everything else lowers the rank, but for an item of a response. -/
lemma rank_other (other : ∀ o, a ≠ .clientItem o) (st : step cfg s a = some s') :
    s'.pc.rank + 1 ≤ s.pc.rank + if a.isResponseItem then 2 else 0 := by
  have nothing : a.items = [] := by
    cases a with
    | clientItem o => exact absurd rfl (other o)
    | _ => rfl
  have upTo : ¬ s.pc.After → s'.pc.rank + 1 ≤ s.pc.rank + if a.isResponseItem then 2 else 0 := by
    intro before
    obtain ⟨-, es, -, early⟩ := step_early before st
    have rank := early.rank
    rw [nothing] at rank
    exact rank.trans (Nat.add_le_add_left (Nat.zero_le _) _)
  cases step_cases st with
  | preRoute _ => exact absurd rfl (other _)
  | postRoute _ => exact absurd rfl (other _)
  | acquired here => exact upTo (by rw [here]; exact id)
  | routed here => exact upTo (by rw [here]; exact id)
  | joined here => exact upTo (by rw [here]; exact id)
  | wrote here =>
    rw [here, State.toRelay]
    split
    · exact Nat.le_refl 6
    · exact Nat.le_succ 5
  | relay here =>
    rw [here]
    exact rank_onRelay _ _
  | flushed here =>
    rw [here]
    exact Nat.le_refl 6
  | flushedLast here =>
    rw [here]
    exact Nat.add_le_add_right (rank_endCycle _ _ _ _) 1
  | flushError here =>
    rcases here with here | here
    · rw [here]
      exact Nat.le_add_left 1 5
    · rw [here]
      exact Nat.le_add_left 1 3
  | copied here =>
    rw [here]
    exact Nat.add_le_add_right (rank_endCycle _ _ _ _) 1
  | released here _ =>
    rw [here]
    exact Nat.le_refl 3
  | dropped here _ =>
    rw [here]
    exact Nat.le_refl 3
  | writeError here =>
    rw [here]
    exact Nat.le_add_left 1 5
  | flushedError here =>
    rw [here]
    exact Nat.le_add_left 1 3
  | copyError here =>
    rw [here]
    exact Nat.le_add_left 1 3

end rank

/-! ## The routing frame of a cycle -/

/-- Behind the pre-route loop, and before the end. -/
def Pc.routed : Pc H D → Bool
  | .preRoute => false
  | .finished _ => false
  | _ => true

section keyed

variable [Frame F]

/-- There is a frame with a routing key among the items. -/
def Routable (is : List (ParsedData F)) : Prop := ∃ f ∈ frames is, (Frame.routingKey f).isSome

/-- What a step does that stays in its cycle. -/
structure Advances (s : State F H D) (os : List (Item F)) (s' : State F H D) : Prop where
  past : s'.past = s.past
  takes_eq : takes s'.log = takes s.log ++ os
  routed : s'.pc.routed = true → s.pc.routed = true ∨ Routable (os.filterMap okItem)

/-- Items behind others take no routing key away. -/
lemma Routable.left {is : List (ParsedData F)} (keyed : Routable is) (js : List (ParsedData F)) :
    Routable (is ++ js) := by
  obtain ⟨f, mem, key⟩ := keyed
  refine ⟨f, ?_, key⟩
  rw [frames_append]
  exact List.mem_append_left _ mem

/-- Nor do items in front. -/
lemma Routable.right {js : List (ParsedData F)} (keyed : Routable js) (is : List (ParsedData F)) :
    Routable (is ++ js) := by
  obtain ⟨f, mem, key⟩ := keyed
  refine ⟨f, ?_, key⟩
  rw [frames_append]
  exact List.mem_append_right _ mem

variable {cfg : Config F H} {s s' : State F H D}

variable [ConnectionHook H F]

/-- The step to the next cycle. -/
structure Begins (s : State F H D) (s' : State F H D) : Prop where
  routed : s.pc.routed = true
  pc : s'.pc = .preRoute
  log : s'.log = []
  past : ∃ es, takes es = [] ∧ s'.past = s.past ++ [s.log ++ es]

/-- A release is the step to the next cycle. -/
lemma step_release (st : step cfg s .release = some s') : Begins s s' := by
  cases step_cases st with
  | @released key dest here _ => exact ⟨by rw [here]; rfl, rfl, rfl, [.released key dest], rfl, rfl⟩
  | dropped here _ => exact ⟨by rw [here]; rfl, rfl, rfl, [], rfl, by rw [List.append_nil]; rfl⟩

omit [ConnectionHook H F] in
/-- Only a frame with a routing key leads out of the pre-route loop. -/
lemma Early.routed {a : Action F D} {es : List (Event F H D)} {pc' : Pc H D} (early : Early cfg s a es pc')
    (routed : pc'.routed = true) : s.pc.routed = true ∨ Routable (a.items.filterMap okItem) := by
  cases early with
  | skipped _ _ => cases routed
  | @found f _ _ _ keyed _ => exact .inr ⟨f, List.mem_cons_self, by rw [keyed]; rfl⟩
  | acquired here => exact .inl (by rw [here]; rfl)
  | answered here => exact .inl (by rw [here]; rfl)
  | kept here => exact .inl (by rw [here]; rfl)
  | collected here => exact .inl (by rw [here]; rfl)
  | forwarded hears joining =>
    cases hears with
    | pre here => exact absurd here joining
    | post here => exact .inl (by rw [here]; rfl)
    | route here => exact .inl (by rw [here]; rfl)
  | failed _ _ => cases routed
  | returned _ => cases routed

/-- Every step but the release stays in its cycle. -/
lemma step_advances {a : Action F D} (st : step cfg s a = some s') (stay : a ≠ .release) : Advances s a.items s' := by
  by_cases after : s.pc.After
  · have nothing : a.items = [] := by
      cases a with
      | clientItem o => exact absurd after (early_of_clientItem st)
      | _ => rfl
    have routed : s.pc.routed = true := by
      cases pc : s.pc with
      | preRoute => exact (pc ▸ after : (Pc.preRoute : Pc H D).After).elim
      | finished r => exact absurd st (not_step_finished pc)
      | _ => rfl
    cases step_after after st with
    | stay late _ log past _ =>
      refine ⟨past, ?_, fun _ => .inl routed⟩
      rw [log, takes_append, (quiet_nil fun e he => (late e he).quiet).1, nothing]
    | next _ release => exact absurd release stay
  · obtain ⟨past, es, log, early⟩ := step_early after st
    exact ⟨past, by rw [log, takes_append, early.takes], early.routed⟩

/-- A cycle that is behind its pre-route loop has taken a frame with a routing key, and so have those before it. -/
structure RoutingFrames (s : State F H D) : Prop where
  current : s.pc.routed = true → Routable (taken s.log)
  past : ∀ log ∈ s.past, Routable (taken log)

/-- Every step keeps it. -/
lemma RoutingFrames.step {a : Action F D} (inv : RoutingFrames s) (st : Service.step cfg s a = some s') :
    RoutingFrames s' := by
  by_cases release : a = .release
  · subst release
    obtain ⟨routed, pc, log, es, untaken, past⟩ := step_release st
    refine ⟨fun here => ?_, fun log mem => ?_⟩
    · rw [pc] at here
      cases here
    · rw [past] at mem
      rcases List.mem_append.1 mem with mem | mem
      · exact inv.past log mem
      · rw [List.mem_singleton.1 mem, taken_untaken untaken]
        exact inv.current routed
  · obtain ⟨past, takes_eq, routed⟩ := step_advances st release
    refine ⟨fun here => ?_, past ▸ inv.past⟩
    rw [taken, takes_eq, List.filterMap_append]
    obtain before | keyed := routed here
    · exact (inv.current before).left _
    · exact keyed.right _

/-- The cycles that have got behind their pre-route loop. -/
def cycles (s : State F H D) : Nat := s.past.length + if s.pc.routed then 1 else 0

/-- A step begins a cycle only on a frame with a routing key. -/
lemma cycles_step {a : Action F D} (st : step cfg s a = some s') :
    cycles s' ≤ cycles s ∨ cycles s' = cycles s + 1 ∧ Routable (a.items.filterMap okItem) := by
  by_cases release : a = .release
  · subst release
    obtain ⟨routed, pc, -, es, -, past⟩ := step_release st
    refine .inl (Nat.le_of_eq ?_)
    rw [cycles, cycles, past, pc, routed, List.length_append]
    rfl
  · obtain ⟨past, -, routed⟩ := step_advances st release
    rw [cycles, cycles, past]
    cases now : s'.pc.routed with
    | false => exact .inl (Nat.le_add_right _ _)
    | true =>
      cases before : s.pc.routed with
      | true => exact .inl (Nat.le_refl _)
      | false =>
        obtain already | keyed := routed now
        · cases before.symm.trans already
        · exact .inr ⟨rfl, keyed⟩

end keyed

/-! ## The collecting loops -/

/-- The places of the two loops over the client stream, and between them. -/
def Pc.collects : Pc H D → Bool
  | .preRoute => true
  | .acquiring _ => true
  | .joining _ _ false => true
  | _ => false

/-- Behind the write nothing is collected. -/
lemma Pc.After.not_collects {pc : Pc H D} (after : pc.After) : pc.collects = false := by
  cases pc with
  | preRoute => exact after.elim
  | acquiring => exact after.elim
  | joining => exact after.elim
  | _ => rfl

section collects

variable [Frame F] [ConnectionHook H F] {cfg : Config F H} {s s' : State F H D}

omit [ConnectionHook H F] in
/-- A step that stays in the collecting loops comes from them, and the client stream gave an item. -/
lemma Early.collects {a : Action F D} {es : List (Event F H D)} {pc' : Pc H D} (early : Early cfg s a es pc')
    (now : pc'.collects = true) : s.pc.collects = true ∧ ∀ o ∈ a.items, ∃ i, o = some (.ok i) := by
  cases early with
  | @skipped i here _ => exact ⟨by rw [here]; rfl, fun o mem => ⟨i, List.mem_singleton.1 mem⟩⟩
  | @found f _ _ here _ _ => exact ⟨by rw [here]; rfl, fun o mem => ⟨.parsed f, List.mem_singleton.1 mem⟩⟩
  | acquired here => exact ⟨by rw [here]; rfl, nofun⟩
  | answered here => exact ⟨by rw [here]; rfl, nofun⟩
  | @kept _ _ i here => exact ⟨by rw [here]; rfl, fun o mem => ⟨i, List.mem_singleton.1 mem⟩⟩
  | collected _ => cases now
  | forwarded _ _ => cases now
  | failed _ _ => cases now
  | returned _ => cases now

/-- A cycle that collects has done so before, unless it is the next one, and the item that it got is one. -/
lemma collects_step {a : Action F D} (st : step cfg s a = some s') (stay : a ≠ .release) (now : s'.pc.collects = true) :
    s.pc.collects = true ∧ ∀ o ∈ a.items, ∃ i, o = some (.ok i) := by
  by_cases after : s.pc.After
  · cases step_after after st with
    | stay _ after' _ _ _ => cases after'.not_collects.symm.trans now
    | next _ release => exact absurd release stay
  · obtain ⟨-, es, -, early⟩ := step_early after st
    exact early.collects now

end collects

/-! ## What is awaited -/

/-- What answers the call that is awaited in a place, other than an item of the client. -/
def Pc.Answer : Pc H D → Action F D → Prop
  | .acquiring _, .acquired _ => True
  | .joining _ none _, .routed _ => True
  | .writing _ _, .wrote _ => True
  | .relaying _, .responseItem _ => True
  | .flushing _, .clientWrote _ => True
  | .flushingLast _, .clientWrote _ => True
  | .flushingError _ _, .clientWrote _ => True
  | .copying _ _, .copied _ => True
  | .releasing _ _, .release => True
  | _, _ => False

/-- No such answer is an item of the client. -/
lemma Pc.Answer.ne_clientItem {pc : Pc H D} {a : Action F D} (answer : pc.Answer a) (o : Item F) :
    a ≠ .clientItem o := by
  rintro rfl
  unfold Pc.Answer at answer
  split at answer <;> simp_all

/-- The loop goes on with any answer. -/
lemma step_answer [Frame F] [ConnectionHook H F] (cfg : Config F H) {s : State F H D} {a : Action F D}
    (answer : s.pc.Answer a) : ∃ s', step cfg s a = some s' := by
  unfold Pc.Answer at answer
  unfold step
  split at answer
  · rename_i here
    exact ⟨_, by rw [here]⟩
  · rename_i collected r here
    rw [here]
    cases collected with
    | true => exact ⟨_, rfl⟩
    | false => exact ⟨_, rfl⟩
  · rename_i r here
    rw [here]
    cases r with
    | ok u => exact ⟨_, rfl⟩
    | error err => exact ⟨_, rfl⟩
  · rename_i here
    exact ⟨_, by rw [here]⟩
  · rename_i r here
    rw [here]
    cases r with
    | ok u => exact ⟨_, rfl⟩
    | error err => exact ⟨_, rfl⟩
  · rename_i r here
    rw [here]
    cases r with
    | ok u => exact ⟨_, rfl⟩
    | error err => exact ⟨_, rfl⟩
  · rename_i here
    exact ⟨_, by rw [here]⟩
  · rename_i r here
    rw [here]
    cases r with
    | ok n => exact ⟨_, rfl⟩
    | error err => exact ⟨_, rfl⟩
  · rename_i here
    rw [here]
    cases stabled : cfg.stabling with
    | true => exact ⟨_, if_pos rfl⟩
    | false => exact ⟨_, if_neg Bool.false_ne_true⟩
  · exact answer.elim

end Railscale.Service
