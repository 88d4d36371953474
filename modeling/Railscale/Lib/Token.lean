import Railscale.Lib.Run
import Mathlib.Logic.Function.Basic

/-!
# A token that many holders share

One token goes from holder to holder through a store. A holder that has taken it first uses it, and may then give it
back. The location is one value, so that the token is never in two places, and what is seen of it is a list of turns:
each holder uses it and gives it back before the next one uses it (`InTurn.of_run`).

A system knows the location only in parts: how many copies its store has, and what each of its holders has. `At` says
that the parts fit a location, and what they do one by one moves the token (`At.turn`, `At.take`, `At.give`,
`At.lower`).
-/

namespace Railscale.Token

variable {ι : Type}

/-- Where the token is. -/
inductive Loc (ι : Type) where
  | unmade
  | stored
  | ready (i : ι)
  | sent (i : ι)
  | gone

/-- What a holder is seen to do with it. -/
inductive Use where
  | written
  | released

/-- What happens to it. -/
inductive Move (ι : Type) where
  | make (i : ι)
  | take (i : ι)
  | write
  | give
  | drop

/-- What a move makes of the location, and what is seen of it. -/
def move : Loc ι → Move ι → Option (Loc ι × List (ι × Use))
  | .unmade, .make i => some (.ready i, [])
  | .stored, .take i => some (.ready i, [])
  | .ready i, .write => some (.sent i, [(i, .written)])
  | .sent i, .give => some (.stored, [(i, .released)])
  | .stored, .drop => some (.gone, [])
  | .ready _, .drop => some (.gone, [])
  | .sent _, .drop => some (.gone, [])
  | _, _ => none

/-- A token, and what has been seen of it. -/
structure State (ι : Type) where
  loc : Loc ι
  seen : List (ι × Use)

/-- A token that is still to be made. -/
def State.init : State ι := ⟨.unmade, []⟩

/-- One move. -/
def step (t : State ι) (a : Move ι) : Option (State ι) := (move t.loc a).map fun m => ⟨m.1, t.seen ++ m.2⟩

/-- The turns of some holders, and that of the last one when it has not given the token back. -/
def turns (holders : List ι) (last : Option ι) : List (ι × Use) :=
  holders.flatMap (fun i => [(i, .written), (i, .released)]) ++ last.toList.map (·, .written)

/-- The holder whose turn it is can only be the last one. -/
def Last : Loc ι → Option ι → Prop
  | .sent i, last => last = some i
  | .gone, _ => True
  | _, last => last = none

/-- The write of the next holder opens its turn. -/
lemma turns_write (holders : List ι) (i : ι) : turns holders none ++ [(i, .written)] = turns holders (some i) := by
  rw [turns, turns, Option.toList_none, List.map_nil, List.append_nil]
  rfl

/-- The release of the holder closes its turn. -/
lemma turns_give (holders : List ι) (i : ι) :
    turns holders (some i) ++ [(i, .released)] = turns (holders ++ [i]) none := by
  rw [turns, turns, List.flatMap_append, List.append_assoc, List.append_assoc]
  rfl

/-- What is seen is a list of turns. -/
def InTurn (t : State ι) : Prop := ∃ holders last, t.seen = turns holders last ∧ Last t.loc last

/-- A move keeps the history in turn. -/
lemma InTurn.step {t t' : State ι} {a : Move ι} (inTurn : InTurn t) (st : Token.step t a = some t') : InTurn t' := by
  obtain ⟨loc, seen⟩ := t
  obtain ⟨holders, last, rfl, isLast⟩ := inTurn
  obtain ⟨m, moved, rfl⟩ := Option.map_eq_some_iff.1 st
  have still : ∀ last', Last m.1 last' → last' = last → m.2 = [] → InTurn ⟨m.1, turns holders last ++ m.2⟩ := by
    rintro _ isLast' rfl none
    exact ⟨holders, _, by rw [none, List.append_nil], isLast'⟩
  cases loc with
  | unmade =>
    cases a with
    | make i =>
      cases moved
      exact still none rfl isLast.symm rfl
    | _ => cases moved
  | stored =>
    cases a with
    | take i =>
      cases moved
      exact still none rfl isLast.symm rfl
    | drop =>
      cases moved
      exact still last trivial rfl rfl
    | _ => cases moved
  | ready i =>
    cases a with
    | write =>
      cases moved
      cases isLast
      exact ⟨holders, some i, turns_write holders i, rfl⟩
    | drop =>
      cases moved
      exact still last trivial rfl rfl
    | _ => cases moved
  | sent i =>
    cases a with
    | give =>
      cases moved
      cases isLast
      exact ⟨holders ++ [i], none, turns_give holders i, rfl⟩
    | drop =>
      cases moved
      exact still last trivial rfl rfl
    | _ => cases moved
  | gone =>
    cases a with
    | _ => cases moved

/-- However a token moves, its holders have used it in turn. -/
theorem InTurn.of_run {as : List (Move ι)} {t : State ι} (run : Run Token.step .init as t) : InTurn t :=
  run.invariant (fun _ _ _ inTurn st => inTurn.step st) ⟨[], none, rfl, rfl⟩

/-! ## Several moves -/

/-- The token gets from one location to another, and this is seen of it. -/
def Leads (loc : Loc ι) (us : List (ι × Use)) (loc' : Loc ι) : Prop :=
  ∀ seen, ∃ as, Run Token.step ⟨loc, seen⟩ as ⟨loc', seen ++ us⟩

/-- No use leads from a place to itself. -/
lemma Leads.refl (loc : Loc ι) : Leads loc [] loc := by
  intro seen
  rw [List.append_nil]
  exact ⟨[], .nil⟩

/-- A move leads to its place with its uses. -/
lemma Leads.move {loc loc' : Loc ι} {us : List (ι × Use)} (a : Move ι) (moved : move loc a = some (loc', us)) :
    Leads loc us loc' := by
  intro seen
  refine ⟨[a], .cons ?_ .nil⟩
  rw [Token.step, moved]
  rfl

/-- Uses behind others lead on. -/
lemma Leads.trans {loc loc1 loc2 : Loc ι} {us vs : List (ι × Use)} (first : Leads loc us loc1)
    (second : Leads loc1 vs loc2) : Leads loc (us ++ vs) loc2 := by
  intro seen
  obtain ⟨as, run⟩ := first seen
  obtain ⟨bs, run'⟩ := second (seen ++ us)
  rw [← List.append_assoc]
  exact ⟨as ++ bs, run.append run'⟩

/-! ## What the store and the holders have of it -/

/-- What a holder has of the token: nothing, the token, and the token that it has used. -/
inductive Grip where
  | away
  | ready
  | sent

/-- What a holder may do with what it has, and what is seen of that. -/
inductive Turn : Grip → List Use → Grip → Prop where
  | kept {g} :
    Turn g [] g
  | dropped {g} :
    Turn g [] .away
  | written :
    Turn .ready [.written] .sent
  | released :
    Turn .sent [.released] .away

/-- The copies in the store. -/
def Loc.copies : Loc ι → Nat
  | .stored => 1
  | _ => 0

variable [DecidableEq ι]

/-- What a holder has. -/
def Loc.grip (loc : Loc ι) (i : ι) : Grip :=
  match loc with
  | .ready j => if i = j then .ready else .away
  | .sent j => if i = j then .sent else .away
  | _ => .away

/-- A store with so many copies, and holders with such grips, have the token at the location. -/
structure At (copies : Nat) (grip : ι → Grip) (unmade : Prop) (loc : Loc ι) : Prop where
  copies : copies = loc.copies
  grip : grip = loc.grip
  unmade : unmade ↔ loc = .unmade

section parts

variable {n m : Nat} {grip : ι → Grip} {unmade : Prop} {loc : Loc ι} {i : ι}

/-- Only the holder is ready. -/
lemma grip_ready (i j : ι) : (Loc.ready i).grip j = if j = i then .ready else .away := rfl

/-- Only the holder has sent. -/
lemma grip_sent (i j : ι) : (Loc.sent i).grip j = if j = i then .sent else .away := rfl

/-- To change the grip of the ready holder is to change it where nobody has one. -/
lemma update_grip_ready (i : ι) (g : Grip) :
    Function.update (Loc.ready i).grip i g = Function.update (fun _ => .away) i g := by
  funext j
  rw [Function.update_apply, Function.update_apply, grip_ready]
  split
  · rfl
  · rfl

/-- The same for the holder behind its write. -/
lemma update_grip_sent (i : ι) (g : Grip) :
    Function.update (Loc.sent i).grip i g = Function.update (fun _ => .away) i g := by
  funext j
  rw [Function.update_apply, Function.update_apply, grip_sent]
  split
  · rfl
  · rfl

/-- Who takes the token is the one that is ready. -/
lemma update_away_ready (i : ι) : Function.update (fun _ => .away) i .ready = (Loc.ready i).grip := by
  funext j
  rw [Function.update_apply, grip_ready]

/-- Who writes with the token is the one that has sent. -/
lemma update_away_sent (i : ι) : Function.update (fun _ => .away) i .sent = (Loc.sent i).grip := by
  funext j
  rw [Function.update_apply, grip_sent]

/-- Where nobody has a grip, there is none to let go. -/
lemma update_away_away (i : ι) : Function.update (fun _ : ι => Grip.away) i .away = fun _ => .away :=
  Function.update_eq_self i _

/-- The one holder that has the token. -/
lemma At.of_ready (here : At n grip unmade loc) (ready : grip i = .ready) : loc = .ready i := by
  rw [here.grip] at ready
  cases loc with
  | ready j =>
    rw [grip_ready] at ready
    split at ready
    · rename_i same
      rw [same]
    · cases ready
  | sent j =>
    rw [grip_sent] at ready
    split at ready
    · cases ready
    · cases ready
  | _ => cases ready

/-- The one with the grip of a writer is where the token is. -/
lemma At.of_sent (here : At n grip unmade loc) (sent : grip i = .sent) : loc = .sent i := by
  rw [here.grip] at sent
  cases loc with
  | sent j =>
    rw [grip_sent] at sent
    split at sent
    · rename_i same
      rw [same]
    · cases sent
  | ready j =>
    rw [grip_ready] at sent
    split at sent
    · cases sent
    · cases sent
  | _ => cases sent

/-- It does not matter how it is said that the token is not made yet. -/
lemma At.congr {unmade' : Prop} (here : At n grip unmade loc) (iff : unmade ↔ unmade') : At n grip unmade' loc :=
  ⟨here.copies, here.grip, iff.symm.trans here.unmade⟩

/-- A token with a copy in the pool is stored there, once. -/
lemma At.of_copies (here : At n grip unmade loc) (pos : 0 < n) : loc = .stored ∧ n = 1 := by
  obtain ⟨rfl, -, -⟩ := here
  cases loc with
  | stored => exact ⟨rfl, rfl⟩
  | _ => cases pos

/-- The store drops it. -/
lemma At.lower (here : At n grip unmade loc) (le : m ≤ n) : ∃ loc', Leads loc [] loc' ∧ At m grip unmade loc' := by
  rcases Nat.eq_or_lt_of_le le with rfl | less
  · exact ⟨loc, .refl loc, here⟩
  · obtain ⟨rfl, rfl⟩ := here.of_copies (Nat.zero_lt_of_lt less)
    obtain rfl := Nat.lt_one_iff.1 less
    exact ⟨.gone, .move .drop rfl, rfl, here.grip, here.unmade.trans (iff_of_false nofun nofun)⟩

/-- A holder takes it out of the store. -/
lemma At.take (here : At n grip unmade loc) (less : m + 1 ≤ n) (i : ι) :
    Leads loc [] (.ready i) ∧ At m (Function.update grip i .ready) unmade (.ready i) := by
  obtain ⟨rfl, rfl⟩ := here.of_copies (Nat.zero_lt_of_lt less)
  obtain rfl := Nat.le_zero.1 (Nat.le_of_succ_le_succ less)
  refine ⟨.move (.take i) rfl, rfl, ?_, here.unmade.trans (iff_of_false nofun nofun)⟩
  rw [here.grip]
  exact update_away_ready i

/-- A holder gets it when it is made. -/
lemma At.make (here : At n grip unmade loc) (still : unmade) (i : ι) :
    Leads loc [] (.ready i) ∧ At n (Function.update grip i .ready) False (.ready i) := by
  obtain rfl := here.unmade.1 still
  refine ⟨.move (.make i) rfl, here.copies, ?_, iff_of_false id nofun⟩
  rw [here.grip]
  exact update_away_ready i

/-- A holder that has used it gives it back. -/
lemma At.give (here : At n grip unmade loc) (sent : grip i = .sent) :
    Leads loc [(i, .released)] .stored ∧ At (n + 1) (Function.update grip i .away) unmade .stored := by
  obtain rfl := here.of_sent sent
  refine ⟨.move .give rfl, congrArg (· + 1) here.copies, ?_, here.unmade.trans (iff_of_false nofun nofun)⟩
  rw [here.grip, update_grip_sent, update_away_away]
  rfl

/-- A holder has a turn with it, and the store does not get it. -/
lemma At.turn {g : Grip} {us : List Use} (here : At n grip unmade loc) (turn : Turn (grip i) us g) :
    ∃ loc', Leads loc (us.map (i, ·)) loc' ∧ At n (Function.update grip i g) unmade loc' := by
  generalize was : grip i = g0 at turn
  cases turn with
  | kept =>
    rw [← was, Function.update_eq_self]
    exact ⟨loc, .refl loc, here⟩
  | dropped =>
    cases g0 with
    | away =>
      rw [← was, Function.update_eq_self]
      exact ⟨loc, .refl loc, here⟩
    | ready =>
      obtain rfl := here.of_ready was
      refine ⟨.gone, .move .drop rfl, here.copies, ?_, here.unmade.trans (iff_of_false nofun nofun)⟩
      rw [here.grip, update_grip_ready, update_away_away]
      rfl
    | sent =>
      obtain rfl := here.of_sent was
      refine ⟨.gone, .move .drop rfl, here.copies, ?_, here.unmade.trans (iff_of_false nofun nofun)⟩
      rw [here.grip, update_grip_sent, update_away_away]
      rfl
  | written =>
    obtain rfl := here.of_ready was
    refine ⟨.sent i, .move .write rfl, here.copies, ?_, here.unmade.trans (iff_of_false nofun nofun)⟩
    rw [here.grip, update_grip_ready, update_away_sent]
  | released =>
    obtain ⟨leads, there⟩ := here.give was
    obtain ⟨loc', drops, there⟩ := there.lower (Nat.le_succ n)
    exact ⟨loc', leads.trans drops, there⟩

/-- The token is in one place. -/
lemma At.exclusive (here : At n grip unmade loc) :
    n ≤ 1 ∧ ∀ i, grip i ≠ .away → n = 0 ∧ ∀ j, j ≠ i → grip j = .away := by
  obtain ⟨rfl, rfl, -⟩ := here
  cases loc with
  | ready k =>
    refine ⟨Nat.zero_le 1, fun i held => ⟨rfl, fun j other => ?_⟩⟩
    rw [grip_ready] at held ⊢
    obtain rfl : i = k := by
      by_contra apart
      exact held (if_neg apart)
    exact if_neg other
  | sent k =>
    refine ⟨Nat.zero_le 1, fun i held => ⟨rfl, fun j other => ?_⟩⟩
    rw [grip_sent] at held ⊢
    obtain rfl : i = k := by
      by_contra apart
      exact held (if_neg apart)
    exact if_neg other
  | stored => exact ⟨Nat.le_refl 1, fun i held => absurd rfl held⟩
  | _ => exact ⟨Nat.zero_le 1, fun i held => absurd rfl held⟩

/-- Whose turn it is can be told from the parts. -/
lemma At.last {last : Option ι} (here : At n grip unmade loc) (isLast : Last loc last) :
    (∀ i, grip i = .sent → last = some i) ∧ (0 < n ∨ (∃ i, grip i = .ready) → last = none) := by
  constructor
  · intro i sent
    obtain rfl := here.of_sent sent
    exact isLast
  · rintro (pos | ⟨i, ready⟩)
    · obtain ⟨rfl, -⟩ := here.of_copies pos
      exact isLast
    · obtain rfl := here.of_ready ready
      exact isLast

end parts

end Railscale.Token
