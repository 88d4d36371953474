import Railscale.Core.Accounting
import Railscale.Core.Phases
import Railscale.Core.Proxy

/-!
# A connection over the stream of its client

`do_connection` with the stream that a parser makes of the client, whatever the pool, the router and the destinations
do. What the connection takes in all its cycles is a prefix of what the stream gives (`taken_of_run`). Without a
response parser a connection has one cycle, and it forwards all or nothing: its one write is of everything that the
stream has given, and the stream is over by then (`whole_of_run`).
-/

namespace Railscale.Feed

open Service AsyncStream

variable {C F H D : Type}

/-- A connection and the stream of its client. -/
structure State (C F H D : Type) where
  conn : Service.State F H D
  client : C

/-- A poll of the stream, or what else the connection gets. -/
inductive Action (F D : Type) where
  | poll
  | other (a : Service.Action F D)

section machine

variable [Frame F] [ConnectionHook H F] [AsyncStream C (Except IoError (ParsedData F))] (cfg : Config F H)

/-- A connection before its first cycle. -/
def State.init (client : C) : State C F H D := ⟨.init cfg, client⟩

/-- A step of the connection, or a poll that is pending. -/
def step (s : State C F H D) : Action F D → Option (State C F H D)
  | .poll =>
    match pollNext s.client with
    | (.pending, client) => if awaitsClient s.conn.pc then some { s with client := client } else none
    | (.ready o, client) => (Service.step cfg s.conn (.clientItem (.ofIo o))).map fun conn => ⟨conn, client⟩
  | .other (.clientItem _) => none
  | .other a => (Service.step cfg s.conn a).map fun conn => { s with conn := conn }

/-- What a step is for the connection and its stream. -/
inductive Moves (s s' : State C F H D) : Prop where
  | pending :
    pollNext s.client = (.pending, s'.client) →
    s'.conn = s.conn →
    Moves s s'
  | item {o} :
    pollNext s.client = (.ready o, s'.client) →
    Service.step cfg s.conn (.clientItem (.ofIo o)) = some s'.conn →
    Moves s s'
  | other {a} :
    a.items = [] →
    Service.step cfg s.conn a = some s'.conn →
    s'.client = s.client →
    Moves s s'

variable {cfg} {s s' : State C F H D} {client : C} {as : List (Action F D)}

/-- A step is one of these. -/
lemma step_moves {a : Action F D} (st : step cfg s a = some s') : Moves cfg s s' := by
  have other {b : Service.Action F D} (quiet : b.items = [])
      (moved : (Service.step cfg s.conn b).map (fun conn => { s with conn := conn }) = some s') : Moves cfg s s' := by
    obtain ⟨conn, move, rfl⟩ := Option.map_eq_some_iff.1 moved
    exact .other quiet move rfl
  cases a with
  | poll =>
    rw [step] at st
    rcases poll : pollNext s.client with ⟨_ | o, client⟩
    · rw [poll] at st
      obtain ⟨-, same⟩ := Option.ite_none_right_eq_some.1 st
      cases same
      exact .pending poll rfl
    · rw [poll] at st
      obtain ⟨conn, move, rfl⟩ := Option.map_eq_some_iff.1 st
      exact .item poll move
  | other a =>
    cases a with
    | clientItem o => cases st
    | _ => exact other rfl st

/-- The run of the connection inside. -/
lemma conn_of_run (run : Run (step cfg) (State.init cfg client) as s) :
    ∃ bs, Run (Service.step cfg) (Service.State.init cfg) bs s.conn := by
  refine run.invariant (P := fun s : State C F H D => ∃ bs, Run (Service.step cfg) (Service.State.init cfg) bs s.conn)
    (fun s a s' runs st => ?_) ⟨[], .nil⟩
  obtain ⟨bs, runs⟩ := runs
  cases step_moves st with
  | pending _ same => exact ⟨bs, same ▸ runs⟩
  | item _ move => exact ⟨bs ++ [_], runs.append (.cons move .nil)⟩
  | other _ move _ => exact ⟨bs ++ [_], runs.append (.cons move .nil)⟩

/-! ## What is taken -/

/-- The items that a connection has taken in all its cycles. -/
def allTakes (s : Service.State F H D) : List (Item F) := (s.past ++ [s.log]).flatMap takes

omit [Frame F] [ConnectionHook H F] in
/-- The items of all cycles are those of the past ones and of the current one. -/
lemma allTakes_eq (s : Service.State F H D) : allTakes s = s.past.flatMap takes ++ takes s.log := by
  rw [allTakes, List.flatMap_append, List.flatMap_singleton]

/-- A step takes the item that it is given. -/
lemma allTakes_step {t t' : Service.State F H D} {a : Service.Action F D} (st : Service.step cfg t a = some t') :
    allTakes t' = allTakes t ++ a.items := by
  by_cases release : a = .release
  · subst release
    obtain ⟨-, -, log, es, untaken, past⟩ := step_release st
    rw [allTakes_eq, allTakes_eq, log, past, List.flatMap_append, List.flatMap_singleton, takes_append, untaken,
      List.append_nil]
    rfl
  · obtain ⟨past, takes_eq, -⟩ := step_advances st release
    rw [allTakes_eq, allTakes_eq, past, takes_eq, List.append_assoc]

/-- Of what the stream gives, some is taken and some is left; behind the end the end is taken again and again. -/
structure Taken (os : List (Option (Except IoError (ParsedData F)))) (s : State C F H D)
    (took left : List (Option (Except IoError (ParsedData F)))) (ends : Nat) : Prop where
  split : os = took ++ left
  all : allTakes s.conn = took.map Item.ofIo ++ List.replicate ends none
  gives : Gives s.client left
  first : left = [] ∨ ends = 0

/-- A step takes the next of it. -/
lemma Taken.step {os took left : List (Option (Except IoError (ParsedData F)))} {ends : Nat} {a : Action F D}
    (taken : Taken os s took left ends) (st : Feed.step cfg s a = some s') :
    ∃ took left ends, Taken os s' took left ends := by
  obtain ⟨split, all, gives, first⟩ := taken
  cases step_moves st with
  | pending poll same => exact ⟨took, left, ends, split, by rw [same]; exact all, gives.pending poll, first⟩
  | other quiet move client =>
    refine ⟨took, left, ends, split, ?_, client ▸ gives, first⟩
    rw [allTakes_step move, quiet, List.append_nil]
    exact all
  | @item o poll move =>
    obtain ⟨rfl, rest⟩ := gives.ready poll
    have more : allTakes s'.conn = allTakes s.conn ++ [Item.ofIo (left.headD none)] := allTakes_step move
    cases left with
    | nil =>
      refine ⟨took, [], ends + 1, split, ?_, rest, .inl rfl⟩
      rw [more, all, List.replicate_succ', List.append_assoc]
      rfl
    | cons o left =>
      obtain rfl : ends = 0 := first.resolve_left (List.cons_ne_nil _ _)
      refine ⟨took ++ [o], left, 0, by rw [split, List.append_assoc]; rfl, ?_, rest, .inr rfl⟩
      rw [more, all, List.map_append]
      simp only [List.replicate_zero, List.append_nil]
      rfl

/-- What a connection takes is a prefix of what its stream gives. -/
lemma taken_of_run {os : List (Option (Except IoError (ParsedData F)))} (gives : Gives client os)
    (run : Run (step cfg) (State.init cfg client) as s) : ∃ took left ends, Taken os s took left ends :=
  run.invariant (P := fun s => ∃ took left ends, Taken os s took left ends)
    (fun _ _ _ ⟨_, _, _, taken⟩ st => taken.step st) ⟨[], os, 0, rfl, rfl, gives, .inr rfl⟩

omit [Frame F] [ConnectionHook H F] in
/-- The items up to the first one that stops. -/
lemma given_inj {is js : List (ParsedData F)} {stop : Item F} {xs ys : List (Item F)} (stops : Stop stop)
    (other : ∀ y ∈ ys.head?, Stop y) (same : given is ++ stop :: xs = given js ++ ys) : is = js ∧ ys = stop :: xs := by
  induction is generalizing js with
  | nil =>
    cases js with
    | nil => exact ⟨rfl, same.symm⟩
    | cons j js =>
      cases (List.cons.inj same).1
      exact stops.elim
  | cons i is ih =>
    cases js with
    | nil =>
      have whole : ys = some (.ok i) :: (given is ++ stop :: xs) := same.symm
      have first : Stop (some (.ok i) : Item F) := other _ (by rw [whole]; rfl)
      exact first.elim
    | cons j js =>
      obtain ⟨first, rest⟩ := List.cons.inj same
      cases first
      obtain ⟨rfl, tail⟩ := ih rest
      exact ⟨rfl, tail⟩

end machine

/-! ## A service without a response parser -/

section plain

variable [Frame F] [ConnectionHook H F] {cfg : Config F H} {s s' : Service.State F H D} {a : Service.Action F D}

/-- The places of a connection that copies its response. -/
def Plain : Pc H D → Prop
  | .preRoute => True
  | .acquiring _ => True
  | .joining _ _ _ => True
  | .writing _ _ => True
  | .copying _ _ => True
  | .finished _ => True
  | _ => False

/-- Such a connection has one cycle, and it ends well only behind its write. -/
structure Once (s : Service.State F H D) : Prop where
  past : s.past = []
  plain : Plain s.pc
  wrote : s.pc = .finished (.ok ()) → writes s.log ≠ []

/-- In the first cycle the pre-route loop does not end well. -/
lemma not_ok_onPreRoute (first : s.firstCycle = true) (here : s.pc = .preRoute) (o : Item F) :
    (s.onPreRoute cfg o).pc ≠ .finished (.ok ()) := by
  have failed : ∀ (t : Service.State F H D) cr err, (t.fail cfg cr err).pc ≠ .finished (.ok ()) := by
    intro t cr err ok
    rw [State.fail_eq] at ok
    cases ok
  intro ok
  have turn := State.onPreRoute_cases cfg s o
  generalize s.onPreRoute cfg o = t at turn ok
  cases turn with
  | ended =>
    rw [State.endPreRoute, State.emit_firstCycle, first] at ok
    exact failed _ _ _ ok
  | closed later _ => cases first.symm.trans later
  | failed => exact failed _ _ _ ok
  | overflow _ _ => exact failed _ _ _ ok
  | kept _ _ => cases here.symm.trans ok
  | routed _ _ =>
    rw [State.toAcquire] at ok
    split at ok
    · cases ok
    · cases ok

/-- The first cycle does not end well before its write. -/
lemma not_ok_of_first (first : s.firstCycle = true) (early : ¬ s.pc.After) (st : Service.step cfg s a = some s') :
    s'.pc ≠ .finished (.ok ()) := by
  intro ok
  obtain ⟨-, es, -, step⟩ := step_early early st
  rw [ok] at step
  cases step with
  | found _ _ place =>
    rcases place with place | place
    · cases place
    · cases place
  | returned here =>
    cases step_cases st with
    | preRoute _ =>
      exact not_ok_onPreRoute first here _ ok
    | postRoute joining => cases here.symm.trans joining

/-- A step keeps it. -/
lemma Once.step (plain : cfg.responseParser = false) (once : Once s) (accounted : Accounted cfg s) {n : Nat}
    (staged : Staged cfg s n) (st : Service.step cfg s a = some s') : Once s' := by
  obtain ⟨past, place, -⟩ := once
  have going : ∀ r, s.pc ≠ .finished r := fun r pc => not_step_finished pc st
  by_cases after : s.pc.After
  · have reached := staged.going going
    have other : ∀ {pc'}, s.pc = pc' → ¬ (Plain pc' ∧ pc'.After) → Once s' :=
      fun here not => absurd ⟨here ▸ place, here ▸ after⟩ not
    cases step_cases st with
    | wrote here =>
      rw [State.toRelay, if_neg (ne_true_of_eq_false plain)]
      exact ⟨past, trivial, fun pc => by cases pc⟩
    | writeError here => exact ⟨past, trivial, fun pc => by cases pc⟩
    | copied here =>
      refine ⟨past, trivial, fun _ => ?_⟩
      rw [here] at reached
      exact List.ne_nil_of_length_pos (Nat.lt_of_lt_of_eq Nat.zero_lt_one reached.last.symm)
    | copyError here => exact ⟨past, trivial, fun pc => by cases pc⟩
    | preRoute here => exact other here (·.2)
    | acquired here => exact other here (·.2)
    | postRoute here => exact other here (·.2)
    | routed here => exact other here (·.2)
    | joined here => exact other here (·.2)
    | relay here => exact other here (·.1)
    | flushed here => exact other here (·.1)
    | flushedLast here => exact other here (·.1)
    | flushError here => exact here.elim (other · (·.1)) (other · (·.1))
    | flushedError here => exact other here (·.1)
    | released here _ => exact other here (·.1)
    | dropped here _ => exact other here (·.1)
  · have first : s.firstCycle = true := by
      cases accounted.tallied with
      | going _ _ _ first => exact first.2 past
      | releasing here _ _ =>
        rw [here] at after
        exact absurd trivial after
      | returned here _ _ => exact absurd here (going _)
      | abandoned here _ _ => exact absurd here (going _)
    have fine := not_ok_of_first first after st
    obtain ⟨past', es, -, step⟩ := step_early after st
    refine ⟨past'.trans past, ?_, fun ok => absurd ok fine⟩
    generalize s'.pc = pc' at step
    cases step with
    | found _ _ place =>
      rcases place with rfl | rfl
      · trivial
      · trivial
    | _ => trivial

/-- Without a response parser every run has one cycle. -/
lemma once_of_run (plain : cfg.responseParser = false) {as : List (Service.Action F D)}
    (run : Run (Service.step cfg) (Service.State.init cfg) as s) : Accounted cfg s ∧ Once s := by
  have inv : Accounted cfg s ∧ (∃ n, Staged cfg s n) ∧ Once s := by
    refine run.invariant (P := fun s : Service.State F H D => Accounted cfg s ∧ (∃ n, Staged cfg s n) ∧ Once s) ?_
      ⟨.init, ⟨0, .init⟩, rfl, trivial, fun pc => by cases pc⟩
    intro s a s' inv st
    obtain ⟨accounted, ⟨n, staged⟩, once⟩ := inv
    exact ⟨accounted.step st, ⟨_, staged.step st⟩, once.step plain accounted staged st⟩
  exact ⟨inv.1, inv.2.2⟩

/-- The stream of a client gives some items and then stops. Without a response parser the connection writes nothing, or
it writes all of them at once, and then it has awaited the stream up to its stop; and it ends well only behind that. -/
theorem whole_of_run {C : Type} [AsyncStream C (Except IoError (ParsedData F))] (plain : cfg.responseParser = false)
    {client : C} {is : List (ParsedData F)} {os : List (Option (Except IoError (ParsedData F)))}
    (gives : Gives client (Proxy.items is ++ os)) (stops : Stop (Item.ofIo (os.headD none)))
    {as : List (Action F D)} {t : State C F H D} (run : Run (step cfg) (State.init cfg client) as t) :
    t.conn.past = [] ∧ (t.conn.pc = .finished (.ok ()) → writes t.conn.log ≠ []) ∧
      (writes t.conn.log = [] ∨ ∃ pre f post d, is = pre ++ .parsed f :: post ∧ Service.Request cfg pre f post ∧
        writes t.conn.log = [(d, is.flatMap (·.output cfg.process))] ∧ Gives t.client os.tail) := by
  obtain ⟨bs, conn⟩ := conn_of_run run
  obtain ⟨accounted, once⟩ := once_of_run plain conn
  refine ⟨once.past, once.wrote, ?_⟩
  rcases accounted.inv.running.cycleOk with none | ⟨pre, f, post, stop, before, after, d, fwd⟩
  · exact .inl none
  obtain ⟨took, left, ends, split, all, rest, first⟩ := taken_of_run gives run
  have takes_eq : allTakes t.conn = given (pre ++ .parsed f :: post) ++ [stop] := by
    have logged : takes t.conn.log = takes before ++ takes after := by
      rw [fwd.log_eq, takes_append]
      rfl
    rw [allTakes_eq, once.past, logged, fwd.takes_eq, fwd.takes_after, List.append_nil]
    rfl
  have wrote : writes t.conn.log = [(d, (pre ++ .parsed f :: post).flatMap (·.output cfg.process))] := by
    rw [fwd.log_eq, writes_append, fwd.once]
    exact congrArg (_ :: ·) fwd.writes_after
  -- what is taken and what is left are all that the stream gives
  have same : given (pre ++ .parsed f :: post) ++ stop :: left.map Item.ofIo =
      given is ++ (os.map Item.ofIo ++ List.replicate ends none) := by
    have items : given is = (Proxy.items is).map Item.ofIo := by
      rw [given, Proxy.items, List.map_map]
      rfl
    have order : List.replicate ends none ++ left.map Item.ofIo = left.map Item.ofIo ++ List.replicate ends none := by
      rcases first with rfl | rfl
      · rw [List.map_nil, List.append_nil, List.nil_append]
      · rw [List.replicate_zero, List.append_nil, List.nil_append]
    rw [List.append_cons, ← takes_eq, all, items, ← List.append_assoc, ← List.map_append, split, List.map_append,
      List.append_assoc, order, List.append_assoc]
  have other : ∀ y ∈ (os.map Item.ofIo ++ List.replicate ends none).head?, Stop y := by
    intro y mem
    cases os with
    | nil =>
      cases ends with
      | zero => cases mem
      | succ ends =>
        cases mem
        trivial
    | cons o os =>
      cases mem
      exact stops
  obtain ⟨rfl, tail⟩ := given_inj fwd.stops other same
  refine .inr ⟨pre, f, post, d, rfl, fwd.request, wrote, ?_⟩
  have behind : left = os.tail := by
    have len := congrArg List.length tail
    simp only [List.length_append, List.length_map, List.length_replicate, List.length_cons] at len
    cases os with
    | nil => exact first.resolve_right (by rw [List.length_nil] at len; omega)
    | cons o os =>
      rw [List.length_cons] at len
      have fewer : left.length = os.length := by
        rcases first with rfl | rfl
        · rw [List.length_nil] at len ⊢
          omega
        · omega
      rw [List.append_cons] at split
      exact (List.append_inj_right' split fewer.symm).symm
  exact behind ▸ rest

end plain

end Railscale.Feed
