import Railscale.Core.Exchange
import Railscale.Lib.Stream
import Mathlib.Data.List.Forall2

/-!
# A connection over its two streams

`do_connection` with the streams that it polls: the request stream of the client, one for all cycles, and a response
stream in each cycle, over what the destination answers. A poll may be pending. `Proxy.step` is this machine, over any
two streams, and `Follows` says that it is a `Script` when the streams give what the script says: a poll that is
pending is no step of the script, every other step is one (`Follows.step`), and the script goes on only where the
machine does (`Follows.goes`).
-/

namespace Railscale.Proxy

open Service AsyncStream

/-- A connection, the request stream, the response stream of the cycle, and those of the cycles to come. -/
structure State (C R F H D : Type) where
  conn : Service.State F H D
  client : C
  response : Option R
  later : List R

variable {C R F H D : Type}

/-- The places where an item of the response is awaited. -/
def awaitsResponse : Pc H D → Bool
  | .relaying _ => true
  | _ => false

/-- What a stream of the transport gives for some items. -/
def items (is : List (ParsedData F)) : List (Option (Except IoError (ParsedData F))) := is.map fun i => some (.ok i)

section machine

variable [Frame F] [ConnectionHook H F] [AsyncStream C (Except IoError (ParsedData F))]
  [AsyncStream R (Except IoError (ParsedData F))] (cfg : Config F H)

/-- A connection before its first cycle. -/
def State.init (client : C) (later : List R) : State C R F H D := ⟨.init cfg, client, none, later⟩

/-- A step of the connection, or a poll of one of its streams that is pending. -/
def step (s : State C R F H D) (a : Script.Action D) : Option (State C R F H D) :=
  match a with
  | .client =>
    match pollNext s.client with
    | (.pending, client) => if awaitsClient s.conn.pc then some { s with client := client } else none
    | (.ready o, client) =>
      (Service.step cfg s.conn (.clientItem (.ofIo o))).map fun conn => { s with conn := conn, client := client }
  | .response =>
    match pollNext s.response with
    | (.pending, response) => if awaitsResponse s.conn.pc then some { s with response := response } else none
    | (.ready o, response) =>
      (Service.step cfg s.conn (.responseItem (.ofIo o))).map fun conn => { s with conn := conn, response := response }
  | .wrote =>
    (Service.step cfg s.conn (.wrote (.ok ()))).map fun conn =>
      { s with conn := conn, response := s.later.head?, later := s.later.tail }
  | .pool dest => (Service.step cfg s.conn (.acquired dest)).map fun conn => { s with conn := conn }
  | .route dest => (Service.step cfg s.conn (.routed (.ok dest))).map fun conn => { s with conn := conn }
  | .flushed => (Service.step cfg s.conn (.clientWrote (.ok ()))).map fun conn => { s with conn := conn }
  | .release => (Service.step cfg s.conn .release).map fun conn => { s with conn := conn }

/-- The streams give what the script says. -/
structure Follows (s : State C R F H D) (t : Script.State F H D) : Prop where
  conn : s.conn = t.conn
  client : ∃ os, Gives s.client os ∧ t.client = os.map Item.ofIo
  response : Gives s.response (items t.response)
  later : List.Forall₂ (fun r is => Gives r (items is)) s.later t.later

variable {cfg} {s s' : State C R F H D} {t : Script.State F H D} {a : Script.Action D}

omit [Frame F] [ConnectionHook H F] [AsyncStream C (Except IoError (ParsedData F))]
  [AsyncStream R (Except IoError (ParsedData F))] in
/-- The first item of a stream of the transport, as the connection gets it. -/
lemma headD_map_ofIo (os : List (Option (Except IoError (ParsedData F)))) :
    (os.map Item.ofIo).headD none = Item.ofIo (os.headD none) := by
  cases os <;> rfl

omit [Frame F] [ConnectionHook H F] [AsyncStream C (Except IoError (ParsedData F))]
  [AsyncStream R (Except IoError (ParsedData F))] in
/-- The first of some items, as the connection gets it. -/
lemma ofIo_headD_items (is : List (ParsedData F)) : Item.ofIo ((items is).headD none) = is.head?.map .ok := by
  cases is <;> rfl

omit [Frame F] [ConnectionHook H F] [AsyncStream C (Except IoError (ParsedData F))]
  [AsyncStream R (Except IoError (ParsedData F))] in
/-- The items behind the first. -/
lemma tail_items (is : List (ParsedData F)) : (items is).tail = items is.tail := by
  cases is <;> rfl

omit [Frame F] [ConnectionHook H F] [AsyncStream C (Except IoError (ParsedData F))] in
/-- The response stream of the next cycle. -/
lemma gives_head? {rs : List R} {later : List (List (ParsedData F))}
    (gives : List.Forall₂ (fun r is => Gives r (items is)) rs later) :
    Gives rs.head? (items (later.headD [])) ∧ List.Forall₂ (fun r is => Gives r (items is)) rs.tail later.tail := by
  cases gives with
  | nil => exact ⟨gives_none, .nil⟩
  | cons first rest => exact ⟨first.some, rest⟩

omit [Frame F] [ConnectionHook H F] in
/-- A poll of the client stream is an item of the script. -/
lemma Follows.of_client (follows : Follows s t) {client : C} (conn : Service.State F H D)
    {os : List (Option (Except IoError (ParsedData F)))} (gives : Gives client os)
    (same : t.client.tail = os.map Item.ofIo) :
    Follows { s with conn := conn, client := client } (t.next .client conn) :=
  ⟨rfl, ⟨os, gives, same⟩, follows.response, follows.later⟩

/-- A step of the machine is a step of the script, or none. -/
lemma Follows.step (follows : Follows s t) (st : Proxy.step cfg s a = some s') :
    Follows s' t ∨ ∃ b t', Script.step cfg t b = some t' ∧ Follows s' t' := by
  have moves : ∀ {conn : Service.State F H D} (b : Script.Action D), Service.step cfg s.conn (b.act t) = some conn →
      Script.step cfg t b = some (t.next b conn) := by
    intro conn b move
    rw [follows.conn] at move
    rw [Script.step, move]
    rfl
  cases a with
  | client =>
    obtain ⟨os, gives, script⟩ := follows.client
    unfold Proxy.step at st
    rcases poll : pollNext s.client with ⟨_ | o, client⟩
    · rw [poll] at st
      obtain ⟨-, same⟩ := Option.ite_none_right_eq_some.1 st
      obtain rfl := Option.some.inj same
      exact .inl { follows with client := ⟨os, gives.pending poll, script⟩ }
    · rw [poll] at st
      obtain ⟨conn, move, rfl⟩ := Option.map_eq_some_iff.1 st
      obtain ⟨rfl, rest⟩ := gives.ready poll
      have item : Script.Action.act t .client = .clientItem (Item.ofIo (os.headD none)) := by
        rw [Script.Action.act, script, headD_map_ofIo]
      refine .inr ⟨.client, _, moves .client (item ▸ move), follows.of_client conn rest ?_⟩
      rw [script, List.map_tail]
  | response =>
    unfold Proxy.step at st
    rcases poll : pollNext s.response with ⟨_ | o, response⟩
    · rw [poll] at st
      obtain ⟨-, same⟩ := Option.ite_none_right_eq_some.1 st
      obtain rfl := Option.some.inj same
      exact .inl { follows with response := follows.response.pending poll }
    · rw [poll] at st
      obtain ⟨conn, move, rfl⟩ := Option.map_eq_some_iff.1 st
      obtain ⟨rfl, rest⟩ := follows.response.ready poll
      have item : Script.Action.act t .response = .responseItem (Item.ofIo ((items t.response).headD none)) := by
        rw [Script.Action.act, ofIo_headD_items]
      refine .inr ⟨.response, _, moves .response (item ▸ move), rfl, follows.client, ?_, follows.later⟩
      rw [tail_items] at rest
      exact rest
  | wrote =>
    obtain ⟨conn, move, rfl⟩ := Option.map_eq_some_iff.1 st
    obtain ⟨first, rest⟩ := gives_head? follows.later
    exact .inr ⟨.wrote, _, moves .wrote move, rfl, follows.client, first, rest⟩
  | pool dest =>
    obtain ⟨conn, move, rfl⟩ := Option.map_eq_some_iff.1 st
    exact .inr ⟨.pool dest, _, moves (.pool dest) move, rfl, follows.client, follows.response, follows.later⟩
  | route dest =>
    obtain ⟨conn, move, rfl⟩ := Option.map_eq_some_iff.1 st
    exact .inr ⟨.route dest, _, moves (.route dest) move, rfl, follows.client, follows.response, follows.later⟩
  | flushed =>
    obtain ⟨conn, move, rfl⟩ := Option.map_eq_some_iff.1 st
    exact .inr ⟨.flushed, _, moves .flushed move, rfl, follows.client, follows.response, follows.later⟩
  | release =>
    obtain ⟨conn, move, rfl⟩ := Option.map_eq_some_iff.1 st
    exact .inr ⟨.release, _, moves .release move, rfl, follows.client, follows.response, follows.later⟩

/-- An item of the client is taken only where one is awaited. -/
lemma awaitsClient_of_step {conn conn' : Service.State F H D} {o : Item F}
    (move : Service.step cfg conn (.clientItem o) = some conn') : awaitsClient conn.pc = true := by
  cases Service.step_cases move with
  | preRoute here => rw [here, awaitsClient]
  | postRoute here => rw [here, awaitsClient]

/-- An item of the response is taken only where one is awaited. -/
lemma awaitsResponse_of_step {conn conn' : Service.State F H D} {o : Item F}
    (move : Service.step cfg conn (.responseItem o) = some conn') : awaitsResponse conn.pc = true := by
  cases Service.step_cases move with
  | relay here => rw [here, awaitsResponse]

/-- Polling the client stream until it is ready. -/
lemma exists_run_client {client client' : C} {o : Option (Except IoError (ParsedData F))} (next : Next client o client')
    {conn : Service.State F H D} (move : Service.step cfg s.conn (.clientItem (.ofIo o)) = some conn)
    (here : s.client = client) :
    ∃ as, Run (Proxy.step cfg) s as { s with conn := conn, client := client' } := by
  induction next generalizing s with
  | ready poll =>
    subst here
    exact ⟨[.client], .cons (by simp only [Proxy.step, poll, move, Option.map_some]) .nil⟩
  | @pending _ client1 _ _ poll _ ih =>
    subst here
    obtain ⟨as, run⟩ := ih (s := { s with client := client1 }) move rfl
    refine ⟨.client :: as, .cons ?_ run⟩
    simp only [Proxy.step, poll, awaitsClient_of_step move, if_true]

/-- Polling the response stream until it is ready. -/
lemma exists_run_response {response response' : Option R} {o : Option (Except IoError (ParsedData F))}
    (next : Next response o response') {conn : Service.State F H D}
    (move : Service.step cfg s.conn (.responseItem (.ofIo o)) = some conn) (here : s.response = response) :
    ∃ as, Run (Proxy.step cfg) s as { s with conn := conn, response := response' } := by
  induction next generalizing s with
  | ready poll =>
    subst here
    exact ⟨[.response], .cons (by simp only [Proxy.step, poll, move, Option.map_some]) .nil⟩
  | @pending _ response1 _ _ poll _ ih =>
    subst here
    obtain ⟨as, run⟩ := ih (s := { s with response := response1 }) move rfl
    refine ⟨.response :: as, .cons ?_ run⟩
    simp only [Proxy.step, poll, awaitsResponse_of_step move, if_true]

/-- Where the script goes on, the machine does. -/
lemma Follows.goes {t' : Script.State F H D} (follows : Follows s t) (st : Script.step cfg t a = some t') :
    ∃ as s', Run (Proxy.step cfg) s as s' ∧ Follows s' t' := by
  obtain ⟨conn, move, rfl⟩ := Option.map_eq_some_iff.1 st
  rw [← follows.conn] at move
  cases a with
  | client =>
    obtain ⟨os, gives, script⟩ := follows.client
    obtain ⟨client, next, rest⟩ := gives.exists_next
    rw [Script.Action.act, script, headD_map_ofIo] at move
    obtain ⟨as, run⟩ := exists_run_client next move rfl
    refine ⟨as, _, run, follows.of_client conn rest ?_⟩
    rw [script, List.map_tail]
  | response =>
    obtain ⟨response, next, rest⟩ := follows.response.exists_next
    rw [Script.Action.act, ← ofIo_headD_items] at move
    obtain ⟨as, run⟩ := exists_run_response next move rfl
    rw [tail_items] at rest
    exact ⟨as, _, run, rfl, follows.client, rest, follows.later⟩
  | wrote =>
    obtain ⟨first, rest⟩ := gives_head? follows.later
    have st : Proxy.step cfg s .wrote = some _ := Option.map_eq_some_iff.2 ⟨conn, move, rfl⟩
    exact ⟨[.wrote], _, .cons st .nil, rfl, follows.client, first, rest⟩
  | pool dest =>
    have st : Proxy.step cfg s (.pool dest) = some _ := Option.map_eq_some_iff.2 ⟨conn, move, rfl⟩
    exact ⟨[.pool dest], _, .cons st .nil, rfl, follows.client, follows.response, follows.later⟩
  | route dest =>
    have st : Proxy.step cfg s (.route dest) = some _ := Option.map_eq_some_iff.2 ⟨conn, move, rfl⟩
    exact ⟨[.route dest], _, .cons st .nil, rfl, follows.client, follows.response, follows.later⟩
  | flushed =>
    have st : Proxy.step cfg s .flushed = some _ := Option.map_eq_some_iff.2 ⟨conn, move, rfl⟩
    exact ⟨[.flushed], _, .cons st .nil, rfl, follows.client, follows.response, follows.later⟩
  | release =>
    have st : Proxy.step cfg s .release = some _ := Option.map_eq_some_iff.2 ⟨conn, move, rfl⟩
    exact ⟨[.release], _, .cons st .nil, rfl, follows.client, follows.response, follows.later⟩

/-- What the writes of a connection have come to, as the exchanges say: so far, when it has returned, and that it
will return. -/
structure Serves (cfg : Config F H) (xs : List (Exchange F)) (s : State C R F H D) : Prop where
  upstream : Script.wrote (s.conn.past ++ [s.conn.log]) <+: xs.map (·.forwarded cfg)
  client : Script.heard (s.conn.past ++ [s.conn.log]) <+: xs.flatMap (·.answered cfg)
  returned : ∀ r, s.conn.pc = .finished r → r = .ok () ∧
    Script.wrote (s.conn.past ++ [s.conn.log]) = xs.map (·.forwarded cfg) ∧
    Script.heard (s.conn.past ++ [s.conn.log]) = xs.flatMap (·.answered cfg)
  returns : ∃ as s', Run (Proxy.step cfg) s as s' ∧ s'.conn.pc = .finished (.ok ())

/-- What the writes come to is all that is said of the exchanges. -/
lemma Serves.congr {xs ys : List (Exchange F)} (upstream : xs.map (·.forwarded cfg) = ys.map (·.forwarded cfg))
    (client : xs.flatMap (·.answered cfg) = ys.flatMap (·.answered cfg)) (serves : Serves cfg xs s) :
    Serves cfg ys s where
  upstream := upstream ▸ serves.upstream
  client := client ▸ serves.client
  returned r stops := upstream ▸ client ▸ serves.returned r stops
  returns := serves.returns

/-- A connection whose streams give some exchanges serves them. -/
theorem serves_of_gives [Inhabited D] (parser : cfg.responseParser = true) {xs : List (Exchange F)}
    (some_exchange : xs ≠ []) (accepted : ∀ x ∈ xs, x.Accepted cfg) (kept : ∀ x ∈ xs.dropLast, x.closes cfg = false)
    {client : C} {later : List R}
    (requests : ∃ os, Gives client os ∧ Script.script xs = os.map Item.ofIo)
    (responses : List.Forall₂ (fun r (x : Exchange F) => Gives r (items x.response)) later xs)
    {as : List (Script.Action D)} (run : Run (Proxy.step cfg) (.init cfg client later) as s) : Serves cfg xs s := by
  have start : Follows (.init cfg client later : State C R F H D) (.init cfg xs) :=
    ⟨rfl, requests, gives_none, List.forall₂_map_right_iff.2 responses⟩
  obtain ⟨bs, t, run', follows⟩ := run.simulates (fun _ _ _ _ follows st => follows.step st) start
  have inv := Script.inv_of_run parser some_exchange accepted run'
  have written := inv.2.written inv.1
  have finished := fun r stops => inv.2.finished (r := r) kept stops
  rw [Script.State.logs, ← follows.conn] at written finished
  refine ⟨written.1, written.2, finished, ?_⟩
  obtain ⟨cs, t', run'', stops⟩ := Script.exists_finished parser accepted inv
  obtain ⟨as', s', run, follows⟩ := run''.realizes (fun _ _ _ _ follows st => Follows.goes follows st) follows
  exact ⟨as', s', run, follows.conn ▸ stops⟩

end machine

end Railscale.Proxy
