import Railscale.Core.Steps

/-!
# The relay of a response

`do_connection` collects the response in batches and writes a batch when it has grown over 32768 bytes, when the
stream fails and at its end. Written and pending bytes together are the response at every turn of the loop, so
the client gets the response whatever the sizes of its items are (`relay_transparent`).
-/

namespace Railscale

namespace Service

variable {F H D : Type}

/-- What was written to the client. -/
def clientBytes (log : List (Event F H D)) : Bytes :=
  log.flatMap fun
    | .clientWrite bs => bs
    | .errorResponse bs => bs
    | _ => []

/-- What was written to the client in two logs, one behind the other. -/
@[simp] lemma clientBytes_append (l m : List (Event F H D)) : clientBytes (l ++ m) = clientBytes l ++ clientBytes m :=
  List.flatMap_append

/-- What the response stream gave. -/
def responseItems (as : List (Action F D)) : List (Item F) :=
  as.filterMap fun
    | .responseItem o => some o
    | _ => none

/-- The places at the end of a cycle. -/
def Pc.Over : Pc H D → Prop
  | .releasing _ _ => True
  | .finished _ => True
  | _ => False

/-- The places up to the write of the request. -/
def Pc.Early : Pc H D → Prop
  | .preRoute => True
  | .acquiring _ => True
  | .joining _ _ _ => True
  | .writing _ _ => True
  | _ => False

variable [Frame F] [ConnectionHook H F] (cfg : Config F H)

/-- The bytes of a response behind the pipeline. -/
def relayed (is : List (ParsedData F)) : Bytes := is.flatMap (·.output (cfg.responsePipeline.getD id))

/-- The actions take the connection from `s` to the end of its cycle: the response stream gives the items, and every
write to the client succeeds. -/
structure Relays (s : State F H D) (items : List (Item F)) (as : List (Action F D)) (s' : State F H D) : Prop where
  run : Run (step cfg) s as s'
  items : responseItems as = items
  wrote : ∀ r, .clientWrote r ∈ as → r = .ok ()
  cycle : .release ∉ as
  isOver : s'.pc.Over

variable {cfg} {s s' : State F H D} {a : Action F D}

/-! ## One turn -/

/-- In the relay loop the response stream gives an item. -/
lemma step_relaying {r : Relay H D} (here : s.pc = .relaying r) (st : step cfg s a = some s') :
    ∃ o, a = .responseItem o ∧ s' = s.onRelay cfg r o := by
  unfold step at st
  rw [here] at st
  cases a with
  | responseItem o => exact ⟨o, rfl, (Option.some.inj st).symm⟩
  | _ => cases st

/-- A place where a write to the client is awaited, with what follows its success. -/
inductive Flushes (s : State F H D) : State F H D → Prop where
  | more {r} :
    s.pc = .flushing r →
    Flushes s { s with pc := .relaying r }
  | last {r} :
    s.pc = .flushingLast r →
    Flushes s (s.endRelay r)
  | error {r err} :
    s.pc = .flushingError r err →
    Flushes s (s.finish (s.cycle.result true r.respBytes) (.error (err.inPhase .relay)))

/-- A write to the client that succeeds leads on. -/
lemma step_flushes {s1 : State F H D} (flushes : Flushes s s1) (st : step cfg s a = some s')
    (wrote : ∀ r, a = .clientWrote r → r = .ok ()) : a = .clientWrote (.ok ()) ∧ s' = s1 := by
  have awaits : ∃ r, a = .clientWrote r := by
    cases flushes with
    | more here | last here | error here =>
      unfold step at st
      rw [here] at st
      cases a with
      | clientWrote r => exact ⟨r, rfl⟩
      | _ => cases st
  obtain ⟨r, rfl⟩ := awaits
  obtain rfl := wrote r rfl
  refine ⟨rfl, ?_⟩
  cases flushes with
  | more here | last here | error here =>
    unfold step at st
    rw [here] at st
    exact (Option.some.inj st).symm

/-- Nothing but a release leads on from the end of a cycle. -/
lemma step_over (isOver : s.pc.Over) (st : step cfg s a = some s') : a = .release := by
  unfold step at st
  cases here : s.pc with
  | releasing key dest =>
    rw [here] at st
    cases a with
    | release => rfl
    | _ => cases st
  | finished r =>
    rw [here] at st
    cases a <;> cases st
  | _ =>
    rw [here] at isOver
    exact isOver.elim

omit [Frame F] in
/-- The end of the relay ends the cycle. -/
lemma over_endRelay (r : Relay H D) : (s.endRelay r).pc.Over ∧ (s.endRelay r).log = s.log := by
  rw [State.endRelay, State.endCycle]
  cases s.shouldClose r with
  | true => exact ⟨trivial, rfl⟩
  | false => exact ⟨trivial, rfl⟩

/-! ## Turn after turn -/

variable {items : List (Item F)} {as : List (Action F D)}

omit [Frame F] in
/-- A write to the client comes before the end of the cycle. -/
lemma Flushes.not_over {s1 : State F H D} (flushes : Flushes s s1) : ¬ s.pc.Over := by
  cases flushes with
  | more here | last here | error here =>
    rw [here]
    exact id

/-- The first item of a relay, and the rest of it. -/
lemma Relays.item {r : Relay H D} (here : s.pc = .relaying r) (rel : Relays cfg s items as s') :
    ∃ o items' as', items = o :: items' ∧ Relays cfg (s.onRelay cfg r o) items' as' s' := by
  obtain ⟨run, rfl, wrote, cycle, isOver⟩ := rel
  cases run with
  | nil =>
    rw [here] at isOver
    exact isOver.elim
  | cons st run =>
    obtain ⟨o, rfl, rfl⟩ := step_relaying here st
    exact ⟨o, _, _, rfl, run, rfl, fun r mem => wrote r (.tail _ mem), fun mem => cycle (.tail _ mem), isOver⟩

/-- A write in front of a relay, and the rest of it. -/
lemma Relays.flush {s1 : State F H D} (flushes : Flushes s s1) (rel : Relays cfg s items as s') :
    ∃ as', Relays cfg s1 items as' s' := by
  obtain ⟨run, rfl, wrote, cycle, isOver⟩ := rel
  cases run with
  | nil => exact absurd isOver flushes.not_over
  | cons st run =>
    obtain ⟨rfl, rfl⟩ := step_flushes flushes st fun r same => wrote r (same ▸ .head _)
    exact ⟨_, run, rfl, fun r mem => wrote r (.tail _ mem), fun mem => cycle (.tail _ mem), isOver⟩

/-- A cycle that is over stays as it is. -/
lemma Relays.stop (stops : s.pc.Over) (rel : Relays cfg s items as s') : items = [] ∧ s' = s := by
  obtain ⟨run, rfl, -, cycle, -⟩ := rel
  cases run with
  | nil => exact ⟨rfl, rfl⟩
  | cons st run => exact absurd (step_over stops st ▸ .head _) cycle

/-- An item in front of a relay is a relay. -/
lemma Relays.of_item {r : Relay H D} (here : s.pc = .relaying r) {o : Item F}
    (rel : Relays cfg (s.onRelay cfg r o) items as s') : Relays cfg s (o :: items) (.responseItem o :: as) s' := by
  have st : step cfg s (.responseItem o) = some (s.onRelay cfg r o) := by
    unfold step
    rw [here]
  refine ⟨.cons st rel.run, congrArg (o :: ·) rel.items, fun r mem => ?_, fun mem => ?_, rel.isOver⟩
  · cases mem with
    | tail _ mem => exact rel.wrote r mem
  · cases mem with
    | tail _ mem => exact rel.cycle mem

/-- A write in front of a relay is a relay. -/
lemma Relays.of_flush {s1 : State F H D} (flushes : Flushes s s1) (rel : Relays cfg s1 items as s') :
    Relays cfg s items (.clientWrote (.ok ()) :: as) s' := by
  have st : step cfg s (.clientWrote (.ok ())) = some s1 := by
    unfold step
    cases flushes with
    | more here | last here | error here => rw [here]
  refine ⟨.cons st rel.run, rel.items, fun r mem => ?_, fun mem => ?_, rel.isOver⟩
  · cases mem with
    | head _ => rfl
    | tail _ mem => exact rel.wrote r mem
  · cases mem with
    | tail _ mem => exact rel.cycle mem

/-- What was written and what is pending, and the count, as a turn of the relay should leave them. -/
structure Keeps (s : State F H D) (bytes : Bytes) (respBytes : Nat) (s' : State F H D) (r' : Relay H D) : Prop where
  here : s'.pc = .relaying r'
  bytes : clientBytes s'.log ++ r'.batch = bytes
  respBytes : r'.respBytes = respBytes
  cycle : s'.cycle = s.cycle
  total : s'.total = s.total

/-- The same at the end of the response. -/
structure Closes (s : State F H D) (bytes : Bytes) (respBytes : Nat) (s' : State F H D) : Prop where
  isOver : s'.pc.Over
  bytes : clientBytes s'.log = bytes
  total : s'.total = s.total.accumulate (s.cycle.result true respBytes)

/-- An item joins what is pending, which is flushed when it has grown too long. -/
lemma onRelay_item (cfg : Config F H) (s : State F H D) (r : Relay H D) (i : ParsedData F) :
    ∃ s1, (∃ r1, Keeps s (clientBytes s.log ++ r.batch ++ i.output (cfg.responsePipeline.getD id))
        (r.respBytes + (i.output (cfg.responsePipeline.getD id)).length) s1 r1) ∧
      (s.onRelay cfg r (some (.ok i)) = s1 ∨ Flushes (s.onRelay cfg r (some (.ok i))) s1) := by
  unfold State.onRelay
  dsimp only
  split
  · refine ⟨_, ?_, .inr (.more rfl)⟩
    refine ⟨_, rfl, ?_, rfl, rfl, rfl⟩
    simp [clientBytes]
  · refine ⟨_, ?_, .inl rfl⟩
    exact ⟨_, rfl, (List.append_assoc _ _ _).symm, rfl, rfl, rfl⟩

/-- What is pending is flushed at the end. -/
lemma onRelay_stop (cfg : Config F H) (s : State F H D) (r : Relay H D) (err : Option RailscaleError) :
    ∃ s1, Closes s (clientBytes s.log ++ r.batch) r.respBytes s1 ∧
      (s.onRelay cfg r (err.map .error) = s1 ∨ Flushes (s.onRelay cfg r (err.map .error)) s1) := by
  have ends : ∀ {s' : State F H D}, clientBytes s'.log = clientBytes s.log ++ r.batch → s'.cycle = s.cycle →
      s'.total = s.total → Closes s (clientBytes s.log ++ r.batch) r.respBytes (s'.endRelay r) := by
    intro s' bytes cycle total
    rw [State.endRelay, State.endCycle, cycle, total]
    cases s'.shouldClose r with
    | true => exact ⟨trivial, bytes, rfl⟩
    | false => exact ⟨trivial, bytes, rfl⟩
  -- without pending bytes nothing is written
  have nothing : ¬ r.batch.length > 0 → clientBytes s.log = clientBytes s.log ++ r.batch := by
    intro empty
    rw [List.eq_nil_of_length_eq_zero (Nat.eq_zero_of_not_pos empty), List.append_nil]
  unfold State.onRelay
  cases err with
  | none =>
    dsimp only [Option.map_none]
    split
    · refine ⟨_, ?_, .inr (.last rfl)⟩
      refine ends ?_ rfl rfl
      simp [clientBytes]
    · rename_i empty
      refine ⟨_, ?_, .inl rfl⟩
      exact ends (nothing empty) rfl rfl
  | some err =>
    dsimp only [Option.map_some]
    split
    · refine ⟨_, ?_, .inr (.error rfl)⟩
      refine ⟨trivial, ?_, rfl⟩
      simp [State.finish, clientBytes]
    · rename_i empty
      refine ⟨_, ?_, .inl rfl⟩
      exact ⟨trivial, nothing empty, rfl⟩

/-- Relaying a response, turn after turn: what a turn with an item passes on to the turns before it, from the last
turn on. -/
lemma Relays.turns {is : List (ParsedData F)} {err : Option RailscaleError}
    {P : State F H D → Relay H D → List (ParsedData F) → Prop}
    (last : ∀ s r, ∃ s1, s1.pc.Over ∧
      (s.onRelay cfg r (err.map .error) = s1 ∨ Flushes (s.onRelay cfg r (err.map .error)) s1) ∧ (s' = s1 → P s r []))
    (turn : ∀ s r i is, ∃ s1 r1, s1.pc = .relaying r1 ∧
      (s.onRelay cfg r (some (.ok i)) = s1 ∨ Flushes (s.onRelay cfg r (some (.ok i))) s1) ∧
      (P s1 r1 is → P s r (i :: is)))
    {r : Relay H D} (here : s.pc = .relaying r) (rel : Relays cfg s (given is ++ [err.map .error]) as s') :
    P s r is := by
  induction is generalizing s r as with
  | nil =>
    obtain ⟨o, items', as', same, rel⟩ := rel.item here
    obtain ⟨rfl, rfl⟩ := List.cons.inj same
    obtain ⟨s1, isOver, next, done⟩ := last s r
    refine done ?_
    rcases next with rfl | flushes
    · exact (rel.stop isOver).2
    · obtain ⟨as1, rel⟩ := rel.flush flushes
      exact (rel.stop isOver).2
  | cons i is ih =>
    obtain ⟨o, items', as', same, rel⟩ := rel.item here
    obtain ⟨rfl, rfl⟩ := List.cons.inj same
    obtain ⟨s1, r1, here1, next, done⟩ := turn s r i is
    refine done ?_
    rcases next with rfl | flushes
    · exact ih here1 rel
    · obtain ⟨as1, rel⟩ := rel.flush flushes
      exact ih here1 rel

/-- A response that is relayed from here on: with what is out or pending already, it is written and counted whole. -/
lemma Relays.closes {r : Relay H D} {is : List (ParsedData F)} {err : Option RailscaleError} (here : s.pc = .relaying r)
    (rel : Relays cfg s (given is ++ [err.map .error]) as s') :
    Closes s (clientBytes s.log ++ r.batch ++ relayed cfg is) (r.respBytes + (relayed cfg is).length) s' := by
  refine Relays.turns (P := fun s r is =>
    Closes s (clientBytes s.log ++ r.batch ++ relayed cfg is) (r.respBytes + (relayed cfg is).length) s') ?_ ?_ here rel
  · intro s r
    obtain ⟨s1, closes, next⟩ := onRelay_stop cfg s r err
    refine ⟨s1, closes.isOver, next, ?_⟩
    rintro rfl
    rw [relayed, List.flatMap_nil, List.append_nil]
    exact closes
  · intro s r i is
    obtain ⟨s1, ⟨r1, keeps⟩, next⟩ := onRelay_item cfg s r i
    refine ⟨s1, r1, keeps.here, next, ?_⟩
    rintro ⟨isOver, bytes, total⟩
    rw [keeps.bytes] at bytes
    rw [keeps.respBytes, keeps.cycle, keeps.total] at total
    refine ⟨isOver, ?_, ?_⟩
    · rw [bytes, relayed, relayed, List.flatMap_cons, List.append_assoc]
    · rw [total, relayed, relayed, List.flatMap_cons, List.length_append, Nat.add_assoc]

/-- Every response is relayed to its end. -/
lemma Relays.exists (cfg : Config F H) {r : Relay H D} (here : s.pc = .relaying r) (is : List (ParsedData F))
    (err : Option RailscaleError) :
    ∃ as s', Relays cfg s (given is ++ [err.map .error]) as s' := by
  induction is generalizing s r with
  | nil =>
    obtain ⟨s1, closes, next⟩ := onRelay_stop cfg s r err
    have stays : Relays cfg s1 [] [] s1 := ⟨.nil, rfl, nofun, nofun, closes.isOver⟩
    rcases next with rfl | flushes
    · exact ⟨_, _, .of_item here stays⟩
    · exact ⟨_, _, .of_item here (.of_flush flushes stays)⟩
  | cons i is ih =>
    obtain ⟨s1, ⟨r1, keeps⟩, next⟩ := onRelay_item cfg s r i
    obtain ⟨as, s', rel⟩ := ih keeps.here
    rcases next with rfl | flushes
    · exact ⟨_, _, .of_item here rel⟩
    · exact ⟨_, _, .of_item here (.of_flush flushes rel)⟩

/-! ## The start of a cycle -/

omit [Frame F] [ConnectionHook H F] in
/-- The end of a cycle comes behind its write. -/
lemma Pc.Over.not_early {pc : Pc H D} (isOver : pc.Over) : ¬ pc.Early := by
  cases pc with
  | releasing _ _ => exact id
  | finished _ => exact id
  | _ => exact isOver.elim

/-- A turn of the relay loop stays behind the write. -/
lemma not_early_onRelay (r : Relay H D) (o : Item F) : ¬ (s.onRelay cfg r o).pc.Early := by
  unfold State.onRelay
  match o with
  | none =>
    dsimp only
    split
    · exact id
    · exact (over_endRelay r).1.not_early
  | some (.error err) =>
    dsimp only
    split
    · exact id
    · exact id
  | some (.ok i) =>
    dsimp only
    split
    · exact id
    · exact id

/-- What holds of the log of every cycle up to the write: it holds of an empty one, and the steps up to the write keep
it. -/
lemma step_upto {P : List (Event F H D) → Prop} (nil : P [])
    (keep : ∀ {es pc'}, Early cfg s a es pc' → pc'.Early → P s.log → P (s.log ++ es)) (upto : s.pc.Early → P s.log)
    (st : step cfg s a = some s') (early : s'.pc.Early) : P s'.log := by
  have before : ∀ {pc : Pc H D}, s.pc = pc → pc.Early → ¬ pc.After → P s'.log := by
    intro pc here going early'
    obtain ⟨-, es, log, step⟩ := step_early (here ▸ early') st
    rw [log]
    exact keep step early (upto (here ▸ going))
  cases step_cases st with
  | preRoute here => exact before here trivial id
  | acquired here => exact before here trivial id
  | postRoute here => exact before here trivial id
  | routed here => exact before here trivial id
  | joined here => exact before here trivial id
  | wrote here =>
    rw [State.toRelay] at early
    split at early
    · exact early.elim
    · exact early.elim
  | writeError _ => exact early.elim
  | relay _ => exact absurd early (not_early_onRelay _ _)
  | flushed _ => exact early.elim
  | flushedLast _ => exact absurd early (over_endRelay _).1.not_early
  | flushError _ => exact early.elim
  | flushedError _ => exact early.elim
  | copied _ => exact early.elim
  | copyError _ => exact early.elim
  | released _ _ => exact nil
  | dropped _ _ => exact nil

/-- Nothing is written to the client before the request is forwarded. -/
def Unwritten (s : State F H D) : Prop := s.pc.Early → clientBytes s.log = []

omit [Frame F] [ConnectionHook H F] in
/-- What comes in is not written to the client. -/
lemma clientBytes_inward {es : List (Event F H D)} (inward : ∀ e ∈ es, e.Inward) : clientBytes es = [] := by
  refine List.flatMap_eq_nil_iff.2 fun e mem => ?_
  have inward := inward e mem
  cases e with
  | clientWrite _ => exact inward.elim
  | errorResponse _ => exact inward.elim
  | _ => rfl

/-- No step writes to the client before that. -/
lemma step_unwritten (unwritten : Unwritten s) (st : step cfg s a = some s') : Unwritten s' := by
  refine step_upto (P := fun log => clientBytes log = []) rfl ?_ unwritten st
  intro es pc' early going none
  have inward : ∀ e ∈ es, e.Inward := by
    refine early.inward fun err pc => ?_
    rw [pc] at going
    exact going
  rw [clientBytes_append, none, clientBytes_inward inward, List.append_nil]

/-- The relay that follows the write of the request. -/
def Relay.new (cfg : Config F H) (key : Bytes) (dest : D) : Relay H D := ⟨key, dest, cfg.responseHookFactory, 0, []⟩

/-- The relay begins behind the write. -/
lemma step_wrote (parser : cfg.responseParser = true) {key : Bytes} {dest : D} (here : s.pc = .writing key dest) :
    step cfg s (.wrote (.ok ())) = some { s with pc := .relaying (.new cfg key dest) } := by
  unfold step
  rw [here]
  exact congrArg some (if_pos parser)

/-- A relay from the write on, from behind it. -/
lemma Relays.behind (parser : cfg.responseParser = true) {key : Bytes} {dest : D} (here : s.pc = .writing key dest)
    (rel : Relays cfg s items (.wrote (.ok ()) :: as) s') :
    Relays cfg { s with pc := .relaying (.new cfg key dest) } items as s' := by
  obtain ⟨run, items, wrote, cycle, isOver⟩ := rel
  cases run with
  | cons st run =>
    cases (step_wrote parser here).symm.trans st
    exact ⟨run, items, fun r mem => wrote r (.tail _ mem), fun mem => cycle (.tail _ mem), isOver⟩

/-- Behind the write every response is relayed to its end. -/
lemma Relays.exists_wrote (parser : cfg.responseParser = true) {key : Bytes} {dest : D}
    (here : s.pc = .writing key dest)
    (is : List (ParsedData F)) (err : Option RailscaleError) :
    ∃ as s', Relays cfg s (given is ++ [err.map .error]) (.wrote (.ok ()) :: as) s' := by
  obtain ⟨as, s', rel⟩ := Relays.exists cfg (s := { s with pc := .relaying (.new cfg key dest) }) rfl is err
  refine ⟨as, s', .cons (step_wrote parser here) rel.run, rel.items, fun r mem => ?_, fun mem => ?_, rel.isOver⟩
  · cases mem with
    | tail _ mem => exact rel.wrote r mem
  · cases mem with
    | tail _ mem => exact rel.cycle mem

/-- The relay is transparent to batching: a response that the parser gives item by item is relayed to its end, and
the cycle has then written its processed bytes to the client, in order, and counted them. -/
theorem relay_transparent (parser : cfg.responseParser = true) {s : State F H D}
    (run : Run (step cfg) (State.init cfg) as s) {key : Bytes} {dest : D} (here : s.pc = .writing key dest)
    (is : List (ParsedData F)) (err : Option RailscaleError) :
    (∃ bs s', Relays cfg s (given is ++ [err.map .error]) (.wrote (.ok ()) :: bs) s') ∧
      ∀ bs s', Relays cfg s (given is ++ [err.map .error]) (.wrote (.ok ()) :: bs) s' →
        clientBytes s'.log = relayed cfg is ∧
          s'.total = s.total.accumulate (s.cycle.result true (relayed cfg is).length) := by
  have unwritten : Unwritten s := run.invariant (fun _ _ _ => step_unwritten) fun _ => rfl
  have none : clientBytes s.log = [] := unwritten (here ▸ trivial)
  refine ⟨Relays.exists_wrote parser here is err, fun bs s' rel => ?_⟩
  obtain ⟨-, bytes, total⟩ := (rel.behind parser here).closes rfl
  rw [none] at bytes
  rw [Relay.new, Nat.zero_add] at total
  exact ⟨bytes, total⟩

section http

open Http

/-- A service for HTTP with a response parser and without a pool. -/
def relayConfig : Config HttpFrame HttpDeriverHook := { httpConfig with responseParser := true }

/-- A response of two items. -/
def okItems : List (ParsedData HttpFrame) :=
  [.parsed (.statusLine (Bytes.lit "HTTP/1.1 200 OK\r\n")), .passthrough (Bytes.lit "\r\nok")]

/-- It is relayed whole, also when the stream fails behind it. -/
theorem relay_transparent_ok :
    ∃ s : State HttpFrame HttpDeriverHook Nat, Run (step relayConfig) (State.init relayConfig) httpActions s ∧
      ∀ err : Option RailscaleError, ∃ bs s',
        Relays relayConfig s (given okItems ++ [err.map .error]) (.wrote (.ok ()) :: bs) s' ∧
        clientBytes s'.log = Bytes.lit "HTTP/1.1 200 OK\r\n\r\nok" ∧ s'.total.responseBytes = 21 := by
  have run : Run (step relayConfig) (State.init relayConfig) httpActions _ := .of_exec rfl
  refine ⟨_, run, fun err => ?_⟩
  obtain ⟨⟨bs, s', rel⟩, whole⟩ := relay_transparent rfl run rfl okItems err
  obtain ⟨bytes, total⟩ := whole bs s' rel
  refine ⟨bs, s', rel, bytes, ?_⟩
  rw [total]
  rfl

end http

end Service

end Railscale
