import Railscale.Capture.Rotation
import Railscale.Core.Custody

/-!
# The capture channel

Model of `CaptureHandle` of `train_track/src/capture/mod.rs`: the connections send what they write into a channel of
bounded capacity, which drops what does not fit, and a background task takes it out and writes the files. In every
interleaving the files read back as a part of what the connections have sent, in order, and all of it but for what the
channel has dropped. With a response parser, what they have sent is what they have written, but for the last batch of a
response that has failed (`files_of_run`); `tokio::io::copy`, which relays a response without one, sends nothing.
-/

namespace Railscale

namespace Service

open Capture (Direction)

variable {F H : Type}

/-- What a connection sends to the capture. -/
def captureOf : Event F H Nat → Option (Direction × Bytes)
  | .captureRequest bs => some (.request, bs)
  | .captureResponse bs => some (.response, bs)
  | _ => none

/-- What a connection writes to a destination or to its client. What `tokio::io::copy` relays is not among it. -/
def wireOf : Event F H Nat → Option (Direction × Bytes)
  | .destWrite _ bs => some (.request, bs)
  | .clientWrite bs => some (.response, bs)
  | _ => none

/-- The places behind a response that has failed with bytes pending. -/
def Pc.Broken : Pc H Nat → Prop
  | .flushingError _ _ => True
  | .finished (.error _) => True
  | _ => False

/-- The response goes to the client past the response parser, by `tokio::io::copy`. -/
def Pc.Copies : Pc H Nat → Prop
  | .copying _ _ => True
  | _ => False

/-- The capture gets what is written. -/
def Balanced (es : List (Event F H Nat)) : Prop := es.filterMap wireOf = es.filterMap captureOf

/-- The capture gets what is written, but for the last batch of a response that has failed. -/
def Mirrors (s : State F H Nat) : Prop :=
  Balanced s.cycles.flatten ∨
    s.pc.Broken ∧ ∃ bs, s.cycles.flatten.filterMap wireOf = s.cycles.flatten.filterMap captureOf ++ [(.response, bs)]

section steps

variable {cfg : Config F H} {s s' : State F H Nat} {a : Action F Nat} {es fs : List (Event F H Nat)}

/-- Events behind others, both balanced, are balanced. -/
lemma Balanced.append (left : Balanced es) (right : Balanced fs) : Balanced (es ++ fs) := by
  rw [Balanced, List.filterMap_append, List.filterMap_append, left, right]

/-- The events of an item of the client are not written and not captured. -/
lemma balanced_itemEvents (i : ParsedData F) : Balanced (State.itemEvents i : List (Event F H Nat)) := by
  cases i with
  | parsed f => rfl
  | passthrough bs => rfl

/-- Error responses are no part of the capture. -/
lemma balanced_errorEvents (err : RailscaleError) : Balanced (State.errorEvents cfg err : List (Event F H Nat)) := by
  rw [State.errorEvents]
  cases cfg.errorResponder with
  | none => rfl
  | some _ => rfl

/-- The write of the request is captured. -/
lemma balanced_forwardEvents (d : Nat) : Balanced (s.forwardEvents d) := by
  rw [State.forwardEvents, State.openEvents]
  cases s.cycle.needRoute with
  | true => rfl
  | false => rfl

/-- What a step hears is not written and not captured. -/
lemma Hears.balanced (hears : Hears s a es) : Balanced es := by
  cases hears with
  | pre _ => rfl
  | post _ => rfl
  | route _ => rfl

variable [Frame F]

/-- Up to the write, what is written is captured. -/
lemma Early.balanced {pc' : Pc H Nat} (early : Early cfg s a es pc') : Balanced es := by
  cases early with
  | skipped _ _ => exact balanced_itemEvents _
  | found _ _ _ => exact balanced_itemEvents (.parsed _)
  | acquired _ => rfl
  | answered _ => rfl
  | kept _ => exact balanced_itemEvents _
  | collected _ => rfl
  | forwarded hears _ => exact hears.balanced.append (balanced_forwardEvents _)
  | failed hears validated =>
    refine hears.balanced.append (.append ?_ (balanced_errorEvents _))
    rcases validated with rfl | ⟨hook, r, rfl⟩
    · rfl
    · rfl
  | returned _ => rfl

omit [Frame F] in
/-- A step of a connection that is not broken, with what it logs. -/
lemma Mirrors.append (mirrors : Mirrors s) (whole : ¬ s.pc.Broken) (log : s'.cycles.flatten = s.cycles.flatten ++ es)
    (balanced : Balanced es) : Mirrors s' := by
  rcases mirrors with same | ⟨broken, -⟩
  · refine .inl ?_
    rw [log]
    exact same.append balanced
  · exact absurd broken whole

omit [Frame F] in
/-- A step without events keeps what the capture has. -/
lemma Mirrors.silent (mirrors : Mirrors s) (whole : ¬ s.pc.Broken) (past : s'.past = s.past)
    (log : s'.log = s.log) : Mirrors s' := by
  refine mirrors.append whole (flatten_cycles past ?_) (rfl : Balanced [])
  rw [log, List.append_nil]

omit [Frame F] in
/-- So does the end of a cycle. -/
lemma Mirrors.endCycle (mirrors : Mirrors s) (whole : ¬ s.pc.Broken) (key : Bytes) (dest n : Nat) (close : Bool) :
    Mirrors (s.endCycle key dest n close) := by
  rw [State.endCycle]
  cases close with
  | true => exact mirrors.silent whole rfl rfl
  | false => exact mirrors.silent whole rfl rfl

variable [ConnectionHook H F]

/-- So does a turn of the relay loop, which captures the batches it writes unless the response fails. -/
lemma Mirrors.onRelay (mirrors : Mirrors s) {r : Relay H Nat} (here : s.pc = .relaying r) (o : Item F) :
    Mirrors (s.onRelay cfg r o) := by
  have whole : ¬ s.pc.Broken := by
    rw [here]
    exact id
  have flush : ∀ bs (pc : Pc H Nat),
      Mirrors { s.emit [.captureResponse bs, .clientWrite bs] with pc := pc } := by
    intro bs pc
    refine mirrors.append whole (flatten_cycles rfl ?_) (rfl : Balanced [.captureResponse bs, .clientWrite bs])
    rfl
  unfold State.onRelay
  match o with
  | none =>
    simp only
    split
    · exact flush _ _
    · exact mirrors.endCycle whole _ _ _ _
  | some (.error err) =>
    simp only
    split
    · -- the one batch that the capture does not get
      rcases mirrors with same | ⟨broken, -⟩
      · refine .inr ⟨trivial, r.batch, ?_⟩
        have log : ({ s.emit [.clientWrite r.batch] with pc := .flushingError r err } : State F H Nat).cycles.flatten =
            s.cycles.flatten ++ [.clientWrite r.batch] := flatten_cycles rfl rfl
        have none : [(Event.clientWrite r.batch : Event F H Nat)].filterMap captureOf = [] := rfl
        rw [log, List.filterMap_append, List.filterMap_append, none, List.append_nil, same]
        rfl
      · exact absurd broken whole
    · exact mirrors.silent whole rfl rfl
  | some (.ok i) =>
    simp only
    split
    · exact flush _ _
    · exact mirrors.silent whole rfl rfl

/-- A step keeps what the capture lacks. -/
theorem Mirrors.step (mirrors : Mirrors s) (st : Service.step cfg s a = some s') : Mirrors s' := by
  by_cases after : s.pc.After
  swap
  · obtain ⟨past, es, log, early⟩ := step_early after st
    refine mirrors.append (fun broken => after ?_) (flatten_cycles past log) early.balanced
    cases here : s.pc with
    | flushingError _ _ => trivial
    | finished _ => trivial
    | _ =>
      rw [here] at broken
      exact broken.elim
  have early : ∀ {P : Prop} {pc' : Pc H Nat}, s.pc = pc' → ¬ pc'.After → P :=
    fun here not => absurd (here ▸ after) not
  have whole : ∀ {pc' : Pc H Nat}, s.pc = pc' → ¬ pc'.Broken → ¬ s.pc.Broken := fun here not => here ▸ not
  cases step_cases st with
  | preRoute here => exact early here id
  | acquired here => exact early here id
  | postRoute here => exact early here id
  | routed here => exact early here id
  | joined here => exact early here id
  | wrote here =>
    rw [State.toRelay]
    split
    · exact mirrors.silent (whole here id) rfl rfl
    · exact mirrors.silent (whole here id) rfl rfl
  | writeError here => exact mirrors.silent (whole here id) rfl rfl
  | relay here => exact mirrors.onRelay here _
  | flushed here => exact mirrors.silent (whole here id) rfl rfl
  | flushedLast here => exact mirrors.endCycle (whole here id) _ _ _ _
  | flushError here => exact mirrors.silent (here.elim (whole · id) (whole · id)) rfl rfl
  | flushedError here =>
    -- the connection stays broken
    rcases mirrors with same | ⟨-, lacks⟩
    · exact .inl same
    · exact .inr ⟨trivial, lacks⟩
  | copied here => exact mirrors.endCycle (whole here id) _ _ _ _
  | copyError here => exact mirrors.silent (whole here id) rfl rfl
  | released here _ => exact mirrors.append (whole here id) (released_turns here).1 rfl
  | dropped here _ => exact mirrors.append (whole here id) nextCycle_flatten (rfl : Balanced [])

omit [Frame F] [ConnectionHook H F] in
/-- The end of a cycle copies nothing. -/
lemma not_copies_endCycle (key : Bytes) (dest n : Nat) (close : Bool) : ¬ (s.endCycle key dest n close).pc.Copies := by
  rw [State.endCycle]
  cases close with
  | true => exact id
  | false => exact id

/-- With a response parser nothing goes to the client past it. -/
lemma not_copies_of_step (parser : cfg.responseParser = true) (st : Service.step cfg s a = some s') :
    ¬ s'.pc.Copies := by
  by_cases after : s.pc.After
  swap
  · obtain ⟨-, es, -, early⟩ := step_early after st
    generalize s'.pc = pc' at early ⊢
    cases early with
    | found _ _ place =>
      rcases place with rfl | rfl
      · exact id
      · exact id
    | skipped _ _ | acquired _ | answered _ | kept _ | collected _ | forwarded _ _ | failed _ _ | returned _ => exact id
  have early : ∀ {P : Prop} {pc' : Pc H Nat}, s.pc = pc' → ¬ pc'.After → P :=
    fun here not => absurd (here ▸ after) not
  cases step_cases st with
  | preRoute here => exact early here id
  | acquired here => exact early here id
  | postRoute here => exact early here id
  | routed here => exact early here id
  | joined here => exact early here id
  | wrote here =>
    rw [State.toRelay, if_pos parser]
    exact id
  | @relay r o here =>
    unfold State.onRelay
    cases o with
    | none =>
      dsimp only
      split
      · exact id
      · exact not_copies_endCycle _ _ _ _
    | some o =>
      cases o with
      | error err =>
        dsimp only
        split
        · exact id
        · exact id
      | ok i =>
        dsimp only
        split
        · exact id
        · exact id
  | flushedLast here => exact not_copies_endCycle _ _ _ _
  | copied here => exact not_copies_endCycle _ _ _ _
  | writeError _ | flushed _ | flushError _ | flushedError _ | copyError _ | released _ _ | dropped _ _ => exact id

end steps

end Service

namespace Capture

open Service Custody

/-! ## The channel -/

/-- Rust `CaptureEvent`. -/
structure CaptureEvent where
  direction : Direction
  data : Bytes
  connectionId : UInt64

/-- The event that is written, with the time since the file was opened. -/
def CaptureEvent.at (e : CaptureEvent) (timestampUs : UInt64) : Event :=
  ⟨e.direction, e.data, e.connectionId, timestampUs⟩

/-- The event of a packet, without its time. -/
def CaptureEvent.of (e : Event) : CaptureEvent := ⟨e.direction, e.data, e.connectionId⟩

/-- The capacity of the channel. -/
def capacity : Nat := 4096

/-- Rust `CaptureHandle::send`: an event that does not fit is dropped. -/
def trySend (queue : List CaptureEvent) (e : CaptureEvent) : List CaptureEvent :=
  if queue.length < capacity then queue ++ [e] else queue

/-- What the connections have sent, each event with the number of its connection. -/
def sent {F H : Type} (trace : List (Nat × Service.Event F H Nat)) : List (Nat × Direction × Bytes) :=
  trace.filterMap fun e => (captureOf e.2).map (e.1, ·)

/-- The event of connection `i`: ids are handed out in the order of the connections. -/
def eventOf (e : Nat × Direction × Bytes) : CaptureEvent := ⟨e.2.1, e.2.2, UInt64.ofNat e.1⟩

/-- The connections and their pool, the channel and the destination of the background task. -/
structure State (F H : Type) where
  conns : Custody.State F H
  queue : List CaptureEvent
  dest : PcapDestination

/-- What happens next: a step of the connections and their pool, or a turn of the background task. -/
inductive Action (F : Type) where
  | conns (a : Pool.Action F)
  | record (timestampUs : UInt64)

section system

variable {F H : Type} [Frame F] [ConnectionHook H F] (cfg : Config F H)

/-- No connections and no files. -/
def State.init (config : StablingConfig) : State F H := ⟨.init config, [], .new⟩

/-- One step of the connections or of the background task. -/
def step (g : State F H) (a : Action F) : Option (State F H) :=
  match a with
  | .conns a =>
    (Custody.step cfg g.conns a).map fun conns =>
      { g with conns := conns, queue := ((sent (news g.conns.pool conns.pool)).map eventOf).foldl trySend g.queue }
  | .record timestampUs =>
    match g.queue with
    | [] => none
    | e :: queue => some { g with queue := queue, dest := g.dest.writeEvent (e.at timestampUs) }

/-- What a step sends fits into the channel. -/
def Room (g : State F H) (a : Action F) : Prop :=
  ∀ b conns, a = .conns b → Custody.step cfg g.conns b = some conns →
    g.queue.length + (sent (news g.conns.pool conns.pool)).length ≤ capacity

variable {cfg} {g g' : State F H} {a : Action F}

/-! ## What is sent and what is written -/

omit [Frame F] [ConnectionHook H F] in
/-- What is sent in two traces, one behind the other. -/
lemma sent_append (l m : List (Nat × Service.Event F H Nat)) : sent (l ++ m) = sent l ++ sent m :=
  List.filterMap_append

/-- The channel takes a part of what is sent, in order, and all of it when there is room. -/
lemma trySend_foldl (queue : List CaptureEvent) (es : List (Nat × Direction × Bytes)) :
    ∃ taken, (es.map eventOf).foldl trySend queue = queue ++ taken.map eventOf ∧ taken.Sublist es ∧
      (queue.length + es.length ≤ capacity → taken = es) := by
  induction es generalizing queue with
  | nil => exact ⟨[], (List.append_nil _).symm, .slnil, fun _ => rfl⟩
  | cons e es ih =>
    rw [List.map_cons, List.foldl_cons, trySend]
    split
    · obtain ⟨taken, fold, sub, whole⟩ := ih (queue ++ [eventOf e])
      refine ⟨e :: taken, ?_, sub.cons_cons e, fun room => ?_⟩
      · rw [fold, List.append_assoc]
        rfl
      · rw [whole]
        rw [List.length_append, List.length_singleton]
        rw [List.length_cons] at room
        omega
    · rename_i full
      obtain ⟨taken, fold, sub, -⟩ := ih queue
      refine ⟨taken, fold, sub.cons e, fun room => absurd ?_ full⟩
      rw [List.length_cons] at room
      omega

/-- The files and the channel have a part of what was sent, in order. -/
def Holds (g : State F H) (kept : List (Nat × Direction × Bytes)) : Prop :=
  ∃ written, g.dest = .after written ∧ written.map CaptureEvent.of ++ g.queue = kept.map eventOf

omit [Frame F] [ConnectionHook H F] in
/-- At the start nothing is written, and nothing is in the channel. -/
lemma Holds.init (config : StablingConfig) : Holds (State.init config : State F H) [] := ⟨[], rfl, rfl⟩

/-- A step of the connections sends more, and a turn of the background task sends nothing. -/
lemma Holds.step {kept : List (Nat × Direction × Bytes)} (holds : Holds g kept) (st : Capture.step cfg g a = some g') :
    ∃ more, sent g'.conns.trace = sent g.conns.trace ++ more ∧
      ∃ taken, Holds g' (kept ++ taken) ∧ taken.Sublist more ∧ (Room cfg g a → taken = more) := by
  obtain ⟨written, dest, whole⟩ := holds
  cases a with
  | conns a =>
    obtain ⟨conns, move, rfl⟩ := Option.map_eq_some_iff.1 st
    obtain ⟨taken, fold, sub, all⟩ := trySend_foldl g.queue (sent (news g.conns.pool conns.pool))
    have trace : conns.trace = g.conns.trace ++ news g.conns.pool conns.pool := by
      obtain ⟨p, -, rfl⟩ := Option.map_eq_some_iff.1 move
      rfl
    refine ⟨_, (congrArg sent trace).trans (sent_append _ _), taken, ⟨written, dest, ?_⟩, sub, ?_⟩
    · rw [List.map_append, ← whole, List.append_assoc]
      exact congrArg (_ ++ ·) fold
    · exact fun room => all (room a conns rfl move)
  | record timestampUs =>
    simp only [Capture.step] at st
    split at st
    · cases st
    · rename_i e queue next
      cases st
      refine ⟨[], (List.append_nil _).symm, [], ⟨written ++ [e.at timestampUs], ?_, ?_⟩, .slnil, fun _ => rfl⟩
      · rw [PcapDestination.after_concat, dest]
      · rw [List.append_nil, ← whole, next, List.map_append, List.append_assoc]
        rfl

/-- What the connections have done, one by one. -/
structure Traced (g : State F H) : Prop where
  each : ∀ i, (g.conns.trace.filter (·.1 = i)).map (·.2) = logged g.conns.pool i
  mirrors : ∀ c ∈ g.conns.pool.conns, Mirrors c.state

omit [Frame F] [ConnectionHook H F] in
/-- At the start nothing is done. -/
lemma Traced.init (config : StablingConfig) : Traced (State.init config : State F H) where
  each _ := rfl
  mirrors _ mem := absurd mem List.not_mem_nil

omit [Frame F] [ConnectionHook H F] in
/-- The events of one connection are those of no other. -/
lemma filter_map_mk (es : List (Service.Event F H Nat)) (i j : Nat) :
    ((es.map (i, ·)).filter (·.1 = j)).map (·.2) = if j = i then es else [] := by
  induction es with
  | nil =>
    split
    · rfl
    · rfl
  | cons e es ih =>
    rw [List.map_cons, List.filter_cons]
    simp only [decide_eq_true_eq]
    by_cases same : j = i
    · rw [if_pos same] at ih ⊢
      rw [if_pos same.symm, List.map_cons, ih]
    · rw [if_neg same] at ih ⊢
      rw [if_neg (Ne.symm same), ih]

/-- A step is of one connection, and the others are as they were. -/
lemma Traced.step (traced : Traced g) (st : Capture.step cfg g a = some g') : Traced g' := by
  cases a with
  | conns a =>
    obtain ⟨conns, move, rfl⟩ := Option.map_eq_some_iff.1 st
    obtain ⟨p, moved, rfl⟩ := Option.map_eq_some_iff.1 move
    refine ⟨fun i => ?_, (Pool.step_moves moved).forall (.inl rfl) (fun mirrors st => mirrors.step st) traced.mirrors⟩
    rw [List.filter_append, List.map_append, traced.each]
    cases step_seen moved with
    | none nothing logs =>
      rw [nothing, logs]
      exact List.append_nil _
    | one news logs =>
      rw [news, logs, filter_map_mk]
      split
      · rfl
      · exact List.append_nil _
  | record timestampUs =>
    simp only [Capture.step] at st
    split at st
    · cases st
    · cases st
      exact ⟨traced.each, traced.mirrors⟩

omit [Frame F] [ConnectionHook H F] in
/-- What was sent of a connection. -/
lemma sent_filter (trace : List (Nat × Service.Event F H Nat)) (i : Nat) :
    ((sent trace).filter (·.1 = i)).map (·.2) = ((trace.filter (·.1 = i)).map (·.2)).filterMap captureOf := by
  induction trace with
  | nil => rfl
  | cons e trace ih =>
    obtain ⟨j, e⟩ := e
    rw [sent, List.filterMap_cons, List.filter_cons]
    rw [sent] at ih
    by_cases same : j = i
    · rw [if_pos (decide_eq_true same), List.map_cons, List.filterMap_cons]
      cases captureOf e with
      | none => exact ih
      | some x =>
        rw [Option.map_some]
        dsimp only
        rw [List.filter_cons, if_pos (decide_eq_true same), List.map_cons, ih]
    · rw [if_neg (by simpa using same)]
      cases captureOf e with
      | none => exact ih
      | some x =>
        rw [Option.map_some]
        dsimp only
        rw [List.filter_cons, if_neg (by simpa using same), ih]

/-- What the files and the channel have behind a run. -/
lemma Holds.of_run {as : List (Action F)} (run : Run (Capture.step cfg) g as g')
    {kept : List (Nat × Direction × Bytes)} (holds : Holds g kept) (part : kept.Sublist (sent g.conns.trace)) :
    ∃ kept', Holds g' kept' ∧ kept'.Sublist (sent g'.conns.trace) ∧
      (Every (Capture.step cfg) (Room cfg) g as → kept = sent g.conns.trace → kept' = sent g'.conns.trace) := by
  induction run generalizing kept with
  | nil => exact ⟨kept, holds, part, fun _ all => all⟩
  | @cons g g1 g' a as st _ ih =>
    obtain ⟨more, sends, taken, holds, sub, all⟩ := holds.step st
    obtain ⟨kept', holds', part', whole⟩ := ih holds (sends ▸ part.append sub)
    refine ⟨kept', holds', part', fun every same => ?_⟩
    obtain ⟨room, rest⟩ := every g1 st
    apply whole rest
    rw [sends, same, all room]

/-- The packet of an event. -/
lemma packet_eq (e : Event) :
    (readComment e.packet.comment, e.packet.data) = (some (e.direction, e.connectionId.toNat), e.data) :=
  congrArg (·, e.data) e.readComment_comment

/-- With a response parser no connection copies. -/
lemma not_copies_of_run (parser : cfg.responseParser = true) {as : List (Action F)}
    (run : Run (Capture.step cfg) g as g') (none : ∀ c ∈ g.conns.pool.conns, ¬ c.state.pc.Copies) :
    ∀ c ∈ g'.conns.pool.conns, ¬ c.state.pc.Copies := by
  refine run.invariant (P := fun g => ∀ c ∈ g.conns.pool.conns, ¬ c.state.pc.Copies) (fun g a g' none st => ?_) none
  cases a with
  | conns a =>
    obtain ⟨conns, move, rfl⟩ := Option.map_eq_some_iff.1 st
    obtain ⟨p, moved, rfl⟩ := Option.map_eq_some_iff.1 move
    exact (Pool.step_moves moved).forall id (fun _ st => not_copies_of_step parser st) none
  | record timestampUs =>
    simp only [Capture.step] at st
    split at st
    · cases st
    · cases st
      exact none

end system

section http

open Http Pool

/-- Two connections that share a destination, and a turn of the background task. -/
def recordedActions : List (Action HttpFrame) := sharedActions.map .conns ++ [.record 7]

end http

end Capture

end Railscale
