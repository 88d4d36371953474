import Railscale.Core.Relay
import Railscale.Lib.Batch

/-!
# What the capture records

`do_connection` sends every batch of a response to the capture before it writes the batch to the client, but for the
one that it writes when the response stream fails. So the capture has what the client got unless the stream fails with
bytes pending, and when that is depends on the sizes of the items alone (`captured_iff`).
-/

namespace Railscale

namespace Service

variable {F H D : Type}

open Batch

/-- The data of the `Response` events of the capture. -/
def captured (log : List (Event F H D)) : Bytes :=
  log.flatMap fun
    | .captureResponse bs => bs
    | _ => []

/-- What was captured in two logs, one behind the other. -/
@[simp] lemma captured_append (l m : List (Event F H D)) : captured (l ++ m) = captured l ++ captured m :=
  List.flatMap_append

/-- A flush captures its batch. -/
lemma captured_flush (bs : Bytes) : captured ([.captureResponse bs, .clientWrite bs] : List (Event F H D)) = bs :=
  List.append_nil bs

/-- A flush writes its batch. -/
lemma clientBytes_flush (bs : Bytes) : clientBytes ([.captureResponse bs, .clientWrite bs] : List (Event F H D)) = bs :=
  List.append_nil bs

variable [Frame F]

/-- What the items of a response are written as. -/
def outputs (cfg : Config F H) (is : List (ParsedData F)) : List Bytes :=
  is.map (·.output (cfg.responsePipeline.getD id))

/-! ## The start of a cycle -/

section start

variable {cfg : Config F H} {s s' : State F H D} {a : Action F D}

omit [Frame F] in
/-- The capture gets no response before the write. -/
lemma captured_forwardEvents (d : D) : captured (s.forwardEvents d) = [] := by
  rw [State.forwardEvents, State.openEvents]
  split
  · rfl
  · rfl

omit [Frame F] in
/-- What a step hears is not captured. -/
lemma Hears.captured {es : List (Event F H D)} (hears : Hears s a es) : captured es = [] := by
  cases hears with
  | pre _ => rfl
  | post _ => rfl
  | route _ => rfl

omit [Frame F] in
/-- An item of the client is not captured as a response. -/
lemma captured_itemEvents (i : ParsedData F) : captured (State.itemEvents i : List (Event F H D)) = [] := by
  cases i with
  | parsed f => rfl
  | passthrough bs => rfl

/-- Up to the write no response is captured. -/
lemma Early.captured {es : List (Event F H D)} {pc' : Pc H D} (early : Early cfg s a es pc') (going : pc'.Early) :
    captured es = [] := by
  cases early with
  | skipped _ _ => exact captured_itemEvents _
  | found _ _ _ => exact captured_itemEvents (.parsed _)
  | acquired _ => rfl
  | answered _ => rfl
  | kept _ => exact captured_itemEvents _
  | collected _ => rfl
  | forwarded hears _ => rw [captured_append, hears.captured, captured_forwardEvents, List.append_nil]
  | failed _ _ => exact going.elim
  | returned _ => exact going.elim

variable [ConnectionHook H F]

/-- The capture gets no response before the request is forwarded. -/
def Unrecorded (s : State F H D) : Prop := s.pc.Early → captured s.log = []

/-- Every step captures no response before that. -/
lemma step_unrecorded (unrecorded : Unrecorded s) (st : step cfg s a = some s') : Unrecorded s' := by
  refine step_upto (P := fun log => Service.captured log = []) rfl ?_ unrecorded st
  intro es pc' early going none
  rw [captured_append, none, early.captured going, List.append_nil]

end start

/-! ## Turn after turn -/

section turns

variable [ConnectionHook H F] {s s' : State F H D}

/-- An item joins what is pending, and what is flushed then is captured. -/
lemma onRelay_recorded (cfg : Config F H) (s : State F H D) (r : Relay H D) (i : ParsedData F) :
    ∃ s1 r1, s1.pc = .relaying r1 ∧
      (s.onRelay cfg r (some (.ok i)) = s1 ∨ Flushes (s.onRelay cfg r (some (.ok i))) s1) ∧
      (captured s.log = clientBytes s.log → captured s1.log = clientBytes s1.log) ∧
      ∀ is, pending 32768 r.batch (outputs cfg (i :: is)) = pending 32768 r1.batch (outputs cfg is) := by
  unfold State.onRelay
  dsimp only
  split
  · rename_i excess
    refine ⟨_, _, rfl, .inr (.more rfl), fun same => ?_, fun is => ?_⟩
    · rw [State.emit_log, captured_append, clientBytes_append, same, captured_flush, clientBytes_flush]
    · rw [outputs, List.map_cons, pending, if_pos excess]
      rfl
  · rename_i within
    refine ⟨_, _, rfl, .inl rfl, id, fun is => ?_⟩
    rw [outputs, List.map_cons, pending, if_neg within]
    rfl

/-- What is written at the end is captured unless the stream fails. -/
lemma onRelay_unrecorded (cfg : Config F H) (s : State F H D) (r : Relay H D) (err : Option RailscaleError) :
    ∃ s1, s1.pc.Over ∧ (s.onRelay cfg r (err.map .error) = s1 ∨ Flushes (s.onRelay cfg r (err.map .error)) s1) ∧
      (captured s.log = clientBytes s.log →
        clientBytes s1.log = captured s1.log ++ if err.isSome then r.batch else []) := by
  unfold State.onRelay
  cases err with
  | none =>
    dsimp only [Option.map_none]
    split
    · refine ⟨_, (over_endRelay r).1, .inr (.last rfl), fun same => ?_⟩
      rw [(over_endRelay r).2, State.emit_log, captured_append, clientBytes_append, same, captured_flush,
        clientBytes_flush]
      exact (List.append_nil _).symm
    · refine ⟨_, (over_endRelay r).1, .inl rfl, fun same => ?_⟩
      rw [(over_endRelay r).2, same]
      exact (List.append_nil _).symm
  | some err =>
    dsimp only [Option.map_some]
    split
    · refine ⟨_, ?_, .inr (.error rfl), fun same => ?_⟩
      · trivial
      · rw [State.finish, State.emit_log, captured_append, clientBytes_append, same]
        simp [captured, clientBytes]
    · rename_i empty
      refine ⟨_, ?_, .inl rfl, fun same => ?_⟩
      · trivial
      · rw [State.finish, same, List.eq_nil_of_length_eq_zero (Nat.eq_zero_of_not_pos empty)]
        exact (List.append_nil _).symm

/-- What the capture lacks of a response that is relayed from here on: what is pending when the stream fails. -/
lemma Relays.lacks {cfg : Config F H} {as : List (Action F D)} {r : Relay H D} {is : List (ParsedData F)}
    {err : Option RailscaleError} (here : s.pc = .relaying r) (same : captured s.log = clientBytes s.log)
    (rel : Relays cfg s (given is ++ [err.map .error]) as s') :
    clientBytes s'.log = captured s'.log ++ if err.isSome then pending 32768 r.batch (outputs cfg is) else [] := by
  refine Relays.turns (P := fun s r is => captured s.log = clientBytes s.log →
    clientBytes s'.log = captured s'.log ++ if err.isSome then pending 32768 r.batch (outputs cfg is) else [])
    ?_ ?_ here rel same
  · intro s r
    obtain ⟨s1, isOver, next, lacks⟩ := onRelay_unrecorded cfg s r err
    refine ⟨s1, isOver, next, ?_⟩
    rintro rfl
    exact lacks
  · intro s r i is
    obtain ⟨s1, r1, here1, next, same1, rest⟩ := onRelay_recorded cfg s r i
    refine ⟨s1, r1, here1, next, fun lacks same => ?_⟩
    rw [rest]
    exact lacks (same1 same)

/-- The capture records what the client got exactly when the response ends well, or its items before the failure are
batches that grow over 32768 bytes with their last item: then nothing is pending. -/
theorem captured_iff {cfg : Config F H} (parser : cfg.responseParser = true) {as : List (Action F D)} {s : State F H D}
    (run : Run (step cfg) (State.init cfg) as s) {key : Bytes} {dest : D} (here : s.pc = .writing key dest)
    (is : List (ParsedData F)) (err : Option RailscaleError) :
    (∃ bs s', Relays cfg s (given is ++ [err.map .error]) (.wrote (.ok ()) :: bs) s') ∧
      ∀ bs s', Relays cfg s (given is ++ [err.map .error]) (.wrote (.ok ()) :: bs) s' →
        (captured s'.log = clientBytes s'.log ↔ err = none ∨ Batched 32768 (outputs cfg is)) := by
  have unwritten : Unwritten s := run.invariant (fun _ _ _ => step_unwritten) fun _ => rfl
  have unrecorded : Unrecorded s := run.invariant (fun _ _ _ => step_unrecorded) fun _ => rfl
  have same : captured s.log = clientBytes s.log := by
    rw [unwritten (here ▸ trivial), unrecorded (here ▸ trivial)]
  refine ⟨Relays.exists_wrote parser here is err, fun bs s' rel => ?_⟩
  have lacks := Relays.lacks (s := { s with pc := .relaying (.new cfg key dest) }) rfl same (rel.behind parser here)
  rw [lacks, List.self_eq_append_right]
  cases err with
  | none => exact iff_of_true rfl (.inl rfl)
  | some err =>
    rw [← pending_eq_nil_iff]
    constructor
    · intro nothing
      exact .inr nothing
    · intro nothing
      exact nothing.resolve_left nofun

end turns

section http

open Http

/-- A response that ends well is captured. -/
theorem captured_iff_ok :
    ∃ s : State HttpFrame HttpDeriverHook Nat, Run (step relayConfig) (State.init relayConfig) httpActions s ∧
      ∃ bs s', Relays relayConfig s (given okItems ++ [none]) (.wrote (.ok ()) :: bs) s' ∧
        captured s'.log = clientBytes s'.log := by
  have run : Run (step relayConfig) (State.init relayConfig) httpActions _ := .of_exec rfl
  refine ⟨_, run, ?_⟩
  obtain ⟨⟨bs, s', rel⟩, exact⟩ := captured_iff rfl run rfl okItems none
  exact ⟨bs, s', rel, (exact bs s' rel).2 (.inl rfl)⟩

/-- The response of a server that folds the first header line: the status line, and the error of the parser. -/
def foldedItems : List (Item HttpFrame) :=
  [some (.ok (.parsed (.statusLine (Bytes.lit "HTTP/1.1 200 OK\r\n")))),
    some (.error ⟨.io ⟨.invalidData, "obs-fold in response header (RFC 9112 §5.2)"⟩, none⟩)]

/-- The client gets the status line, and the capture does not. -/
theorem not_captured_folded :
    ∃ s : State HttpFrame HttpDeriverHook Nat, Run (step relayConfig) (State.init relayConfig) httpActions s ∧
      ∃ bs s', Relays relayConfig s foldedItems (.wrote (.ok ()) :: bs) s' ∧
        clientBytes s'.log = Bytes.lit "HTTP/1.1 200 OK\r\n" ∧ captured s'.log ≠ clientBytes s'.log := by
  have run : Run (step relayConfig) (State.init relayConfig) httpActions _ := .of_exec rfl
  refine ⟨_, run, foldedItems.map .responseItem ++ [.clientWrote (.ok ())], _, ⟨.of_exec rfl, rfl, ?_, ?_, ?_⟩,
    ?_, ?_⟩
  · simp [foldedItems]
  · simp [foldedItems]
  · trivial
  · decide +kernel
  · decide +kernel

end http

end Service

end Railscale
