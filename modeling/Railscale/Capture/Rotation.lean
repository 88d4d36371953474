import Railscale.Capture.Pcap

/-!
# Rotation of the capture files

`write_event` closes a file behind the first response that comes after ten requests, whosever response it is. The
events of one exchange end up in one file exactly when no such response lies between them (`together_iff_apart`).
-/

namespace Railscale

namespace Capture

open Bytes

namespace PcapDestination

/-- The destination behind some events. -/
def after (events : List Event) : PcapDestination := events.foldl PcapDestination.writeEvent new

/-- The number of the file that the event behind these ones is written to. -/
def fileIndex (before : List Event) : Nat := (after before).closed.length

/-- One more event is written behind the others. -/
lemma after_concat (events : List Event) (e : Event) : after (events ++ [e]) = (after events).writeEvent e := by
  rw [after, List.foldl_append]
  rfl

/-- A request is counted and a response may close the file. -/
lemma writeEvent_request {p : PcapDestination} {e : Event} (request : e.direction = .request) :
    p.writeEvent e = ⟨p.closed, some (p.openFile ++ e.write), p.requestCount + 1⟩ := by
  simp [writeEvent, request]

/-- A response is written to the open file, which is closed behind ten requests. -/
lemma writeEvent_response {p : PcapDestination} {e : Event} (response : e.direction = .response) :
    p.writeEvent e =
      if p.requestCount ≥ 10 then ⟨p.closed ++ [p.openFile ++ e.write], none, 0⟩
      else ⟨p.closed, some (p.openFile ++ e.write), p.requestCount⟩ := by
  simp [writeEvent, response]

/-- An event is written to the end of the file with its number. -/
lemma files_writeEvent (p : PcapDestination) (e : Event) :
    (p.writeEvent e).files[p.closed.length]? = some (p.openFile ++ e.write) := by
  cases dir : e.direction with
  | request =>
    rw [writeEvent_request dir]
    simp [files]
  | response =>
    rw [writeEvent_response dir]
    split
    · simp [files]
    · simp [files]

/-- The event is a response with the connection of the request, which no other request on it comes between. -/
structure Answers (req : Event) (between : List Event) (resp : Event) : Prop where
  request : req.direction = .request
  response : resp.direction = .response
  connection : resp.connectionId = req.connectionId
  latest : ∀ e ∈ between, e.direction = .request → e.connectionId ≠ req.connectionId

/-- Every response is written to the file of the latest request on its connection. -/
def Together (events : List Event) : Prop :=
  ∀ before req between resp rest, events = before ++ req :: between ++ resp :: rest → Answers req between resp →
    fileIndex (before ++ req :: between) = fileIndex before

/-- Every response comes behind a request on its connection. -/
def Requested (events : List Event) : Prop :=
  ∀ before resp rest, events = before ++ resp :: rest → resp.direction = .response →
    ∃ req ∈ before, req.direction = .request ∧ req.connectionId = resp.connectionId

/-- The requests that are counted towards the next rotation: a response that comes behind ten of them is where the
count begins again. Like the counter of the destination, it wraps at `2 ^ 32`. -/
def counted (events : List Event) : UInt32 :=
  events.foldl (fun n e =>
    match e.direction with
    | .request => n + 1
    | .response => if n ≥ 10 then 0 else n) 0

/-- The event is a response that comes behind ten requests. -/
def Rotates (before : List Event) (e : Event) : Prop := e.direction = .response ∧ counted before ≥ 10

/-- No response that comes behind ten requests lies between a request and a response to it. -/
def Apart (events : List Event) : Prop :=
  ∀ before req between resp rest, events = before ++ req :: between ++ resp :: rest → Answers req between resp →
    ∀ mid e mid', between = mid ++ e :: mid' → ¬ Rotates (before ++ req :: mid) e

/-! ## One event -/

/-- A request counts, and a response behind ten of them begins anew. -/
lemma counted_concat (events : List Event) (e : Event) :
    counted (events ++ [e]) =
      match e.direction with
      | .request => counted events + 1
      | .response => if counted events ≥ 10 then 0 else counted events := by
  rw [counted, List.foldl_append]
  rfl

/-- The destination counts the requests as `counted` does. -/
lemma requestCount_after (events : List Event) : (after events).requestCount = counted events := by
  induction events using List.reverseRecOn with
  | nil => rfl
  | append_singleton events e ih =>
    rw [after_concat, counted_concat]
    cases dir : e.direction with
    | request =>
      rw [writeEvent_request dir]
      exact congrArg (· + 1) ih
    | response =>
      rw [writeEvent_response dir, ih]
      dsimp only
      split
      · rfl
      · rfl

/-- A file is closed behind a response that comes behind ten requests. -/
lemma fileIndex_rotates {events : List Event} {e : Event} (rotates : Rotates events e) :
    fileIndex (events ++ [e]) = fileIndex events + 1 := by
  rw [fileIndex, after_concat, writeEvent_response rotates.1, requestCount_after, if_pos rotates.2]
  exact List.length_append

/-- An event that is no such response keeps its file open. -/
lemma fileIndex_stays {events : List Event} {e : Event} (stays : ¬ Rotates events e) :
    fileIndex (events ++ [e]) = fileIndex events := by
  rw [fileIndex, after_concat]
  cases dir : e.direction with
  | request =>
    rw [writeEvent_request dir]
    rfl
  | response =>
    have few : ¬ counted events ≥ 10 := fun full => stays ⟨dir, full⟩
    rw [writeEvent_response dir, requestCount_after, if_neg few]
    rfl

/-! ## Event after event -/

/-- Files are numbered upwards. -/
lemma fileIndex_le (before more : List Event) : fileIndex before ≤ fileIndex (before ++ more) := by
  induction more using List.reverseRecOn with
  | nil => rw [List.append_nil]
  | append_singleton more e ih =>
    rw [← List.append_assoc]
    by_cases rotates : Rotates (before ++ more) e
    · rw [fileIndex_rotates rotates]
      exact Nat.le_succ_of_le ih
    · rw [fileIndex_stays rotates]
      exact ih

/-- The file is the same exactly when none of the events in between has closed it. -/
lemma fileIndex_eq_iff (before more : List Event) :
    fileIndex (before ++ more) = fileIndex before ↔
      ∀ mid e mid', more = mid ++ e :: mid' → ¬ Rotates (before ++ mid) e := by
  constructor
  · rintro same mid e mid' rfl rotates
    have closed := fileIndex_le (before ++ mid ++ [e]) mid'
    have first := fileIndex_le before mid
    rw [fileIndex_rotates rotates] at closed
    simp only [List.append_assoc, List.singleton_append] at closed
    rw [same] at closed
    omega
  · induction more using List.reverseRecOn with
    | nil =>
      intro _
      rw [List.append_nil]
    | append_singleton more e ih =>
      intro none
      have last : ¬ Rotates (before ++ more) e := none more e [] rfl
      have earlier : fileIndex (before ++ more) = fileIndex before := by
        apply ih
        rintro mid e' mid' rfl
        exact none mid e' (mid' ++ [e]) (by rw [List.append_assoc, List.cons_append])
      rw [← List.append_assoc, fileIndex_stays last, earlier]

/-- Rotation keeps every response with its request exactly when no response that comes behind ten requests lies
between the two. -/
theorem together_iff_apart (events : List Event) : Together events ↔ Apart events := by
  refine forall_congr' fun before => forall_congr' fun req => forall_congr' fun between => forall_congr' fun resp =>
    forall_congr' fun rest => imp_congr_right fun _ => imp_congr_right fun answers => ?_
  -- the request itself closes nothing
  have opens : ¬ Rotates before req := by
    intro rotates
    rw [Rotates, answers.request] at rotates
    exact nomatch rotates.1
  have split := fileIndex_eq_iff (before ++ [req]) between
  rw [fileIndex_stays opens] at split
  simp only [List.append_assoc, List.singleton_append] at split
  exact split

/-- Nine requests that wait for their responses. -/
def nineRequests : List Event := (List.range 9).map fun n => ⟨.request, [], UInt64.ofNat (n + 1), 0⟩

/-- An event on connection zero. -/
def onZero (direction : Direction) : Event := ⟨direction, [], 0, 0⟩

/-- A tenth request whose response comes in two batches: the second one is written to another file. -/
theorem not_together_batches : ¬ ∀ events, Requested events → Together events := by
  intro all
  have requests : ∀ e ∈ nineRequests, e.direction = .request := by
    intro e mem
    obtain ⟨n, -, rfl⟩ := List.mem_map.1 mem
    rfl
  have requested : Requested (nineRequests ++ [onZero .request, onZero .response, onZero .response]) := by
    intro before resp rest cut response
    rcases List.append_eq_append_iff.1 cut with ⟨more, rfl, tail⟩ | ⟨more, nine, tail⟩
    · -- the response is behind the nine, hence behind the tenth
      cases more with
      | nil =>
        cases tail
        cases response
      | cons e more =>
        obtain ⟨rfl, batches⟩ := List.cons.inj tail
        have mem : resp ∈ [onZero .response, onZero .response] := by
          rw [batches]
          exact List.mem_append_right _ List.mem_cons_self
        refine ⟨onZero .request, List.mem_append_right _ List.mem_cons_self, rfl, ?_⟩
        simp only [List.mem_cons, List.not_mem_nil, or_false, or_self] at mem
        rw [mem]
        rfl
    · cases more with
      | nil =>
        cases tail
        cases response
      | cons e more =>
        obtain ⟨rfl, -⟩ := List.cons.inj tail
        rw [requests resp (nine ▸ List.mem_append_right _ List.mem_cons_self)] at response
        cases response
  have answers : Answers (onZero .request) [onZero .response] (onZero .response) := by
    refine ⟨rfl, rfl, rfl, fun e mem request => ?_⟩
    rw [List.mem_singleton.1 mem] at request
    cases request
  have same := all _ requested nineRequests _ _ _ [] rfl answers
  have rotates : Rotates (nineRequests ++ [onZero .request]) (onZero .response) := ⟨rfl, by decide⟩
  have opens : ¬ Rotates nineRequests (onZero .request) := nofun
  have next := fileIndex_rotates rotates
  rw [fileIndex_stays opens, List.append_assoc, List.singleton_append, same] at next
  exact absurd next (Nat.ne_of_lt (Nat.lt_succ_self _))

end PcapDestination

end Capture

end Railscale
