import Railscale.Core.Phases
import Railscale.Http.Proxy

/-!
# The answer to an error

Model of `carriage/src/http/error.rs`, and of `ErrorToBytes` of `train_track/src/core/error_mapper.rs`. The responder
writes a whole response as one frame, with a text and a reason for each kind of error. A client that parses it as the
proxy parses its own upstreams gets one response, complete, that asks for the close: in every run that ends before the
request was written, it gets this and nothing else of that cycle (`told_of_run`).
-/

namespace Railscale

/-- Rust `ErrorToBytes::error_bytes` of an `ErrorToFrames`. -/
def errorBytes {F : Type} [Frame F] (errorFrames : RailscaleError → List F) (err : RailscaleError) : Bytes :=
  (errorFrames err).flatMap fun f => Frame.asBytes f

namespace Http

open Bytes AsyncStream ReadResult Service

namespace HttpErrorResponder

/-- Rust `status_for_error`. -/
def statusForError (err : RailscaleError) : Nat × String :=
  match err.kind with
  | .parse _ => (400, "Bad Request")
  | .routingFailed _ => (502, "Bad Gateway")
  | .connectionClosed => (499, "Client Closed")
  | .noRoutingFrame => (400, "Bad Request")
  | .bufferLimitExceeded => (413, "Payload Too Large")
  | .io _ => (502, "Bad Gateway")

/-- The body of the response. -/
def body (status : Nat × String) : Bytes := lit s!"{status.1} {status.2}\r\n"

/-- Rust `HttpErrorResponder::error_frames`. -/
def errorFrames (err : RailscaleError) : List HttpFrame :=
  let (code, reason) := statusForError err
  let body := body (code, reason)
  let statusLine := lit s!"HTTP/1.1 {code} {reason}\r\n"
  let headers := lit s!"Content-Type: text/plain\r\nContent-Length: {body.length}\r\nConnection: close\r\n\r\n"
  [.header (statusLine ++ headers ++ body)]

/-- The statuses of the responses. -/
def statuses : List (Nat × String) :=
  [(400, "Bad Request"), (502, "Bad Gateway"), (499, "Client Closed"), (413, "Payload Too Large")]

/-- The status of an error is one of those. -/
lemma statusForError_mem (err : RailscaleError) : statusForError err ∈ statuses := by
  rw [statusForError]
  cases err.kind with
  | parse _ => exact List.mem_cons_self
  | routingFailed _ => exact .tail _ List.mem_cons_self
  | connectionClosed => exact .tail _ (.tail _ List.mem_cons_self)
  | noRoutingFrame => exact List.mem_cons_self
  | bufferLimitExceeded => exact .tail _ (.tail _ (.tail _ List.mem_cons_self))
  | io _ => exact .tail _ List.mem_cons_self

/-- The lines of the head. -/
def lines (status : Nat × String) : List Bytes :=
  [lit s!"HTTP/1.1 {status.1} {status.2}", lit "Content-Type: text/plain",
    lit s!"Content-Length: {(body status).length}", lit "Connection: close"]

/-- The response with a status is well-formed, as long as its head says, and asks for the close. -/
structure WellFormed (status : Nat × String) : Prop where
  line : ∀ l ∈ lines status, l ≠ [] ∧ NoCrlf l
  noFold : ∀ l ∈ (lines status).tail, ¬ HttpStreamingCodec.IsFold l
  framing : framingOf (lines status) = .fixed (body status).length
  closes : ((ResponseCodec.headFrames (lines status)).foldl HttpDeriverHook.onFrame .new).shouldCloseConnection = true

/-- Each of them makes a well-formed status line. -/
lemma wellFormed_statuses : ∀ status ∈ statuses, WellFormed status := by
  have line : ∀ status ∈ statuses, ∀ l ∈ lines status, l ≠ [] ∧ NoCrlf l := by decide +kernel
  have noFold : ∀ status ∈ statuses, ∀ l ∈ (lines status).tail, ¬ HttpStreamingCodec.IsFold l := by decide +kernel
  have framing : ∀ status ∈ statuses, framingOf (lines status) = .fixed (body status).length := by decide +kernel
  have closes : ∀ status ∈ statuses,
      ((ResponseCodec.headFrames (lines status)).foldl HttpDeriverHook.onFrame .new).shouldCloseConnection = true := by
    decide +kernel
  intro status mem
  exact ⟨line status mem, noFold status mem, framing status mem, closes status mem⟩

/-- The one frame is the head and the body. -/
lemma errorBytes_eq (err : RailscaleError) :
    errorBytes errorFrames err =
      unlines (lines (statusForError err)) ++ crlf ++ body (statusForError err) := by
  have one : ∀ status ∈ statuses,
      lit s!"HTTP/1.1 {status.1} {status.2}\r\n" ++
          lit s!"Content-Type: text/plain\r\nContent-Length: {(body status).length}\r\nConnection: close\r\n\r\n" ++
          body status =
        unlines (lines status) ++ crlf ++ body status := by
    decide +kernel
  have same := one _ (statusForError_mem err)
  rw [← same]
  exact List.append_nil _

/-- The response to an error. -/
def reply (err : RailscaleError) : Reply where
  lines := lines (statusForError err)
  body := body (statusForError err)
  lines_ok :=
    ⟨fun l mem => ⟨((wellFormed_statuses _ (statusForError_mem err)).line l mem).1,
      ((wellFormed_statuses _ (statusForError_mem err)).line l mem).2⟩,
      (wellFormed_statuses _ (statusForError_mem err)).noFold⟩
  body_ok := by
    rw [(wellFormed_statuses _ (statusForError_mem err)).framing]
    exact .fixed rfl

/-- The hook that sees it asks for the close. -/
lemma reply_closes (err : RailscaleError) :
    ((reply err).frames.foldl HttpDeriverHook.onFrame .new).shouldCloseConnection = true := by
  rw [Reply.frames, List.foldl_append]
  exact (wellFormed_statuses _ (statusForError_mem err)).closes

/-- A request fails before it is written. However the bytes that the client gets for it are cut, `ResponseParser` makes
of them the frames and the body of one response, is done with it, and the hook behind it closes the connection. -/
theorem told_of_run {F H D : Type} [Frame F] [ConnectionHook H F] {cfg : Config F H}
    (responder : cfg.errorResponder = some (errorBytes errorFrames)) {as : List (Action F D)} {s : State F H D}
    {err : RailscaleError} (run : Run (Service.step cfg) (State.init cfg) as s) (pc : s.pc = .finished (.error err))
    (unwritten : writes s.log = []) {reads : List (ReadResult IoError)} (proper : ∀ r ∈ reads, r.Proper)
    (heard : clientBytes s.log <+: all reads) :
    ∃ is s', Collect (ResponseParser.parse reads) is none s' ∧ s'.done = true ∧
      is.flatMap ResponseFrameStream.itemAtoms = (reply err).frames.map .inl ++ (body (statusForError err)).map .inr ∧
      ((frames is).foldl HttpDeriverHook.onFrame .new).shouldCloseConnection = true := by
  have told : clientBytes s.log = (reply err).bytes := by
    have reached := reached_of_run run pc unwritten
    rw [reached.alone rfl, responder]
    exact (List.append_nil _).trans (errorBytes_eq err)
  rw [told] at heard
  obtain ⟨is, s', coll, done, same⟩ := (⟨proper, heard⟩ : (reply err).AnsweredBy reads).collect
  refine ⟨is, s', coll, done, same, ?_⟩
  have seen : frames is = (reply err).frames := by
    rw [Dialogue.frames_of_itemAtoms, same, Reply.atoms, List.filterMap_append, List.filterMap_map, List.filterMap_map]
    have left : Sum.getLeft? ∘ (Sum.inl : HttpFrame → HttpFrame ⊕ UInt8) = some := rfl
    have right : (reply err).body.filterMap (Sum.getLeft? ∘ (Sum.inr : UInt8 → HttpFrame ⊕ UInt8)) = [] :=
      List.filterMap_eq_nil_iff.2 fun _ _ => rfl
    rw [left, right, List.filterMap_some, List.append_nil]
  rw [seen]
  exact reply_closes err

/-- A service for HTTP that answers errors with such a response. -/
def respondingConfig : Config HttpFrame HttpDeriverHook :=
  { httpConfig with errorResponder := some (errorBytes errorFrames) }

/-- No destination is found for a request. -/
def unroutedActions : List (Action HttpFrame Nat) :=
  [.clientItem (some (.ok (.parsed (.requestLine (lit "GET / HTTP/1.1\r\n"))))), .clientItem none,
    .routed (.error (.ofKind (.routingFailed "no matching route")))]

/-- The client gets the response in two reads. -/
def refusedReads : List (ReadResult IoError) :=
  [.data (lit "HTTP/1.1 502 Bad Gateway\r\nContent-Type: text/plain\r\nCon"), .pending,
    .data (lit "tent-Length: 17\r\nConnection: close\r\n\r\n502 Bad Gateway\r\n")]

/-- The response of a run whose router fails, cut into two reads. -/
theorem told_of_run_unrouted :
    ∃ s : State HttpFrame HttpDeriverHook Nat,
      Run (step respondingConfig) (State.init respondingConfig) unroutedActions s ∧
      ∃ is s', Collect (ResponseParser.parse refusedReads) is none s' ∧ s'.done = true ∧
        ((frames is).foldl HttpDeriverHook.onFrame .new).shouldCloseConnection = true := by
  have run : Run (step respondingConfig) (State.init respondingConfig) unroutedActions _ := .of_exec rfl
  have proper : ∀ r ∈ refusedReads, r.Proper := by decide
  obtain ⟨is, s', coll, done, -, closes⟩ := told_of_run rfl run rfl rfl proper ⟨[], by decide +kernel⟩
  exact ⟨_, run, is, s', coll, done, closes⟩

end HttpErrorResponder

end Http

end Railscale
