import Railscale.Core.Feed
import Railscale.Tls.Matching
import Railscale.Tls.Parser

/-!
# TLS passthrough

Model of `trezorcarriage/src/pipeline.rs` and of the service that `ForwardTls::run` of `coupler/src/flow/tls.rs` sets
up: `TlsParser` on the client's side, the identity as its pipeline, no hook and no response parser. A client is
forwarded as a whole: up to the end of its stream nothing is written to the destination, and then all complete records
at once (`forwards_of_run`). A destination that has to answer a ClientHello before its client goes on never sees it.
-/

namespace Railscale.Tls

open AsyncStream ReadResult Service

/-- Rust `TlsPassthroughPipeline::<Passthrough>::process`. -/
def TlsPassthroughPipeline.process (frame : TlsEncryptedFrame) : TlsEncryptedFrame := frame

/-- What `ForwardTls::run` calls `do_connection` with. -/
def ForwardTls.config (bufferLimits : BufferLimits) : Config TlsEncryptedFrame (NoHook TlsEncryptedFrame) where
  process := TlsPassthroughPipeline.process
  hookFactory := .mk
  bufferLimits := bufferLimits

/-! ## What the parser gives -/

namespace TlsStream

/-- A stream that has returned is over. -/
lemma dry_returned (reads : List (ReadResult IoError)) : Dry (⟨.returned, reads⟩ : TlsStream) := .of_stays rfl

/-- A poll that gives the end has returned. -/
lemma returned_of_poll {s s' : TlsStream} (poll : s.poll = (.ready none, s')) : s'.point = .returned := by
  have payload : ∀ {t b n d rs}, pollPayload t b n d rs ≠ (.ready none, s') := by
    intro t b n d rs same
    rw [pollPayload] at same
    split at same
    · cases same
    · cases same
    · cases same
    · cases same
  have header : ∀ {b rs}, onHeader b rs ≠ (.ready none, s') := by
    intro b rs same
    simp only [onHeader] at same
    split at same
    · cases same
    · split at same
      · cases same
      · exact payload same
  rw [TlsStream.poll] at poll
  split at poll
  · rw [pollHeader] at poll
    split at poll
    · cases poll
    · cases poll
    · split at poll
      · cases poll
        rfl
      · cases poll
    · exact absurd poll header
  · exact absurd poll payload
  · rename_i returned
    cases poll
    exact returned

/-- A stream that gives its end is over then. -/
lemma dry_of_next {s s' : TlsStream} {o : Option TlsItem} (next : Next s o s') (none : o = none) : Dry s' := by
  induction next with
  | @ready s o s' poll =>
    subst none
    have returned := returned_of_poll poll
    obtain ⟨point, reads⟩ := s'
    cases returned
    exact dry_returned reads
  | pending _ _ ih => exact ih none

/-- A stream that has given its items is over. -/
lemma dry_of_yields {s s' : TlsStream} {is : List TlsItem} (yields : Yields s is s') : Dry s' := by
  induction yields with
  | none next => exact dry_of_next next rfl
  | item _ _ ih => exact ih

/-- The stream gives the records at the front of its transport, and then maybe an error. -/
lemma gives_of_splits {reads : List (ReadResult IoError)} (proper : ∀ r ∈ reads, r.Proper) {rs : List TlsRecord}
    {o : Option IoError} (splits : Splits (all reads) rs o) :
    Gives (TlsParser.parse reads)
      (Proxy.items (rs.map fun r => .parsed r.frame) ++ o.toList.map fun e => some (.error e)) := by
  obtain ⟨s', yields⟩ := yields_of_splits splits proper rfl
  have gives := Gives.of_yields yields (dry_of_yields yields)
  rw [items, List.map_append, List.map_map, List.map_map] at gives
  rw [Proxy.items, List.map_map]
  exact gives

end TlsStream

/-! ## What is forwarded -/

/-- The pipeline leaves the records as they are. -/
lemma output_records (bufferLimits : BufferLimits) (rs : List TlsRecord) :
    (rs.map fun r => ParsedData.parsed r.frame).flatMap (·.output (ForwardTls.config bufferLimits).process) =
      rs.flatMap TlsRecord.encode := by
  rw [List.flatMap_map]
  rfl

/-- The frames of some records. -/
lemma frames_records (rs : List TlsRecord) :
    frames (rs.map fun r => ParsedData.parsed r.frame) = rs.map TlsRecord.frame := by
  induction rs with
  | nil => rfl
  | cons r rs ih => exact congrArg (r.frame :: ·) ih

/-- The raw length of some records is that of their bytes. -/
lemma rawLength_records (rs : List TlsRecord) :
    rawLength (rs.map fun r => ParsedData.parsed r.frame) = (rs.flatMap TlsRecord.encode).length := by
  rw [rawLength, List.flatMap_map]
  rfl

/-- In every run over every way of cutting what the client sends, with all that the router and the destination may do:
nothing is written to a destination, or all the records at the front of the input are written in one piece, and the
stream of the client has ended before. The first record with a server name is among them, and the records in front of
it and behind it are within the limits. The connection ends well only behind that write. -/
theorem forwards_of_run {D : Type} {bufferLimits : BufferLimits} {reads : List (ReadResult IoError)}
    (proper : ∀ r ∈ reads, r.Proper) {as : List (Feed.Action TlsEncryptedFrame D)}
    {s : Feed.State TlsStream TlsEncryptedFrame (NoHook TlsEncryptedFrame) D}
    (run : Run (Feed.step (ForwardTls.config bufferLimits))
      (Feed.State.init (ForwardTls.config bufferLimits) (TlsParser.parse reads)) as s) :
    ∃ rs : List TlsRecord, rs.flatMap TlsRecord.encode <+: all reads ∧
      (∀ rs' : List TlsRecord, rs'.flatMap TlsRecord.encode <+: all reads → rs' <+: rs) ∧
      s.conn.past = [] ∧ (s.conn.pc = .finished (.ok ()) → writes s.conn.log ≠ []) ∧
      (writes s.conn.log = [] ∨ ∃ pre r post d, rs = pre ++ r :: post ∧
        (∀ r' ∈ pre, Frame.routingKey r'.frame = none) ∧ (Frame.routingKey r.frame).isSome ∧
        ((pre ++ [r]).flatMap TlsRecord.encode).length ≤ bufferLimits.maxPreRouteBytes ∧
        (post.flatMap TlsRecord.encode).length ≤ bufferLimits.maxPostRouteBytes ∧
        writes s.conn.log = [(d, rs.flatMap TlsRecord.encode)] ∧ Dry s.client) := by
  obtain ⟨rs, o, splits⟩ := splits_total (all reads)
  obtain ⟨rest, front, -⟩ := splits.flatten
  have gives := TlsStream.gives_of_splits proper splits
  obtain ⟨past, ends, forwards⟩ := Feed.whole_of_run rfl gives (by cases o <;> trivial) run
  refine ⟨rs, ⟨rest, front.symm⟩, fun rs' front => splits.longest front, past, ends, ?_⟩
  rcases forwards with none | ⟨pre, f, post, d, cut, request, wrote, left⟩
  · exact .inl none
  rw [output_records] at wrote
  obtain ⟨pre, tail, rfl, rfl, behind⟩ := List.map_eq_append_iff.1 cut
  obtain ⟨r, post, rfl, here, rfl⟩ := List.map_eq_cons_iff.1 behind
  cases here
  have unkeyed : ∀ r' ∈ pre, Frame.routingKey r'.frame = none := by
    have none := request.noRouting
    rw [frames_records] at none
    exact fun r' mem => none r'.frame (List.mem_map_of_mem mem)
  have preLimit := request.preLimit
  have postLimit := request.postLimit
  rw [← List.map_singleton (f := fun r : TlsRecord => ParsedData.parsed r.frame), ← List.map_append,
    rawLength_records] at preLimit
  rw [rawLength_records] at postLimit
  have dry : Dry s.client := by
    cases o with
    | none =>
      cases left with
      | dry dry => exact dry
    | some e =>
      cases left with
      | dry dry => exact dry
  exact .inr ⟨pre, r, post, d, rfl, unkeyed, request.routing, preLimit, postLimit, wrote, dry⟩

/-- A ClientHello for one host. -/
def helloRecord : TlsRecord :=
  ⟨.handshake, (3, 1), (MatchingRouter.hello (Bytes.lit "a.b") (by decide)).encode, by decide⟩

/-- It comes in two reads, with the start of another record behind it. -/
def helloReads : List (ReadResult IoError) :=
  [.data (helloRecord.encode.take 20), .pending, .data (helloRecord.encode.drop 20 ++ [23, 3])]

/-- The polls of the stream, and the answer of the router. -/
def helloActions : List (Feed.Action TlsEncryptedFrame Nat) := [.poll, .poll, .poll, .other (.routed (.ok 7))]

/-- The record is forwarded when the broken one behind it has ended the stream. -/
theorem forwards_of_run_hello :
    ∃ s : Feed.State TlsStream TlsEncryptedFrame (NoHook TlsEncryptedFrame) Nat,
      Run (Feed.step (ForwardTls.config ⟨100, 100⟩)) (Feed.State.init (ForwardTls.config ⟨100, 100⟩)
        (TlsParser.parse helloReads)) helloActions s ∧
      writes s.conn.log = [(7, helloRecord.encode)] ∧ Dry s.client := by
  let init : Feed.State TlsStream TlsEncryptedFrame (NoHook TlsEncryptedFrame) Nat :=
    .init (ForwardTls.config ⟨100, 100⟩) (TlsParser.parse helloReads)
  have ends : (exec (Feed.step (ForwardTls.config ⟨100, 100⟩)) init helloActions).any
      (fun s => writes s.conn.log == [(7, helloRecord.encode)]) = true := by
    decide +kernel
  obtain ⟨s, leads, wrote⟩ := (Option.any_eq_true _ _).1 ends
  have run : Run (Feed.step (ForwardTls.config ⟨100, 100⟩)) init helloActions s := .of_exec leads
  have wrote := beq_iff_eq.1 wrote
  obtain ⟨rs, -, -, -, -, none | ⟨_, _, _, _, _, _, _, _, _, _, dry⟩⟩ := forwards_of_run (by decide) run
  · cases wrote.symm.trans none
  · exact ⟨s, run, wrote, dry⟩

end Railscale.Tls
