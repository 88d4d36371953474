import Railscale.Core.Steps
import Railscale.Http.ResponseLength
import Railscale.Lib.Run

/-!
# The upstream side of a connection

`do_connection` with `ResponseParser`: the connection machine polls a `ResponseFrameStream` over the
reads that the destination gives in the cycle. What the client, the router and the pool do is arbitrary.

The machine releases the destination when the stream has ended, whatever ended it. `Clean` is what the
next user of the destination relies on, and `releases_clean_iff` says when it has it.
-/

namespace Railscale

namespace Service

variable {F H D : Type}

/-- The places before the response, and the last one. -/
def Pc.Request : Pc H D → Prop
  | .preRoute => True
  | .acquiring _ => True
  | .joining _ _ _ => True
  | .writing _ _ => True
  | .finished _ => True
  | _ => False

/-- The places where the response stream is polled, or about to be. -/
def Pc.Streaming : Pc H D → Prop
  | .relaying _ => True
  | .flushing _ => True
  | _ => False

/-- The places behind the end of the response stream of a cycle that goes on. -/
def Pc.Streamed : Pc H D → Prop
  | .flushingLast _ => True
  | .releasing _ _ => True
  | _ => False

/-- Before the response its stream is not polled. -/
lemma Pc.Request.not_streaming {pc : Pc H D} (h : pc.Request) : ¬ pc.Streaming := by
  cases pc <;> first | exact id | exact h.elim

/-- Nor has it ended. -/
lemma Pc.Request.not_streamed {pc : Pc H D} (h : pc.Request) : ¬ pc.Streamed := by
  cases pc <;> first | exact id | exact h.elim

section request

variable [Frame F] {cfg : Config F H} {s s' : State F H D} {a : Action F D}

/-- Up to the write the cycle is before its response. -/
lemma Early.request {es : List (Event F H D)} {pc' : Pc H D} (early : Early cfg s a es pc') : pc'.Request := by
  cases early with
  | found _ _ place =>
    rcases place with rfl | rfl
    · trivial
    · trivial
  | _ => trivial

variable [ConnectionHook H F]

/-- The response stream begins and ends with the actions that are about it. -/
lemma stream_of_step (st : step cfg s a = some s')
    (notItem : ∀ o, a ≠ .responseItem o) (notWrote : a ≠ .wrote (.ok ())) :
    (s'.pc.Streaming → s.pc.Streaming) ∧ (s'.pc.Streamed → s.pc.Streamed) := by
  have request : s'.pc.Request →
      (s'.pc.Streaming → s.pc.Streaming) ∧ (s'.pc.Streamed → s.pc.Streamed) := fun h =>
    ⟨fun h' => absurd h' h.not_streaming, fun h' => absurd h' h.not_streamed⟩
  have before : ∀ {pc}, s.pc = pc → ¬ pc.After → s'.pc.Request := by
    intro pc here early
    obtain ⟨-, es, -, early⟩ := step_early (here ▸ early) st
    exact early.request
  cases step_cases st with
  | preRoute here => exact request (before here id)
  | acquired here => exact request trivial
  | postRoute here => exact request (before here id)
  | routed here => exact request trivial
  | joined here => exact request (before here id)
  | wrote here => exact absurd rfl notWrote
  | writeError here => exact request trivial
  | relay here => exact absurd rfl (notItem _)
  | flushed here => exact ⟨fun _ => by rw [here]; trivial, nofun⟩
  | flushedLast here =>
    refine ⟨fun h => ?_, fun _ => by rw [here]; trivial⟩
    unfold State.endRelay State.endCycle at h
    simp only at h
    split at h
    · exact h.elim
    · exact h.elim
  | flushError here => exact request trivial
  | flushedError here => exact request trivial
  | copied here => exact request trivial
  | copyError here => exact request trivial
  | released here _ => exact request trivial
  | dropped here _ => exact request trivial

end request

end Service

namespace Http.Upstream

open AsyncStream ReadResult Service ResponseCodec ResponseFrameStream

/-- A connection, what the destination gives to the cycle, and the response stream over that. The last
two are those of the last cycle that came to a response. -/
structure State (H D : Type) where
  conn : Service.State HttpFrame H D
  reads : List (ReadResult IoError)
  stream : ResponseFrameStream

/-- What happens next: the destination takes the request, and will answer with some reads, the response
stream is polled, or the connection gets to see anything else. -/
inductive Action (D : Type) where
  | wrote (reads : List (ReadResult IoError))
  | poll
  | conn (a : Service.Action HttpFrame D)

section machine

variable {H D : Type} [ConnectionHook H HttpFrame] (cfg : Config HttpFrame H)

/-- A connection before its first cycle. -/
def State.init : State H D := ⟨.init cfg, [], ResponseParser.parse []⟩

/-- One step of the connection and its response stream. -/
def step (s : State H D) (a : Action D) : Option (State H D) :=
  match a with
  | .wrote reads =>
    (Service.step cfg s.conn (.wrote (.ok ()))).map fun conn => ⟨conn, reads, ResponseParser.parse reads⟩
  | .poll =>
    match s.conn.pc with
    | .relaying _ =>
      match pollNext s.stream with
      | (.pending, stream) => some { s with stream := stream }
      | (.ready o, stream) =>
        (Service.step cfg s.conn (.responseItem (.ofIo o))).map fun conn => ⟨conn, s.reads, stream⟩
    | _ => none
  | .conn (.responseItem _) => none
  | .conn (.wrote (.ok ())) => none
  | .conn a => (Service.step cfg s.conn a).map fun conn => { s with conn := conn }

/-! ## Where a response ends -/

/-- What the next user of the destination relies on: the response was decoded to its end, the upstream
has not closed, and nothing that was read is lost with the stream. -/
structure Clean (s : ResponseFrameStream) : Prop where
  complete : s.inner.codec.bodyState = .done
  noEof : s.inner.eof = false
  nothingLeft : s.inner.buffer = []

/-- The bytes are one response, complete by the framing that its head declares. -/
def CompleteResponse (w : Bytes) : Prop :=
  ∃ ls body, HeadLines ls ∧ w = unlines ls ++ Bytes.crlf ++ body ∧
    Delimits (HttpDerivationInput.resolveAll (headCodec ls).session).bodyFraming False body

/-- Some of the reads, from the first one on, are one complete response and nothing else. -/
def OneResponse (reads : List (ReadResult IoError)) : Prop :=
  ∃ pre post, reads = pre ++ post ∧ (∀ r ∈ pre, r.Proper) ∧ CompleteResponse (all pre)

end machine

/-- Behind a head, a body that the framing delimits takes the codec to its end. -/
lemma done_of_delimits {c : ResponseCodec} {framing : BodyFramingMode} {body : Bytes}
    (hs : c.bodyState = .ofFraming framing) (delimits : Delimits framing False body) :
    (Decoder.feedAll (ε := IoError) atoms c body).codec.bodyState = .done := by
  cases framing with
  | fixed n =>
    have length := delimits.2 id
    by_cases zero : n = 0
    · subst zero
      rw [feedAll_done hs]
      exact hs
    · rw [feedAll_fixedLength (hs.trans (dif_neg zero)), length, Nat.sub_self]
      rfl
  | chunked =>
    obtain ⟨e, chunks, complete⟩ := delimits
    rw [complete id] at chunks
    have feed := chunks.feed hs []
    rw [List.append_nil] at feed
    rw [feed]
    rfl
  | untilClose => exact delimits.elim
  | none =>
    rw [feedAll_done hs]
    exact hs
  | invalid => exact delimits.elim

/-- The codec takes some bytes, all of them, to the end of a response if and only if they are one
complete response. -/
lemma run_done_iff (w : Bytes) :
    ((run w).err = none ∧ (run w).codec.bodyState = .done ∧ (run w).rest = []) ↔ CompleteResponse w := by
  constructor
  · rintro ⟨err, done, rest⟩
    obtain ⟨is, c, b, r, drain⟩ := Decoder.Drain.total incremental ResponseCodec.new w
    have feed : run w = _ := drain.feed incremental
    have state : c.bodyState = .done := by rw [feed] at done; exact done
    have none : r = none := by rw [feed] at err; exact err
    have calls : Decoder.Calls ResponseCodec.new w [] ResponseCodec.new w := .arrive w .start
    cases progress (calls.drain drain none) with
    | head ok e => cases state
    | @body ls _ _ _ body ok e _ _ _ =>
      subst e
      rw [run_lines ok] at err done rest
      refine ⟨ls, body, ok, rfl, (takesBody_iff ls False body).1 ?_⟩
      -- the codec is done behind the body, so it takes nothing of what follows
      intro suffix _
      rw [Decoder.Fed.after_codec] at done
      rw [Decoder.Fed.after_err] at err
      rw [Decoder.Fed.after_rest] at rest
      have more := feed_done done err suffix
      rw [rest, List.nil_append] at more
      rw [Decoder.feedAll, Decoder.feed_append, ← Decoder.feedAll, more]
      exact ⟨err, rfl⟩
  · rintro ⟨ls, body, ok, rfl, delimits⟩
    have takes := (takesBody_iff ls False body).2 delimits [] False.elim
    rw [List.append_nil] at takes
    rw [run_lines ok]
    exact ⟨takes.1, done_of_delimits rfl delimits, takes.2⟩

/-- A stream that has ended is clean if and only if its reads begin with one complete response. -/
theorem clean_iff {reads : List (ReadResult IoError)} {is : List (ParsedData HttpFrame)}
    {s' : ResponseFrameStream} (coll : Collect (ResponseParser.parse reads) is none s') :
    Clean s' ↔ OneResponse reads := by
  obtain ⟨_, _, _, coll', ends⟩ := ResponseParser.stops reads
  obtain ⟨rfl, rfl, rfl⟩ := coll.unique coll'
  have fed : ∀ p, (ResponseParser.parse reads).fed p = run (all p) := fun _ => rfl
  constructor
  · intro clean
    cases ends with
    | @complete _ pre post took err done _ inner =>
      have rest := clean.nothingLeft
      rw [inner] at rest
      rw [fed] at err done
      exact ⟨pre, post, took.reads, took.proper, (run_done_iff _).1 ⟨err, done, rest⟩⟩
    | eof _ _ _ _ eof => exact absurd (clean.noEof.symm.trans eof) nofun
  · rintro ⟨pre, post, e, proper, response⟩
    obtain ⟨err, done, rest⟩ := (run_done_iff _).2 response
    cases ends with
    | @complete _ pre' post' took err' done' least inner =>
      -- both prefixes are done: the shorter one of them leaves what the longer one has more
      have reads' : reads = pre' ++ post' := took.reads
      rcases List.append_eq_append_iff.1 (e.symm.trans reads') with ⟨q, rfl, -⟩ | ⟨q, rfl, -⟩
      · have nil : q = [] := by
          by_contra ne
          exact least pre q rfl ne done
        subst nil
        rw [List.append_nil] at inner
        exact ⟨by rw [inner]; exact done, by rw [inner]; rfl, by rw [inner]; exact rest⟩
      · have more := feed_done done' err' (all q)
        rw [← fed_append] at more
        rw [← fed, more] at rest
        refine ⟨by rw [inner]; exact done', by rw [inner]; rfl, ?_⟩
        rw [inner]
        exact (List.append_eq_nil_iff.1 rest).1
    | @eof _ pre' post' took err' notDone left _ =>
      have reads' : reads = pre' ++ post' := took.reads
      rcases List.append_eq_append_iff.1 (e.symm.trans reads') with ⟨q, rfl, -⟩ | ⟨q, rfl, e'⟩
      · have more := feed_done (s := (ResponseParser.parse reads).fed pre) done err (all q)
        rw [← fed_append] at more
        rw [more] at notDone
        exact absurd done notDone
      · cases q with
        | nil =>
          rw [List.append_nil] at done
          exact absurd done notDone
        | cons r q =>
          have ok := proper r (List.mem_append_right _ List.mem_cons_self)
          rcases left with rfl | ⟨rs, rfl⟩
          · cases e'
          · cases e'
            exact absurd rfl ok

section runs

variable {H D : Type} [ConnectionHook H HttpFrame] {cfg : Config HttpFrame H} {s s' : State H D}

/-- The response stream is the one over the reads of the cycle, polled so far or to its end. -/
structure Inv (s : State H D) : Prop where
  polls : s.conn.pc.Streaming → ∃ is, Polls (ResponseParser.parse s.reads) is s.stream
  ended : s.conn.pc.Streamed → ∃ is, Collect (ResponseParser.parse s.reads) is none s.stream

omit [ConnectionHook H HttpFrame] in
/-- At the start there is no response. -/
lemma Inv.init : Inv (State.init cfg : State H D) := ⟨nofun, nofun⟩

/-- A poll that gives something. -/
lemma Inv.ready {r : Relay H D} {o : Option ResponseItem} {stream : ResponseFrameStream}
    {is : List (ParsedData HttpFrame)} (polls : Polls (ResponseParser.parse s.reads) is s.stream)
    (ready : pollNext s.stream = (.ready o, stream)) :
    Inv ⟨s.conn.onRelay cfg r (.ofIo o), s.reads, stream⟩ := by
  unfold Service.State.onRelay
  match o with
  | none =>
    have ended : ∃ is, Collect (ResponseParser.parse s.reads) is none stream :=
      ⟨_, polls.collect (.none (.ready ready))⟩
    simp only [Item.ofIo, Option.map_none]
    split
    · exact ⟨nofun, fun _ => ended⟩
    · refine ⟨fun h => ?_, fun _ => ended⟩
      unfold Service.State.endRelay Service.State.endCycle at h
      simp only at h
      split at h
      · exact h.elim
      · exact h.elim
  | some (.error err) =>
    simp only [Item.ofIo, Option.map_some, Except.mapError]
    split
    · exact ⟨nofun, nofun⟩
    · exact ⟨nofun, nofun⟩
  | some (.ok i) =>
    have more : ∃ is, Polls (ResponseParser.parse s.reads) is stream := ⟨_, polls.item ready⟩
    simp only [Item.ofIo, Option.map_some, Except.mapError]
    split
    · exact ⟨fun _ => more, nofun⟩
    · exact ⟨fun _ => more, nofun⟩

/-- A step keeps the invariant. -/
theorem Inv.step {a : Action D} (inv : Inv s) (st : Upstream.step cfg s a = some s') : Inv s' := by
  unfold Upstream.step at st
  split at st
  · obtain ⟨conn, move, rfl⟩ := Option.map_eq_some_iff.1 st
    refine ⟨fun _ => ⟨[], .start⟩, fun h => ?_⟩
    cases step_cases move with
    | wrote here =>
      unfold Service.State.toRelay at h
      split at h
      · exact h.elim
      · exact h.elim
  · split at st
    · rename_i r here
      obtain ⟨is, polls⟩ := inv.polls (by rw [here]; trivial)
      split at st
      · rename_i pending
        cases st
        exact ⟨fun _ => ⟨is, polls.pending pending⟩, fun h => by rw [here] at h; exact h.elim⟩
      · rename_i ready
        obtain ⟨conn, move, rfl⟩ := Option.map_eq_some_iff.1 st
        cases step_cases move with
        | relay here' => exact .ready polls ready
    · cases st
  · cases st
  · cases st
  · rename_i a notItem notWrote
    obtain ⟨conn, move, rfl⟩ := Option.map_eq_some_iff.1 st
    obtain ⟨streaming, streamed⟩ := stream_of_step move notItem notWrote
    exact ⟨fun h => inv.polls (streaming h), fun h => inv.ended (streamed h)⟩

/-- In every state of every run in which a destination is about to be released, it is clean if and only
if the reads of the cycle begin with one complete response. -/
theorem releases_clean_iff {as : List (Action D)} {key : Bytes} {dest : D}
    (run : Run (Upstream.step cfg) (State.init cfg) as s) (releasing : s.conn.pc = .releasing key dest) :
    Clean s.stream ↔ OneResponse s.reads := by
  have inv : Inv s := run.invariant (fun _ _ _ inv st => inv.step st) .init
  obtain ⟨is, coll⟩ := inv.ended (by rw [releasing]; trivial)
  exact clean_iff coll

end runs

section examples

open Bytes

/-- A service for HTTP with a pool and a response parser. -/
def keepAliveConfig : Config HttpFrame HttpDeriverHook where
  process := id
  hookFactory := .new
  bufferLimits := ⟨64, 64⟩
  responseParser := true
  responseHookFactory := some .new
  stabling := true

/-- One cycle up to the release of its destination: the head and the body of the response are four
items. -/
def cycleActions (reads : List (ReadResult IoError)) : List (Action Nat) :=
  [.conn (.clientItem (some (.ok (.parsed (.requestLine (lit "GET / HTTP/1.1\r\n")))))),
    .conn (.acquired none), .conn (.routed (.ok 7)),
    .conn (.clientItem (some (.ok (.passthrough crlf)))), .conn (.clientItem none),
    .wrote reads, .poll, .poll, .poll, .poll, .poll, .conn (.clientWrote (.ok ()))]

/-- A response that comes in two reads, and the beginning of what the upstream sends next. -/
def wholeReads : List (ReadResult IoError) :=
  [.data (lit "HTTP/1.1 200 OK\r\nContent-Length: 2\r\n"), .data (lit "\r\nok"), .data (lit "HTTP/1.1 ")]

/-- A whole response in reads of its own leaves the destination clean. -/
theorem releases_clean_iff_whole :
    ∃ s key, Run (Upstream.step keepAliveConfig) (State.init keepAliveConfig) (cycleActions wholeReads) s ∧
      s.conn.pc = .releasing key 7 ∧ Clean s.stream ∧ OneResponse s.reads := by
  have run : Run (Upstream.step keepAliveConfig) (State.init keepAliveConfig) (cycleActions wholeReads) _ :=
    .of_exec rfl
  exact ⟨_, _, run, rfl, ⟨rfl, rfl, rfl⟩, (releases_clean_iff run rfl).1 ⟨rfl, rfl, rfl⟩⟩

/-- A response that the upstream cuts short. -/
def cutReads : List (ReadResult IoError) :=
  [.data (lit "HTTP/1.1 200 OK\r\nContent-Length: 5\r\n\r\nok")]

/-- Its destination is released all the same. -/
theorem not_clean_cut :
    ¬ ∀ (s : State HttpDeriverHook Nat) as key dest,
      Run (Upstream.step keepAliveConfig) (State.init keepAliveConfig) as s →
      s.conn.pc = .releasing key dest → Clean s.stream := by
  intro h
  have run : Run (Upstream.step keepAliveConfig) (State.init keepAliveConfig) (cycleActions cutReads) _ :=
    .of_exec rfl
  cases (h _ _ _ 7 run rfl).noEof

end examples

end Http.Upstream

end Railscale
