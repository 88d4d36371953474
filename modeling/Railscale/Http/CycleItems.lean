import Railscale.Http.Cycles

/-!
# The items of a cycle

What `do_connection` takes from `HttpFrameStream` in one cycle. When there is a request line among the frames it
comes first, the header lines of the client follow it one by one, and the empty line behind them is not a frame: it
is handed out with the rest of the read buffer, as one last item (`Shape`). The lines stand in the bytes of the
client one behind the other.
-/

namespace Railscale.Http

open Bytes ReadResult

/-! ## The items of a stream -/

namespace HttpFrameStream

open HttpStreamingCodec

/-- The items of a head: the request line and the header lines. -/
def headItems (matchers : List (Bytes × Bytes)) (l : Bytes) (ls : List Bytes) : List (ParsedData HttpFrame) :=
  .parsed (.requestLine (l ++ crlf)) :: ls.map fun h => .parsed (headerOf matchers h)

/-- The lines of a request that stands in the bytes of the client. -/
structure Sent (sent : Bytes) (l : Bytes) (ls : List Bytes) (rest : Bytes) : Prop where
  line : IsLine l
  lines : ∀ h ∈ ls, IsLine h
  sent : ∃ before, sent = before ++ unlines (l :: ls) ++ rest

/-- There is no request line before the next `None`. -/
def Closed (s : HttpFrameStream) : Prop :=
  if s.headersDone then s.yieldedNone = false else s.inner.codec.firstLine = false ∨ s.inner.codec.done = true

/-- The items that a cycle has taken, and the stream behind them. -/
inductive Shape (matchers : List (Bytes × Bytes)) (sent : Bytes) (p : Polling) :
    List (ParsedData HttpFrame) → Prop where
  | fresh :
    Shape matchers sent p []
  | head {l ls} :
    Sent sent l ls p.rest →
    p.stream.headersDone = false →
    p.stream.inner.codec.firstLine = false →
    p.mode ≠ some .reset →
    Shape matchers sent p (headItems matchers l ls)
  | tail {l ls bs rest} :
    Sent sent l ls rest →
    p.stream.headersDone = true →
    p.stream.yieldedNone = false →
    Shape matchers sent p (headItems matchers l ls ++ [.passthrough (crlf ++ bs)])
  | lost {is} :
    (∀ f, .parsed f ∈ is → f.routing = false) →
    p.stream.Closed →
    Shape matchers sent p is

/-- What holds of a stream at every moment. -/
structure Calm (matchers : List (Bytes × Bytes)) (sent : Bytes) (p : Polling) : Prop where
  matchers : p.stream.inner.codec.matchers = matchers
  drained : p.stream.headersDone = true → p.stream.inner.buffer = []
  yielded : p.stream.headersDone = false → p.stream.yieldedNone = false
  reading : p.mode.isSome = true → p.stream.headersDone = false
  rest : ∃ before, sent = before ++ p.rest

section turn

variable {matchers : List (Bytes × Bytes)} {sent : Bytes}

/-- One more item that is no routing frame. -/
lemma not_routing_concat {is : List (ParsedData HttpFrame)} {i : ParsedData HttpFrame}
    (none : ∀ f, .parsed f ∈ is → f.routing = false) (not : ∀ f, i = .parsed f → f.routing = false) :
    ∀ f, .parsed f ∈ is ++ [i] → f.routing = false := by
  intro f mem
  rcases List.mem_append.1 mem with mem | mem
  · exact none f mem
  · exact not f (List.mem_singleton.1 mem).symm

/-- A turn that gives no item. -/
lemma Shape.same {p p' : Polling} {is : List (ParsedData HttpFrame)} (shape : Shape matchers sent p is)
    (headersDone : p'.stream.headersDone = p.stream.headersDone)
    (yieldedNone : p'.stream.yieldedNone = p.stream.yieldedNone)
    (rest : p'.rest = p.rest) (follows : Follows p.stream.inner.codec none p'.stream.inner.codec)
    (mode : p'.mode = some .reset → p.mode = some .reset) : Shape matchers sent p' is := by
  cases shape with
  | fresh => exact .fresh
  | head lines notDone later noReset =>
    exact .head (rest ▸ lines) (headersDone.trans notDone) (follows.later later).1 fun reset => noReset (mode reset)
  | tail lines done notYielded => exact .tail lines (headersDone.trans done) (yieldedNone.trans notYielded)
  | lost none closed =>
    refine .lost none ?_
    rw [Closed] at closed ⊢
    rw [headersDone, yieldedNone]
    split
    · rename_i done
      rw [if_pos done] at closed
      exact closed
    · rename_i notDone
      rw [if_neg notDone] at closed
      exact closed.imp (fun later => (follows.later later).1) fun done => (follows.done done).2

/-- A stream that waits for the next line. -/
lemma Closed.later {s : HttpFrameStream} (closed : s.Closed) (notDone : s.headersDone = false) {f : HttpFrame}
    {c : HttpStreamingCodec} (follows : Follows s.inner.codec (some f) c) : s.inner.codec.firstLine = false := by
  rw [Closed, notDone] at closed
  rcases closed with later | done
  · exact later
  · cases (follows.done done).1

/-- A frame that is handed out as it is. -/
lemma Shape.parsed {s : HttpFrameStream} {m : Mode} {inner : FramedRead HttpStreamingCodec IoError}
    {is : List (ParsedData HttpFrame)} {f : HttpFrame} {b : Bytes} (shape : Shape matchers sent ⟨s, some m⟩ is)
    (calm : Calm matchers sent ⟨s, some m⟩) (notDone : s.headersDone = false)
    (rest : (⟨s, some m⟩ : Polling).rest = b ++ all inner.reads) (line : OfLine matchers f b inner.buffer)
    (follows : Follows s.inner.codec (some f) inner.codec) (frame : f.isEndOfHeaders = true → m = .reset) :
    Shape matchers sent ⟨{ s with inner := inner }, none⟩ (is ++ [.parsed f]) := by
  have next := follows.frame f rfl
  have closed : (∀ f, .parsed f ∈ is → f.routing = false) → (∀ l, f ≠ .requestLine l) →
      Shape matchers sent ⟨{ s with inner := inner }, none⟩ (is ++ [.parsed f]) := by
    intro none notRequest
    refine .lost (not_routing_concat none fun g same => ?_) ?_
    · cases same
      cases line with
      | empty => rfl
      | request _ => exact absurd rfl (notRequest _)
      | header _ => rfl
    · rw [Closed, if_neg (by rw [notDone]; nofun)]
      split at next
      · exact .inr next
      · exact .inl next
  cases shape with
  | fresh =>
    cases line with
    | empty => exact closed nofun nofun
    | header _ => exact closed nofun nofun
    | @request l b' line =>
      obtain ⟨before, sent_eq⟩ := calm.rest
      show Shape matchers sent _ (headItems matchers l [])
      refine .head ⟨line, nofun, before, ?_⟩ notDone next nofun
      rw [sent_eq, rest, unlines_cons, unlines_nil, List.append_nil]
      simp only [List.append_assoc]
      rfl
  | @head l ls lines _ later noReset =>
    cases line with
    | empty => exact absurd (congrArg some (frame rfl)) noReset
    | request _ => exact absurd rfl ((follows.later later).2 _)
    | @header h b' line =>
      obtain ⟨before, sent_eq⟩ := lines.sent
      have items : headItems matchers l ls ++ [.parsed (headerOf matchers h)] = headItems matchers l (ls ++ [h]) := by
        rw [headItems, headItems, List.map_append]
        rfl
      rw [items]
      refine .head ⟨lines.line, ?_, before, ?_⟩ notDone (follows.later later).1 nofun
      · intro h' mem
        rcases List.mem_append.1 mem with mem | mem
        · exact lines.lines h' mem
        · rw [List.mem_singleton.1 mem]
          exact line
      · rw [sent_eq, rest, ← List.cons_append, unlines_append, unlines_cons h, unlines_nil, List.append_nil]
        simp only [List.append_assoc]
        rfl
  | tail _ done _ => cases notDone.symm.trans done
  | lost none open_ =>
    refine closed none fun l same => ?_
    exact (follows.later (open_.later notDone follows)).2 l (congrArg some same)

/-- The empty line that is handed out with the buffer. -/
lemma Shape.ended {s : HttpFrameStream} {m : Mode} {inner : FramedRead HttpStreamingCodec IoError}
    {is : List (ParsedData HttpFrame)} (shape : Shape matchers sent ⟨s, some m⟩ is)
    (calm : Calm matchers sent ⟨s, some m⟩) (notDone : s.headersDone = false) :
    Shape matchers sent ⟨{ s with inner := { inner with buffer := [] }, headersDone := true }, none⟩
      (is ++ [.passthrough (crlf ++ inner.buffer)]) := by
  have notYielded : s.yieldedNone = false := calm.yielded notDone
  cases shape with
  | fresh => exact .lost (not_routing_concat nofun nofun) notYielded
  | head lines _ _ _ => exact .tail lines rfl notYielded
  | tail _ done _ => cases notDone.symm.trans done
  | lost none _ => exact .lost (not_routing_concat none nofun) notYielded

/-- A stream that was polled before the end of its head. -/
lemma Calm.polled {s : HttpFrameStream} {m : Mode} {inner : FramedRead HttpStreamingCodec IoError} (taken : Bytes)
    (calm : Calm matchers sent ⟨s, some m⟩) (same : inner.codec.matchers = matchers)
    (rest : (⟨s, some m⟩ : Polling).rest = taken ++ (inner.buffer ++ all inner.reads)) (mode : Option Mode) :
    Calm matchers sent ⟨{ s with inner := inner }, mode⟩ := by
  have notDone : s.headersDone = false := calm.reading rfl
  refine ⟨same, fun done => (nomatch notDone.symm.trans done), calm.yielded, fun _ => notDone, ?_⟩
  obtain ⟨before, sent_eq⟩ := calm.rest
  refine ⟨before ++ taken, ?_⟩
  rw [sent_eq, rest, List.append_assoc]
  rfl

/-- The items behind a turn. -/
def Shape.After (matchers : List (Bytes × Bytes)) (sent : Bytes) (is : List (ParsedData HttpFrame)) (p' : Polling) :
    Option (Poll (Option HttpItem)) → Prop
  | some (.ready (some (.ok i))) => Shape matchers sent p' (is ++ [i])
  | some (.ready _) => True
  | _ => Shape matchers sent p' is

/-- A turn of the stream in a cycle. -/
theorem Shape.turn {p p' : Polling} {r} {is : List (ParsedData HttpFrame)} (shape : Shape matchers sent p is)
    (calm : Calm matchers sent p) (h : p.turn = (r, p')) : Calm matchers sent p' ∧ After matchers sent is p' r := by
  obtain ⟨stream, mode⟩ := p
  cases mode with
  | none =>
    simp only [Polling.turn, drainBuffer] at h
    split at h
    · rename_i done
      have empty : stream.inner.buffer = [] := calm.drained done
      simp only [empty, if_true] at h
      split at h
      -- the next head: a cycle that has taken something does not get here
      · rename_i again
        cases h
        refine ⟨⟨calm.matchers, ?_, fun _ => rfl, fun _ => rfl, calm.rest⟩, ?_⟩
        · rintro ⟨⟩
        cases shape with
        | fresh => exact .fresh
        | head _ notDone _ _ => cases notDone.symm.trans done
        | tail _ _ notYielded => cases notYielded.symm.trans again
        | lost none closed =>
          rw [Closed, if_pos done] at closed
          cases closed.symm.trans again
      · cases h
        refine ⟨⟨calm.matchers, calm.drained, fun notDone => ?_, ?_, calm.rest⟩, trivial⟩
        · cases done.symm.trans notDone
        · rintro ⟨⟩
    · rename_i notDone
      have notDone := eq_false_of_ne_true notDone
      cases h
      refine ⟨⟨calm.matchers, calm.drained, calm.yielded, fun _ => notDone, calm.rest⟩,
        shape.same rfl rfl rfl (.same id id) ?_⟩
      rintro ⟨⟩
  | some m =>
    have notDone : stream.headersDone = false := calm.reading rfl
    simp only [Polling.turn] at h
    rcases turn : stream.inner.turn with ⟨r', inner⟩
    obtain ⟨matchers', pre, -, reads, turned⟩ := FramedRead.turn_moves (ofLine matchers) calm.matchers turn
    have tracks := FramedRead.turn_tracks follows turn
    have rest : (⟨stream, some m⟩ : Polling).rest = stream.inner.buffer ++ all pre ++ all inner.reads := by
      rw [Polling.rest, reads, all_append, List.append_assoc]
    have kept : ∀ mode, inner.buffer = stream.inner.buffer ++ all pre →
        Calm matchers sent ⟨{ stream with inner := inner }, mode⟩ := by
      intro mode same
      refine calm.polled [] matchers' ?_ mode
      rw [rest, same]
      rfl
    rw [turn] at h
    rcases r' with _ | _ | _ | e | f
    · cases h
      refine ⟨kept _ turned, shape.same rfl rfl ?_ tracks id⟩
      rw [rest, ← (turned : inner.buffer = _)]
      rfl
    · cases h
      refine ⟨kept _ turned, shape.same rfl rfl ?_ tracks ?_⟩
      · rw [rest, ← (turned : inner.buffer = _)]
        rfl
      · rintro ⟨⟩
    · cases h
      cases m with
      | head => exact ⟨kept _ turned, trivial⟩
      | reset => exact ⟨kept _ turned, trivial⟩
    · cases h
      cases m with
      | head => exact ⟨kept _ turned, trivial⟩
      | reset => exact ⟨kept _ turned, trivial⟩
    · have line : OfLine matchers f (stream.inner.buffer ++ all pre) inner.buffer := turned
      obtain ⟨l, cut⟩ := line.cut
      have calm' := calm.polled (l ++ crlf) matchers' (by rw [rest, cut, List.append_assoc]) none
      cases h
      cases m with
      | reset => exact ⟨calm', shape.parsed calm notDone rest line tracks fun _ => rfl⟩
      | head =>
        simp only [Mode.on, onHead]
        split
        · obtain ⟨before, sent_eq⟩ := calm'.rest
          refine ⟨⟨matchers', fun _ => rfl, ?_, ?_, before ++ inner.buffer, ?_⟩, shape.ended calm notDone⟩
          · rintro ⟨⟩
          · rintro ⟨⟩
          · rw [sent_eq, List.append_assoc]
            rfl
        · rename_i notEnd
          exact ⟨calm', shape.parsed calm notDone rest line tracks fun isEnd => absurd isEnd notEnd⟩

end turn

/-- The items of a cycle: a head, whose empty line comes with the rest of the buffer if it has come, or frames
without a routing key. -/
inductive CycleItems (matchers : List (Bytes × Bytes)) (sent : Bytes) : List (ParsedData HttpFrame) → Prop where
  | request {l ls rest bs} :
    Sent sent l ls rest →
    bs = [] ∨ (∃ body, bs = [.passthrough (crlf ++ body)]) →
    CycleItems matchers sent (headItems matchers l ls ++ bs)
  | unrouted {is} :
    (∀ f, .parsed f ∈ is → f.routing = false) →
    CycleItems matchers sent is

/-- The items of a cycle have the shape of a request. -/
lemma Shape.cycleItems {matchers : List (Bytes × Bytes)} {sent : Bytes} {p : Polling} {is : List (ParsedData HttpFrame)}
    (shape : Shape matchers sent p is) : CycleItems matchers sent is := by
  cases shape with
  | fresh => exact .unrouted nofun
  | head lines _ _ _ =>
    rw [← List.append_nil (headItems _ _ _)]
    exact .request lines (.inl rfl)
  | tail lines _ _ => exact .request lines (.inr ⟨_, rfl⟩)
  | lost none _ => exact .unrouted none

end HttpFrameStream

/-! ## The cycles of a connection -/

namespace Client

open Service HttpFrameStream

variable {H D : Type} {s s' : State H D} {matchers : List (Bytes × Bytes)} {sent : Bytes}

/-- The cycles have taken what the stream can give them. -/
structure Shaped (matchers : List (Bytes × Bytes)) (sent : Bytes) (s : State H D) : Prop where
  calm : Calm matchers sent s.client
  running : s.conn.pc.collects = true → Shape matchers sent s.client (taken s.conn.log)
  logs : ∀ log ∈ s.conn.past ++ [s.conn.log], CycleItems matchers sent (taken log)

/-- At the start no item has been taken. -/
lemma Shaped.init (cfg : Config HttpFrame H) (matchers : List (Bytes × Bytes)) (reads : List (ReadResult IoError)) :
    Shaped matchers (all reads) (State.init cfg matchers reads : State H D) where
  calm := ⟨rfl, nofun, fun _ => rfl, nofun, [], rfl⟩
  running _ := .fresh
  logs := by
    intro log mem
    rw [List.mem_singleton.1 mem]
    exact .unrouted nofun

/-- The places that await the client are those of the collecting loops. -/
lemma collects_of_awaits {pc : Pc H D} (awaits : awaitsClient pc = true) : pc.collects = true := by
  unfold awaitsClient at awaits
  split at awaits
  · rfl
  · rfl
  · cases awaits

/-- The logs of the cycles behind a step that stays in its cycle. -/
lemma Shaped.logs_of_taken {conn' : Service.State HttpFrame H D} (inv : Shaped matchers sent s)
    (past : conn'.past = s.conn.past) (items : CycleItems matchers sent (taken conn'.log)) :
    ∀ log ∈ conn'.past ++ [conn'.log], CycleItems matchers sent (taken log) := by
  intro log mem
  rw [past] at mem
  rcases List.mem_append.1 mem with mem | mem
  · exact inv.logs log (List.mem_append_left _ mem)
  · rw [List.mem_singleton.1 mem]
    exact items

/-- The items of the running cycle. -/
lemma Shaped.current (inv : Shaped matchers sent s) : CycleItems matchers sent (taken s.conn.log) :=
  inv.logs _ (List.mem_append_right _ List.mem_cons_self)

variable [ConnectionHook H HttpFrame] {cfg : Config HttpFrame H}

/-- An item of the client stream, or its end. -/
lemma Shaped.takes {o : Option HttpItem} {client : Polling} {conn : Service.State HttpFrame H D}
    (inv : Shaped matchers sent s) (awaits : awaitsClient s.conn.pc = true)
    (turn : s.client.turn = (some (.ready o), client))
    (move : Service.step cfg s.conn (.clientItem (.ofIo o)) = some conn) (received : Nat) (failed : Bool) :
    Shaped matchers sent ⟨conn, client, received, failed⟩ := by
  obtain ⟨calm, after⟩ := (inv.running (collects_of_awaits awaits)).turn inv.calm turn
  have within : (.clientItem (.ofIo o) : Service.Action HttpFrame D) ≠ .release := by
    rintro ⟨⟩
  obtain ⟨past, takes_eq, -⟩ := step_advances move within
  have items : taken conn.log = taken s.conn.log ++ [Item.ofIo o].filterMap okItem := by
    rw [taken, takes_eq, List.filterMap_append]
    rfl
  rcases o with _ | e | i
  · have items : taken conn.log = taken s.conn.log := items.trans (List.append_nil _)
    refine ⟨calm, fun now => ?_, inv.logs_of_taken past (items ▸ inv.current)⟩
    obtain ⟨i, ok⟩ := (collects_step move within now).2 _ List.mem_cons_self
    cases ok
  · have items : taken conn.log = taken s.conn.log := items.trans (List.append_nil _)
    refine ⟨calm, fun now => ?_, inv.logs_of_taken past (items ▸ inv.current)⟩
    obtain ⟨i, ok⟩ := (collects_step move within now).2 _ List.mem_cons_self
    cases ok
  · have items : taken conn.log = taken s.conn.log ++ [i] := items
    have shape : Shape matchers sent client (taken conn.log) := items ▸ after
    exact ⟨calm, fun _ => shape, inv.logs_of_taken past shape.cycleItems⟩

/-- Every step keeps the shape. -/
lemma Shaped.step {a : Action D} (inv : Shaped matchers sent s) (st : Client.step cfg s a = some s') :
    Shaped matchers sent s' := by
  cases step_cases st with
  | @waits r client awaits turn unready =>
    obtain ⟨calm, after⟩ := (inv.running (collects_of_awaits awaits)).turn inv.calm turn
    refine ⟨calm, fun _ => ?_, inv.logs⟩
    match r with
    | none => exact after
    | some .pending => exact after
    | some (.ready o) => exact absurd rfl (unready o)
  | takes awaits turn move => exact inv.takes awaits turn move _ _
  | @moves a conn other move =>
    have logs : (conn.pc.collects = true → Shape matchers sent s.client (taken conn.log)) ∧
        ∀ log ∈ conn.past ++ [conn.log], CycleItems matchers sent (taken log) := by
      by_cases release : a = .release
      · subst release
        obtain ⟨-, -, fresh, es, untaken, past⟩ := step_release move
        rw [fresh, past]
        refine ⟨fun _ => .fresh, fun log mem => ?_⟩
        simp only [List.append_assoc, List.mem_append, List.mem_singleton] at mem
        rcases mem with mem | rfl | rfl
        · exact inv.logs log (List.mem_append_left _ mem)
        · rw [taken_untaken untaken]
          exact inv.current
        · exact .unrouted nofun
      · obtain ⟨past, takes_eq, -⟩ := step_advances move release
        have nothing : a.items = [] := by
          cases a with
          | clientItem o => exact absurd rfl (other o)
          | _ => rfl
        have items : taken conn.log = taken s.conn.log := by
          rw [taken, takes_eq, nothing, List.append_nil, taken]
        rw [items]
        exact ⟨fun now => inv.running (collects_step move release now).1,
          inv.logs_of_taken past (items ▸ inv.current)⟩
    refine ⟨?_, ?_, ?_⟩
    · rw [move_client]
      exact inv.calm
    · rw [move_conn, move_client]
      exact logs.1
    · rw [move_conn]
      exact logs.2

/-- Every cycle of every run takes its items in this order. -/
theorem cycleItems_of_run {reads : List (ReadResult IoError)} {as : List (Action D)}
    (run : Run (Client.step cfg) (State.init cfg matchers reads) as s) :
    ∀ log ∈ s.conn.past ++ [s.conn.log], CycleItems matchers (all reads) (taken log) := by
  have inv : Shaped matchers (all reads) s :=
    run.invariant (fun _ _ _ inv st => inv.step st) (.init cfg matchers reads)
  exact inv.logs

end Client

end Railscale.Http
