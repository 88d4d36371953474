import Railscale.Http.Conservation

/-!
# The memory a client can take

What a connection holds of its client in a cycle: the read buffer of the request stream and the items
in the two request buffers, in the bytes that the client sent. The limits of the pipeline count a byte
only when its line is complete, so that the bytes of an unfinished line wait in the read buffer
uncounted. `held_le` bounds what is held in every run in which the connection reads only while the
counted bytes leave room for the waiting ones, and `lt_held` says that any other read goes beyond.
-/

namespace Railscale

namespace Service

variable {F H D : Type} [Frame F]

/-- The bytes of the client in the two buffers: those of the items taken first, one for each entry. -/
def heldBytes (s : State F H D) : Nat :=
  rawLength ((taken s.log).take (s.cycle.preRouteBuf.length + s.cycle.postRouteBuf.length))

/-- The bytes of an item, if it is one. -/
def itemLength (o : Item F) : Nat := ((okItem o).elim 0 (·.raw.length))

section held

variable [ConnectionHook H F] {cfg : Config F H} {s s' : State F H D}

omit [ConnectionHook H F] in
/-- The same items and the same buffers. -/
lemma heldBytes_same (items : taken s'.log = taken s.log)
    (pre : s'.cycle.preRouteBuf = s.cycle.preRouteBuf)
    (post : s'.cycle.postRouteBuf = s.cycle.postRouteBuf) : heldBytes s' = heldBytes s := by
  rw [heldBytes, items, pre, post, heldBytes]

/-- Every item that was taken is in one of the buffers. -/
def Full (s : State F H D) : Prop :=
  s.cycle.preRouteBuf.length + s.cycle.postRouteBuf.length = (taken s.log).length

/-- While a request is collected everything is in the buffers. -/
lemma Collecting.full {pre post} (coll : Collecting cfg s pre post []) : Full s := by
  have items : taken s.log = pre ++ post := by
    rw [taken, coll.takes_eq, List.append_nil, filterMap_given]
  rw [Full, items, coll.preBuf, coll.postBuf]
  simp

/-- What the buffers hold is what was counted. -/
lemma Collecting.heldBytes_eq {pre post} (coll : Collecting cfg s pre post []) :
    heldBytes s = s.cycle.preRouteCumulative + s.cycle.postRouteCumulative := by
  have items : taken s.log = pre ++ post := by
    rw [taken, coll.takes_eq, List.append_nil, filterMap_given]
  rw [heldBytes, coll.full, List.take_length, items, rawLength_append, coll.preCumulative,
    coll.postCumulative]

omit [ConnectionHook H F] in
/-- An item that is left out of the buffers. -/
lemma heldBytes_leftOut (full : Full s) {i : ParsedData F} (items : taken s'.log = taken s.log ++ [i])
    (pre : s'.cycle.preRouteBuf = s.cycle.preRouteBuf)
    (post : s'.cycle.postRouteBuf = s.cycle.postRouteBuf) : heldBytes s' = heldBytes s := by
  rw [heldBytes, items, pre, post, heldBytes, full, List.take_left' rfl, List.take_length]

omit [ConnectionHook H F] in
/-- An item that is taken into one of the buffers. -/
lemma heldBytes_kept (full : Full s) {i : ParsedData F} (items : taken s'.log = taken s.log ++ [i])
    (buffers : s'.cycle.preRouteBuf.length + s'.cycle.postRouteBuf.length =
      s.cycle.preRouteBuf.length + s.cycle.postRouteBuf.length + 1) :
    heldBytes s' = heldBytes s + i.raw.length := by
  rw [heldBytes, items, buffers, heldBytes, full, List.take_length, List.take_of_length_le, rawLength_append,
    rawLength_singleton]
  simp

omit [ConnectionHook H F] in
/-- Failing holds on to the buffers. -/
lemma heldBytes_fail (cr : ConnectionResult) (err : RailscaleError) :
    heldBytes (s.fail cfg cr err) = heldBytes s := by
  rw [State.fail_eq]
  exact heldBytes_same (taken_untaken (quiet_nil (quiet_errorEvents err)).1 _) rfl rfl

omit [ConnectionHook H F] in
/-- So does the end of the pre-route loop. -/
lemma heldBytes_endPreRoute (clientClosed : Bool) :
    heldBytes (s.endPreRoute cfg clientClosed) = heldBytes s := by
  rw [State.endPreRoute]
  split
  · rfl
  · exact heldBytes_fail _ _

/-- So do the checks behind the join. -/
lemma heldBytes_afterJoin (key : Bytes) (dest : Except RailscaleError D) :
    heldBytes (s.afterJoin cfg key dest) = heldBytes s := by
  have validated : ∀ r, heldBytes (s.emit [.validated s.cycle.hook r]) = heldBytes s :=
    fun r => heldBytes_same (taken_untaken rfl _) rfl rfl
  have joined := State.afterJoin_cases cfg s key dest
  generalize s.afterJoin cfg key dest = s' at joined ⊢
  cases joined with
  | overflow _ => exact heldBytes_fail _ _
  | invalid _ _ => exact (heldBytes_fail _ _).trans (validated _)
  | unrouted _ _ => exact (heldBytes_fail _ _).trans (validated _)
  | forwarded _ _ => exact heldBytes_same (taken_untaken (takes_forwardEvents _ _) _) rfl rfl

/-- So does the end of the collecting future. -/
lemma heldBytes_endPostRoute (key : Bytes) (dest : Option (Except RailscaleError D)) :
    heldBytes (s.endPostRoute cfg key dest) = heldBytes s := by
  cases dest with
  | some r => exact heldBytes_afterJoin key r
  | none => rfl

omit [Frame F] [ConnectionHook H F] in
/-- One more thing that the client stream gave, when it is an item. -/
lemma taken_took (log : List (Event F H D)) (o : Item F) :
    taken (log ++ [.took o]) = taken log ++ (okItem o).toList := by
  rw [taken, takes_append, List.filterMap_append, taken]
  refine congrArg ((takes log).filterMap okItem ++ ·) ?_
  rcases o with _ | _ | _
  · rfl
  · rfl
  · rfl

omit [Frame F] [ConnectionHook H F] in
/-- One more item of the client stream. -/
lemma taken_itemEvents (log : List (Event F H D)) (i : ParsedData F) :
    taken (log ++ State.itemEvents i) = taken log ++ [i] := by
  rw [taken, takes_append, List.filterMap_append, taken, (itemEvents_seen i).1, filterMap_given]

omit [ConnectionHook H F] in
/-- What is no item is not held. -/
lemma heldBytes_took {o : Item F} (stop : okItem o = none) : heldBytes (s.emit [.took o]) = heldBytes s := by
  refine heldBytes_same ?_ rfl rfl
  rw [State.emit_log, taken_took, stop]
  exact List.append_nil _

/-- A turn of the pre-route loop takes at most its item. -/
lemma heldBytes_onPreRoute (full : Full s) (o : Item F) :
    heldBytes (s.onPreRoute cfg o) ≤ heldBytes s + itemLength o := by
  have turn := State.onPreRoute_cases cfg s o
  generalize s.onPreRoute cfg o = s' at turn ⊢
  cases turn with
  | ended =>
    rw [heldBytes_endPreRoute, heldBytes_took rfl]
    exact Nat.le_add_right _ _
  | closed _ _ =>
    rw [heldBytes_endPreRoute, heldBytes_took rfl]
    exact Nat.le_add_right _ _
  | failed =>
    rw [heldBytes_fail, heldBytes_took rfl]
    exact Nat.le_add_right _ _
  | overflow pre post =>
    rw [heldBytes_fail, heldBytes_leftOut full (taken_took _ _) pre post]
    exact Nat.le_add_right _ _
  | @kept i _ _ =>
    refine Nat.le_of_eq (heldBytes_kept full (taken_itemEvents _ i) ?_)
    simp only [State.keepPre, List.length_append, List.length_singleton]
    omega
  | @routed f key _ _ =>
    refine Nat.le_of_eq ?_
    have kept : ∀ s' : State F H D, s'.log = s.log ++ State.itemEvents (.parsed f) →
        s'.cycle.preRouteBuf = s.cycle.preRouteBuf ++ [ParsedData.output cfg.process (.parsed f)] →
        s'.cycle.postRouteBuf = s.cycle.postRouteBuf →
        heldBytes s' = heldBytes s + itemLength (some (.ok (.parsed f))) := by
      intro s' log pre post
      refine heldBytes_kept full (by rw [log, taken_itemEvents]) ?_
      rw [pre, post, List.length_append, List.length_singleton]
      omega
    rw [State.toAcquire]
    split
    · exact kept _ rfl rfl rfl
    · exact kept _ rfl rfl rfl

/-- A turn of the post-route loop takes at most its item. -/
lemma heldBytes_onPostRoute (full : Full s) (key : Bytes) (dest : Option (Except RailscaleError D))
    (o : Item F) : heldBytes (s.onPostRoute cfg key dest o) ≤ heldBytes s + itemLength o := by
  have turn := State.onPostRoute_cases cfg s key dest o
  generalize s.onPostRoute cfg key dest o = s' at turn ⊢
  cases turn with
  | stopped stops =>
    have stop : okItem o = none := by
      match o with
      | none => rfl
      | some (.error _) => rfl
      | some (.ok i) => exact absurd rfl (stops i)
    rw [heldBytes_endPostRoute, heldBytes_took stop]
    exact Nat.le_add_right _ _
  | overflow _ pre post =>
    rw [heldBytes_endPostRoute, heldBytes_leftOut full (taken_took _ _) pre post]
    exact Nat.le_add_right _ _
  | @kept i _ =>
    refine Nat.le_of_eq (heldBytes_kept full (taken_itemEvents _ i) ?_)
    simp only [State.keepPost, List.length_append, List.length_singleton]
    omega

/-- Where an item is awaited every item that was taken is in a buffer. -/
lemma Running.collecting (running : Running cfg s)
    (here : s.pc = .preRoute ∨ ∃ key dest, s.pc = .joining key dest false) :
    ∃ pre post, Collecting cfg s pre post [] := by
  cases running with
  | preRoute _ coll _ => exact ⟨_, _, coll⟩
  | acquiring pc _ _ => simp [pc] at here
  | joining _ coll _ => exact ⟨_, _, coll⟩
  | collected pc _ => simp [pc] at here
  | after pc _ =>
    rcases here with here | ⟨key, dest, here⟩
    · exact absurd pc (by rw [here]; exact id)
    · exact absurd pc (by rw [here]; exact id)

/-- A step of the connection takes at most the item that it gets. -/
lemma heldBytes_clientItem (inv : Inv cfg s) {o : Item F} (st : step cfg s (.clientItem o) = some s') :
    heldBytes s' ≤ heldBytes s + itemLength o := by
  cases step_cases st with
  | preRoute here =>
    obtain ⟨pre, post, coll⟩ := inv.running.collecting (.inl here)
    exact heldBytes_onPreRoute coll.full o
  | postRoute here =>
    obtain ⟨pre, post, coll⟩ := inv.running.collecting (.inr ⟨_, _, here⟩)
    exact heldBytes_onPostRoute coll.full _ _ o

/-- No other step takes anything. -/
lemma heldBytes_other {a : Action F D} (other : ∀ o, a ≠ .clientItem o) (st : step cfg s a = some s') :
    heldBytes s' ≤ heldBytes s := by
  by_cases pc : s.pc.After
  · cases step_after pc st with
    | stay late _ log _ cycle =>
      obtain ⟨untaken, -, -⟩ := quiet_nil fun e he => (late e he).quiet
      exact Nat.le_of_eq (heldBytes_same (by rw [log, taken_untaken untaken]) (by rw [cycle]) (by rw [cycle]))
    | next _ _ _ _ log _ =>
      have nothing : taken s'.log = [] := by rw [log]; rfl
      rw [heldBytes, nothing, List.take_nil]
      exact Nat.zero_le _
  · cases step_cases st with
    | preRoute _ => exact absurd rfl (other _)
    | postRoute _ => exact absurd rfl (other _)
    | acquired _ => exact Nat.le_of_eq (heldBytes_same (taken_untaken rfl _) rfl rfl)
    | routed _ => exact Nat.le_of_eq (heldBytes_same (taken_untaken rfl _) rfl rfl)
    | joined _ =>
      rw [heldBytes_afterJoin]
      exact Nat.le_of_eq (heldBytes_same (taken_untaken rfl _) rfl rfl)
    | flushError here =>
      rcases here with here | here
      · exact absurd (by rw [here]; trivial) pc
      · exact absurd (by rw [here]; trivial) pc
    | _ => simp_all [Pc.After]

end held

end Service

namespace Http

open Bytes ReadResult

/-! ## What a connection holds -/

namespace Client

open Service HttpFrameStream

/-- The size of the largest read. -/
def largest (reads : List (ReadResult IoError)) : Nat :=
  (reads.map (·.bytes.length)).foldr max 0

/-- No read is larger than the largest. -/
lemma le_largest {reads : List (ReadResult IoError)} {r} (mem : r ∈ reads) :
    r.bytes.length ≤ largest reads := by
  induction reads with
  | nil => cases mem
  | cons t reads ih =>
    rcases List.mem_cons.1 mem with rfl | mem
    · exact Nat.le_max_left _ _
    · exact (ih mem).trans (Nat.le_max_right _ _)

variable {H D : Type}

/-- The bytes of the client that a connection holds: in the read buffer and in the two request
buffers. -/
def held (s : State H D) : Nat := s.client.stream.inner.buffer.length + heldBytes s.conn

variable [ConnectionHook H HttpFrame] (cfg : Config HttpFrame H)

/-- The two limits together. -/
def capacity : Nat := cfg.bufferLimits.maxPreRouteBytes + cfg.bufferLimits.maxPostRouteBytes

/-- The check that is not made: the connection reads only while the bytes that it has counted leave
room for those that wait in the read buffer. -/
def Room (s : State H D) : Action D → Prop
  | .turn => 0 < bytesRead s.client s.client.turn.2 →
      s.client.stream.inner.buffer.length + s.conn.cycle.preRouteCumulative +
        s.conn.cycle.postRouteCumulative ≤ capacity cfg
  | .conn _ => True

/-- Whether there is room is decided by counting. -/
instance (s : State H D) : DecidablePred (Room cfg s) := fun a =>
  match a with
  | .turn => inferInstanceAs (Decidable (_ → _))
  | .conn _ => isTrue trivial

/-- What holds of every connection to a client with the reads `reads`. -/
structure Reading (reads : List (ReadResult IoError)) (s : State H D) : Prop where
  conn : Service.Inv cfg s.conn
  plain : s.client.stream.inner.codec.matchers = []
  suffix : s.client.stream.inner.reads <:+ reads

variable {cfg} {reads : List (ReadResult IoError)} {s s' : State H D}

/-- What was read are the bytes of the reads that were taken. -/
lemma bytesRead_eq {p p' : Polling} {pre : List (ReadResult IoError)}
    (reads : p.stream.inner.reads = pre ++ p'.stream.inner.reads) :
    bytesRead p p' = (all pre).length := by
  rw [bytesRead, reads, all_append, List.length_append]
  exact Nat.add_sub_cancel _ _

/-- One read is no larger than the largest. -/
lemma all_le_largest {pre rest : List (ReadResult IoError)} (one : pre.length ≤ 1)
    (suffix : pre ++ rest <:+ reads) : (all pre).length ≤ largest reads := by
  match pre, one with
  | [], _ => exact Nat.zero_le _
  | [r], _ =>
    rw [all_cons, all_nil, List.append_nil]
    exact le_largest (suffix.subset List.mem_cons_self)

/-- The bytes of an item as it was handed out. -/
lemma itemLength_ofIo (o : Option HttpItem) :
    itemLength (.ofIo o) = (handed (some (.ready o))).length := by
  match o with
  | none => rfl
  | some (.error _) => rfl
  | some (.ok _) => rfl

/-- Where an item is awaited the request buffers hold what was counted. -/
lemma heldBytes_awaiting (inv : Service.Inv cfg s.conn) (awaits : awaitsClient s.conn.pc = true) :
    heldBytes s.conn = s.conn.cycle.preRouteCumulative + s.conn.cycle.postRouteCumulative := by
  have here : s.conn.pc = .preRoute ∨ ∃ key dest, s.conn.pc = .joining key dest false := by
    generalize s.conn.pc = pc at awaits
    match pc with
    | .preRoute => exact .inl rfl
    | .joining key dest false => exact .inr ⟨key, dest, rfl⟩
  obtain ⟨pre, post, coll⟩ := inv.running.collecting here
  exact coll.heldBytes_eq

/-- At the start nothing has been read. -/
lemma Reading.init : Reading cfg reads (State.init cfg [] reads : State H D) :=
  ⟨.init cfg, rfl, List.suffix_rfl⟩

/-- A turn of the client. -/
lemma Reading.turn {r client} (inv : Reading cfg reads s) (turn : s.client.turn = (r, client)) :
    ∃ pre, Keeps s.client r client pre ∧ client.stream.inner.reads <:+ reads ∧
      bytesRead s.client client = (all pre).length ∧ (all pre).length ≤ largest reads := by
  obtain ⟨pre, keeps⟩ := turn_keeps inv.plain turn
  have suffix : pre ++ client.stream.inner.reads <:+ reads := keeps.reads ▸ inv.suffix
  exact ⟨pre, keeps, (List.suffix_append pre _).trans suffix, bytesRead_eq keeps.reads,
    all_le_largest keeps.one suffix⟩

/-- Every step keeps what is known of the reads. -/
lemma Reading.step {a : Action D} (inv : Reading cfg reads s) (st : Client.step cfg s a = some s') :
    Reading cfg reads s' := by
  cases step_cases st with
  | waits _ turn _ =>
    obtain ⟨pre, keeps, suffix, -, -⟩ := inv.turn turn
    exact ⟨inv.conn, keeps.plain, suffix⟩
  | takes _ turn move =>
    obtain ⟨pre, keeps, suffix, -, -⟩ := inv.turn turn
    exact ⟨inv.conn.step move, keeps.plain, suffix⟩
  | moves other move =>
    refine ⟨?_, ?_, ?_⟩
    · rw [move_conn]
      exact inv.conn.step move
    · rw [move_client]
      exact inv.plain
    · rw [move_client]
      exact inv.suffix

/-- A turn adds at most what it reads, and all of it to the read buffer. -/
lemma held_turn (inv : Reading cfg reads s) (st : Client.step cfg s .turn = some s') :
    s'.client = s.client.turn.2 ∧ bytesRead s.client s'.client ≤ largest reads ∧
      held s' ≤ held s + bytesRead s.client s'.client ∧
      (0 < bytesRead s.client s'.client → held s' = held s + bytesRead s.client s'.client) := by
  cases step_cases st with
  | @waits r client _ turn unready =>
    obtain ⟨pre, keeps, -, read, size⟩ := inv.turn turn
    have bytes := congrArg List.length keeps.bytes
    rw [handed_unready unready, List.length_append, List.nil_append] at bytes
    refine ⟨by rw [turn], by rw [read]; exact size, ?_, ?_⟩
    · simp only [held, read]
      omega
    · simp only [held, read]
      omega
  | @takes o client conn _ turn move =>
    obtain ⟨pre, keeps, -, read, size⟩ := inv.turn turn
    have bytes := congrArg List.length keeps.bytes
    rw [List.length_append, List.length_append, ← itemLength_ofIo] at bytes
    have taken := heldBytes_clientItem inv.conn move
    refine ⟨by rw [turn], by rw [read]; exact size, ?_, ?_⟩
    · simp only [held, read]
      omega
    · intro some
      exact nomatch keeps.unready (read ▸ some)

/-- Nothing else adds anything. -/
lemma held_conn {a : Service.Action HttpFrame D} (st : Client.step cfg s (.conn a) = some s') :
    held s' ≤ held s := by
  cases step_cases st with
  | moves other move =>
    rw [held, move_conn, move_client]
    exact Nat.add_le_add_left (heldBytes_other other move) _

/-- Where an item is awaited the connection holds what it has counted and what is in the read buffer. -/
lemma held_awaiting (inv : Reading cfg reads s) (st : Client.step cfg s .turn = some s') :
    held s = s.client.stream.inner.buffer.length + s.conn.cycle.preRouteCumulative +
      s.conn.cycle.postRouteCumulative := by
  have awaits : awaitsClient s.conn.pc = true := by
    cases step_cases st with
    | waits awaits _ _ => exact awaits
    | takes awaits _ _ => exact awaits
  rw [held, heldBytes_awaiting inv.conn awaits, Nat.add_assoc]

/-- A step with room keeps within the limits and one read. -/
lemma held_step {a : Action D} (inv : Reading cfg reads s) (room : Room cfg s a)
    (st : Client.step cfg s a = some s')
    (bound : held s ≤ capacity cfg + largest reads) : held s' ≤ capacity cfg + largest reads := by
  cases a with
  | conn a => exact (held_conn st).trans bound
  | turn =>
    obtain ⟨client, size, adds, -⟩ := held_turn inv st
    have holds := held_awaiting inv st
    rw [Room, ← client] at room
    rcases Nat.eq_zero_or_pos (bytesRead s.client s'.client) with nothing | some
    · omega
    · have within := room some
      omega

/-- A connection that reads only while it has room never holds more than the limits and one read. -/
theorem held_le {as : List (Action D)}
    (run : Run (allowed (Room cfg) (Client.step cfg)) (State.init cfg [] reads) as s) :
    held s ≤ capacity cfg + largest reads := by
  have keep : ∀ (s : State H D) a s', (Reading cfg reads s ∧ held s ≤ capacity cfg + largest reads) →
      allowed (Room cfg) (Client.step cfg) s a = some s' →
      Reading cfg reads s' ∧ held s' ≤ capacity cfg + largest reads := by
    intro s a s' inv st
    obtain ⟨room, st⟩ := allowed_eq_some.1 st
    exact ⟨inv.1.step st, held_step inv.1 room st inv.2⟩
  exact (run.invariant keep ⟨.init, Nat.zero_le _⟩).2

/-- Without room a read takes the connection beyond the limits. -/
theorem lt_held {as : List (Action D)} (run : Run (Client.step cfg) (State.init cfg [] reads) as s)
    (st : Client.step cfg s .turn = some s') (full : ¬ Room cfg s .turn) :
    capacity cfg + bytesRead s.client s'.client < held s' := by
  have inv : Reading cfg reads s := run.invariant (fun _ _ _ inv st => inv.step st) .init
  obtain ⟨client, -, -, adds⟩ := held_turn inv st
  rw [Room, ← client, Classical.not_imp] at full
  rw [adds full.1, held_awaiting inv st]
  omega

section examples

open Bytes

/-- A request that comes in two reads. -/
def shortLines : List (ReadResult IoError) :=
  [.data (lit "GET / HTTP/1.1\r\nHo"), .data (lit "st: a\r\n\r\n")]

/-- With turns up to its end, the connection holds the request and no more. -/
theorem held_le_shortLines :
    ∃ s : State HttpDeriverHook Nat,
      Run (allowed (Room httpConfig) (Client.step httpConfig)) (State.init httpConfig [] shortLines)
        (List.replicate 8 .turn) s ∧ held s = 27 ∧ held s ≤ capacity httpConfig + largest shortLines := by
  obtain ⟨s, run, holds⟩ : ∃ s : State HttpDeriverHook Nat,
      Run (allowed (Room httpConfig) (Client.step httpConfig)) (State.init httpConfig [] shortLines)
        (List.replicate 8 .turn) s ∧ held s = 27 := ⟨_, .of_exec rfl, rfl⟩
  exact ⟨s, run, holds, held_le run⟩

/-- A line without an end. -/
def longLine : List (ReadResult IoError) := List.replicate 4 (.data (List.replicate 64 97))

/-- It is read as far as it goes. -/
theorem not_held_le_longLine :
    ¬ ∀ (s : State HttpDeriverHook Nat) as reads,
      Run (Client.step httpConfig) (State.init httpConfig [] reads) as s →
      held s ≤ capacity httpConfig + largest reads := by
  intro h
  obtain ⟨s, run, holds⟩ : ∃ s : State HttpDeriverHook Nat,
      Run (Client.step httpConfig) (State.init httpConfig [] longLine) (List.replicate 5 .turn) s ∧
        held s = 256 := ⟨_, .of_exec rfl, rfl⟩
  have le := h s _ _ run
  rw [holds] at le
  exact absurd le (by decide)

end examples

end Client

end Http

end Railscale
