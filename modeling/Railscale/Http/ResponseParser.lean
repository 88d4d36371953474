import Railscale.Http.ResponseHead
import Railscale.Lib.Framed

/-!
# The response parser

Model of `carriage/src/http/response_parser.rs`: `ResponseFrameStream` emits the frames and body pieces
of one response and ends when the codec says that the response is complete, or with its transport.
`ResponseFrameStream.stops` says where it ends and with what, in terms of the bytewise run of
the codec, so that nothing after it depends on how the transport was cut into reads.
-/

namespace Railscale.Http

open Bytes AsyncStream ReadResult

/-- Rust `ResponseFrameStream`. -/
structure ResponseFrameStream where
  inner : FramedRead ResponseCodec IoError
  done : Bool

/-- An item of the codec as an item of the stream. -/
def ResponseCodecItem.parsed : ResponseCodecItem → ParsedData HttpFrame
  | .frame f => .parsed f
  | .body bs => .passthrough bs

/-- The items of the response stream. -/
abbrev ResponseItem := Except IoError (ParsedData HttpFrame)

namespace ResponseFrameStream

/-- What the stream makes of an item of the inner stream. -/
def onItem (s : ResponseFrameStream) (o : Option (Except IoError ResponseCodecItem))
    (inner : FramedRead ResponseCodec IoError) : Option ResponseItem × ResponseFrameStream :=
  match o with
  | some (.ok item) =>
    (some (.ok item.parsed), { inner := inner, done := s.done || inner.codec.isResponseComplete })
  | some (.error e) => (some (.error e), { s with inner := inner })
  | none => (none, { s with inner := inner })

/-- Rust `ResponseFrameStream::poll_next`. -/
def poll (s : ResponseFrameStream) : Poll (Option ResponseItem) × ResponseFrameStream :=
  if s.done then (.ready none, s)
  else
    match s.inner.poll with
    | (.ready o, inner) => (.ready (s.onItem o inner).1, (s.onItem o inner).2)
    | (.pending, inner) => (.pending, { s with inner := inner })

/-- Rust `impl Stream for ResponseFrameStream`. -/
instance : AsyncStream ResponseFrameStream ResponseItem := ⟨poll⟩

end ResponseFrameStream

/-- Rust `ResponseParser::parse` on a transport. -/
def ResponseParser.parse (reads : List (ReadResult IoError)) : ResponseFrameStream :=
  { inner := .new .new reads, done := false }

namespace ResponseFrameStream

/-! ## Awaiting the next item -/

/-- Behind its end the stream gives `None`. -/
lemma next_done {s : ResponseFrameStream} (d : s.done = true) : Next s none s :=
  .ready (by show poll s = _; simp [poll, d])

/-- A turn of the loop without a result does not change what comes next. -/
lemma next_iff_of_turn {s s' : ResponseFrameStream} {o inner1} (d : s.done = false)
    (h : s.inner.turn = (none, inner1)) : Next s o s' ↔ Next { s with inner := inner1 } o s' := by
  obtain ⟨inner, done⟩ := s
  cases d
  apply next_congr
  show poll _ = poll _
  have p : inner.poll = inner1.poll := by rw [FramedRead.poll_eq, h]
  simp only [poll, Bool.false_eq_true, if_false, p]
  rcases inner1.poll with ⟨_ | o, inner⟩
  · rfl
  · rcases o with _ | _ | item <;> rfl

/-- A pending poll does not change what comes next. -/
lemma next_iff_of_pending {s s' : ResponseFrameStream} {o inner1} (d : s.done = false)
    (h : s.inner.turn = (some .pending, inner1)) :
    Next s o s' ↔ Next { s with inner := inner1 } o s' := by
  apply next_pending
  show poll s = _
  have p : s.inner.poll = (.pending, inner1) := by rw [FramedRead.poll_eq, h]
  simp [poll, d, p]

/-- A turn with a result gives what the stream makes of it. -/
lemma next_of_turn {s : ResponseFrameStream} {o inner1} (d : s.done = false)
    (h : s.inner.turn = (some (.ready o), inner1)) :
    Next s (s.onItem o inner1).1 (s.onItem o inner1).2 := by
  refine .ready ?_
  show poll s = _
  have p : s.inner.poll = (.ready o, inner1) := by rw [FramedRead.poll_eq, h]
  simp [poll, d, p]

/-! ## Where the stream ends -/

/-- The indivisible parts of an item of the stream. -/
def itemAtoms : ParsedData HttpFrame → List (HttpFrame ⊕ UInt8)
  | .parsed f => [.inl f]
  | .passthrough bs => bs.map .inr

/-- An item of the stream has the parts of the item of the codec. -/
lemma itemAtoms_parsed (i : ResponseCodecItem) : itemAtoms i.parsed = ResponseCodec.atoms i := by
  cases i <;> rfl

/-- The bytewise run of the codec over the buffer and some reads. -/
def fed (s : ResponseFrameStream) (pre : List (ReadResult IoError)) :
    Decoder.Fed ResponseCodec IoError (HttpFrame ⊕ UInt8) :=
  Decoder.feedAll ResponseCodec.atoms s.inner.codec (s.inner.buffer ++ all pre)

/-- The items are what the codec makes of the reads `pre`, and the reads `post` are left. -/
structure Took (s : ResponseFrameStream) (is : List (ParsedData HttpFrame))
    (pre post : List (ReadResult IoError)) : Prop where
  reads : s.inner.reads = pre ++ post
  proper : ∀ r ∈ pre, r.Proper
  out : is.flatMap itemAtoms = (s.fed pre).out

/-- How a loop over the stream ends: with a complete response, an error of the codec, an error of the
transport, or the end of the transport. -/
inductive Ends (s : ResponseFrameStream) :
    List (ParsedData HttpFrame) → Option IoError → ResponseFrameStream → Prop where
  | complete {is s' pre post} :
    Took s is pre post →
    (s.fed pre).err = none →
    (s.fed pre).codec.bodyState = .done →
    (∀ p q, pre = p ++ q → q ≠ [] → (s.fed p).codec.bodyState ≠ .done) →
    s'.inner = { s.inner with
      codec := (s.fed pre).codec, buffer := (s.fed pre).rest, isReadable := true, reads := post } →
    Ends s is none s'
  | failed {is e s' pre post} :
    Took s is pre post →
    (s.fed pre).err = some e →
    Ends s is (some e) s'
  | readError {is e s' pre post} :
    Took s is pre (.error e :: post) →
    (s.fed pre).err = none →
    Ends s is (some e) s'
  | eof {is s' pre post} :
    Took s is pre post →
    (s.fed pre).err = none →
    (s.fed pre).codec.bodyState ≠ .done →
    (post = [] ∨ ∃ rs, post = .data [] :: rs) →
    s'.inner.eof = true →
    Ends s is none s'

/-- The stream has not ended and its codec has more to say. -/
structure Going (s : ResponseFrameStream) : Prop where
  done : s.done = false
  live : s.inner.Live
  notDone : s.inner.codec.bodyState ≠ .done

/-- The codec wants more bytes. -/
def Stuck (s : ResponseFrameStream) : Prop :=
  s.inner.codec.decode s.inner.buffer = (.ok none, s.inner.codec, s.inner.buffer)

/-- A codec that wants more bytes gives nothing. -/
lemma Stuck.fed {s : ResponseFrameStream} (stuck : Stuck s) :
    s.fed [] = ⟨[], s.inner.codec, s.inner.buffer, none⟩ := by
  rw [ResponseFrameStream.fed, all_nil, List.append_nil]
  exact ResponseCodec.incremental.none_feed stuck

/-- An item at the front. -/
lemma Ends.item {s s1 s' : ResponseFrameStream} {i : ResponseCodecItem} {is r}
    (ends : Ends s1 is r s')
    (more : ∀ p, s.fed p = (s1.fed p).after (ResponseCodec.atoms i))
    (inner : s1.inner = { s.inner with codec := s1.inner.codec, buffer := s1.inner.buffer }) :
    Ends s (i.parsed :: is) r s' := by
  have reads : s.inner.reads = s1.inner.reads := by rw [inner]
  have took : ∀ {is pre post}, Took s1 is pre post → Took s (i.parsed :: is) pre post := by
    intro is pre post h
    refine ⟨reads.trans h.reads, h.proper, ?_⟩
    rw [List.flatMap_cons, itemAtoms_parsed, h.out, more, Decoder.Fed.after_out]
  cases ends with
  | complete h err done least inner' =>
    refine .complete (took h) ?_ ?_ ?_ ?_
    · rw [more]; exact err
    · rw [more]; exact done
    · intro p q e ne
      rw [more]
      exact least p q e ne
    · rw [more, inner', inner]
      rfl
  | failed h err =>
    refine .failed (took h) ?_
    rw [more]; exact err
  | readError h err =>
    refine .readError (took h) ?_
    rw [more]; exact err
  | eof h err notDone left eof =>
    refine .eof (took h) ?_ ?_ left eof
    · rw [more]; exact err
    · rw [more]; exact notDone

/-- A read at the front. -/
lemma Ends.read {s s1 s' : ResponseFrameStream} {r0 rs is r} (going : Going s) (stuck : Stuck s)
    (reads : s.inner.reads = r0 :: rs) (proper : r0.Proper)
    (inner : s1.inner = { s.inner with
      buffer := s.inner.buffer ++ r0.bytes, isReadable := s1.inner.isReadable, reads := rs })
    (ends : Ends s1 is r s') : Ends s is r s' := by
  have more : ∀ p, s.fed (r0 :: p) = s1.fed p := by
    intro p
    rw [fed, fed, inner, all_cons, List.append_assoc]
  have took : ∀ {is pre post}, Took s1 is pre post → Took s is (r0 :: pre) post := by
    intro is pre post h
    have left : rs = pre ++ post := by
      rw [← h.reads, inner]
    refine ⟨?_, ?_, ?_⟩
    · rw [reads, left]
      rfl
    · intro r hr
      rcases List.mem_cons.1 hr with rfl | hr
      · exact proper
      · exact h.proper r hr
    · rw [h.out, more]
  cases ends with
  | complete h err done least inner' =>
    refine .complete (took h) ?_ ?_ ?_ ?_
    · rw [more]; exact err
    · rw [more]; exact done
    · intro p q e ne
      -- before the read the codec was stuck, so no shorter prefix completes the response
      cases p with
      | nil =>
        rw [stuck.fed]
        exact going.notDone
      | cons r p =>
        obtain ⟨rfl, tail⟩ := List.cons.inj e
        rw [more]
        exact least p q tail ne
    · rw [more, inner', inner]
  | failed h err =>
    refine .failed (took h) ?_
    rw [more]; exact err
  | readError h err =>
    refine .readError (took h) ?_
    rw [more]; exact err
  | eof h err notDone left eof =>
    refine .eof (took h) ?_ ?_ left eof
    · rw [more]; exact err
    · rw [more]; exact notDone

/-- A stream ends in one of the four ways. -/
def Stops (s : ResponseFrameStream) : Prop := ∃ is r s', Collect s is r s' ∧ Ends s is r s'

/-- Two streams that give the same end in the same way. -/
lemma Stops.congr {s s1 : ResponseFrameStream} (next : ∀ o s', Next s o s' ↔ Next s1 o s')
    (ends : ∀ is r s', Ends s1 is r s' → Ends s is r s') (stops : Stops s1) : Stops s := by
  obtain ⟨is, r, s', coll, e⟩ := stops
  exact ⟨is, r, s', (Collect.congr next).2 coll, ends is r s' e⟩

/-- At the end of the transport a codec that wants more bytes has nothing more to say. -/
lemma decodeEof_stuck {s : ResponseFrameStream} (stuck : Stuck s) :
    ∃ c b, s.inner.codec.decodeEof s.inner.buffer = (.ok none, c, b) := by
  cases hs : s.inner.codec.bodyState with
  | untilEof =>
    by_cases ne : s.inner.buffer = []
    · rw [ne]
      simp [ResponseCodec.decodeEof, hs]
    · have d := ResponseCodec.decode_untilEof hs ne
      rw [stuck] at d
      cases d
  | done => simp [ResponseCodec.decodeEof, hs]
  | headers => exact ⟨_, _, by rw [ResponseCodec.decodeEof, hs]; exact stuck⟩
  | fixedLength n pos => exact ⟨_, _, by rw [ResponseCodec.decodeEof, hs]; exact stuck⟩
  | chunked st => exact ⟨_, _, by rw [ResponseCodec.decodeEof, hs]; exact stuck⟩

/-- A stream whose transport ends while the codec wants more bytes ends. -/
lemma Stops.of_eof {s : ResponseFrameStream} {post rs} (going : Going s) (stuck : Stuck s)
    (reads : s.inner.reads = post) (left : post = [] ∨ ∃ rs, post = .data [] :: rs)
    (turn : s.inner.turn =
      (none, { s.inner with eof := true, isReadable := true, reads := rs })) : Stops s := by
  obtain ⟨c, b, d⟩ := decodeEof_stuck stuck
  have ended := FramedRead.turn_ended
    (s := { s.inner with eof := true, isReadable := true, reads := rs }) going.live.noError rfl rfl d
  have next := (next_iff_of_turn going.done turn).2
    (next_of_turn (s := { s with inner := { s.inner with eof := true, isReadable := true, reads := rs } })
      going.done ended)
  have took : Took s [] [] post := ⟨reads, nofun, by rw [stuck.fed]; rfl⟩
  refine ⟨[], none, _, .none next, .eof took ?_ ?_ left rfl⟩
  · rw [stuck.fed]
  · rw [stuck.fed]
    exact going.notDone

/-- A stream with bytes to decode decodes until it is stuck, and what a stuck stream does it does. -/
lemma Stops.of_readable {reads : List (ReadResult IoError)}
    (stuckStops : ∀ s, Going s → Stuck s → s.inner.reads = reads → Stops s)
    {s : ResponseFrameStream} (going : Going s) (readable : s.inner.isReadable = true)
    (hr : s.inner.reads = reads) : Stops s := by
  obtain ⟨is, c', b', r, dr⟩ :=
    Decoder.Drain.total ResponseCodec.incremental s.inner.codec s.inner.buffer
  generalize hc : s.inner.codec = c at dr
  generalize hb : s.inner.buffer = b at dr
  induction dr generalizing s with
  | none d =>
    obtain ⟨rfl, rfl⟩ := ResponseCodec.incremental.none_same d
    subst hc hb
    exact stuckStops s going d hr
  | error d =>
    subst hc hb
    have next := next_of_turn going.done (FramedRead.turn_error going.live readable d)
    have feed := (ResponseCodec.incremental.error_feed d).2
    have nil : s.fed [] = _ := (congrArg _ (List.append_nil _)).trans feed
    have took : Took s [] [] reads := ⟨hr, nofun, by rw [nil]; rfl⟩
    exact ⟨[], _, _, .error next, .failed took (by rw [nil])⟩
  | @some c b i c1 b1 is c' b' r d dr ih =>
    subst hc hb
    have next := next_of_turn going.done (FramedRead.turn_item going.live readable d)
    rw [onItem, going.done, Bool.false_or] at next
    obtain ⟨e, -, cut, feed⟩ := ResponseCodec.incremental.some_feed d
    have more : ∀ p, s.fed p =
        (Decoder.feedAll ResponseCodec.atoms c1 (b1 ++ all p)).after (ResponseCodec.atoms i) := by
      intro p
      rw [fed, cut, List.append_assoc]
      exact Decoder.feedAll_item _ feed _
    by_cases complete : c1.bodyState = .done
    -- the stream ends with this item, though the buffer may hold more
    · have wait : Decoder.feedAll (ε := IoError) ResponseCodec.atoms c1 b1 = ⟨[], c1, b1, none⟩ :=
        Decoder.feedAll_wait _ fun p _ => ResponseCodec.decode_done complete p
      have nil : s.fed [] = ⟨ResponseCodec.atoms i, c1, b1, none⟩ := by
        rw [more, all_nil, List.append_nil, wait, Decoder.Fed.after, List.append_nil]
      have last : Next _ (none : Option ResponseItem) _ := next_done
        (s := { inner := { s.inner with codec := c1, buffer := b1 }, done := c1.isResponseComplete })
        (by simp [ResponseCodec.isResponseComplete, complete])
      have took : Took s [i.parsed] [] reads :=
        ⟨hr, nofun, by rw [nil]; simp [itemAtoms_parsed]⟩
      refine ⟨[i.parsed], none, _, .item next (.none last), .complete took ?_ ?_ ?_ ?_⟩
      · rw [nil]
      · rw [nil]
        exact complete
      · intro p q e ne
        exact absurd (List.append_eq_nil_iff.1 e.symm).2 ne
      · rw [nil, ← hr, ← readable]
    · have incomplete : c1.isResponseComplete = false := by
        simpa [ResponseCodec.isResponseComplete] using complete
      rw [incomplete] at next
      obtain ⟨is, r, s', coll, ends⟩ := ih
        (s := { inner := { s.inner with codec := c1, buffer := b1 }, done := false })
        ⟨rfl, ⟨going.live.noError, going.live.noEof⟩, complete⟩ readable hr rfl rfl
      exact ⟨_, r, s', .item next coll, ends.item more rfl⟩

/-- The loop over a response stream ends in one of the four ways, whatever the transport does. -/
theorem stops {s : ResponseFrameStream} (going : Going s) (stuck : Stuck s) : Stops s := by
  generalize hr : s.inner.reads = reads
  induction reads generalizing s with
  | nil =>
    have waiting : s.inner.Waiting := fun _ => stuck
    exact .of_eof going stuck hr (.inl rfl) (FramedRead.turn_eof going.live waiting hr)
  | cons r rs ih =>
    have waiting : s.inner.Waiting := fun _ => stuck
    cases r with
    | pending =>
      have turn := FramedRead.turn_pending going.live waiting hr
      refine Stops.congr (fun o s' => next_iff_of_pending going.done turn)
        (fun is r s' => Ends.read going stuck hr trivial ?_) (ih ?_ ?_ rfl)
      · simp [bytes]
      · exact ⟨going.done, ⟨going.live.noError, going.live.noEof⟩, going.notDone⟩
      · exact stuck
    | data d =>
      cases d with
      | nil => exact .of_eof going stuck hr (.inr ⟨rs, rfl⟩) (FramedRead.turn_readNothing going.live waiting hr)
      | cons x d =>
        have ne : x :: d ≠ [] := List.cons_ne_nil x d
        have turn := FramedRead.turn_data going.live waiting hr ne
        refine Stops.congr (fun o s' => next_iff_of_turn going.done turn)
          (fun is r s' => Ends.read going stuck hr ne ?_)
          (.of_readable (fun s going stuck hr => ih going stuck hr) ?_ rfl rfl)
        · simp [bytes]
        · exact ⟨going.done, ⟨going.live.noError, going.live.noEof⟩, going.notDone⟩
    | error e =>
      have turn := FramedRead.turn_readError going.live waiting hr
      have next := next_of_turn going.done turn
      have took : Took s [] [] (.error e :: rs) := ⟨hr, List.forall_mem_nil _, by rw [stuck.fed]; rfl⟩
      exact ⟨[], some e, _, .error next, .readError took (by rw [stuck.fed])⟩

end ResponseFrameStream

end Railscale.Http
