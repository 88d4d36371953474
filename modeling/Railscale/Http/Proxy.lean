import Railscale.Core.Proxy
import Railscale.Http.CycleItems
import Railscale.Http.Boundary
import Railscale.Http.ResponseMessage
import Railscale.Http.Upstream

/-!
# HTTP exchanges on the wire

`Proxy` with `HttpParser` and `ResponseParser`, from the bytes that the client and the destinations send to the bytes
that they get. A `Dialogue` is a well-formed request and the response to it, and it is an `Exchange` in one way only:
the request stream gives the lines of the head one by one and the empty line with the body, when the request ends with
the read that completes its head, and the response stream gives the lines of the head and the body in pieces. However
the bytes are cut into reads otherwise, and whatever is pending in between, a connection serves its dialogues
(`serves_dialogues`).
-/

namespace Railscale.Http

open Bytes AsyncStream ReadResult Service

/-! ## What a stream gives for a request -/

namespace HttpFrameStream

open HttpStreamingCodec

/-- The frames of some lines of a head. -/
def lineFrames (c : HttpStreamingCodec) : List Bytes → List HttpFrame
  | [] => []
  | l :: ls => c.frameOf l :: lineFrames { c with firstLine := false } ls

/-- The stream gives the rest of a head, its lines being `ls`, with the empty line at the end. -/
def GivesHead (s : HttpFrameStream) (ls : List Bytes) : Prop :=
  ∃ bs s', Collect s ((lineFrames s.inner.codec ls).map .parsed ++ [.passthrough (crlf ++ bs)]) none s'

/-- The stream gives the lines of a head one by one, and the empty line with what is there of the body. -/
lemma givesHead {n : Nat} {s : HttpFrameStream} {ls : List Bytes} {rest : Bytes}
    (hn : ls.length + s.inner.reads.length < n) (inHead : InHead s) (takes : Takes s.inner.codec ls)
    (e : s.inner.buffer ++ all s.inner.reads = unlines ls ++ crlf ++ rest) : GivesHead s ls := by
  induction n generalizing s ls with
  | zero => omega
  | succ n ih =>
    rcases line_or_noCrlf s.inner.buffer with nc | ⟨l, b, hl, buffer⟩
    · -- the decoder waits, so the stream reads
      have lt := length_lt_of_noCrlf nc e
      have waiting : s.inner.Waiting := fun _ => decode_noCrlf nc
      cases reads : s.inner.reads with
      | nil =>
        have len := congrArg List.length e
        simp only [reads, all_nil, List.append_nil, List.length_append] at len lt
        omega
      | cons r rs =>
        have proper := inHead.proper
        rw [reads] at hn e proper
        have later : ∀ r' ∈ rs, r'.Proper := fun r' hr' => proper r' (List.mem_cons_of_mem _ hr')
        have less : ls.length + rs.length < n := by
          simp only [List.length_cons] at hn
          omega
        cases r with
        | pending =>
          have turn := FramedRead.turn_pending inHead.live waiting reads
          obtain ⟨bs, s', coll⟩ := ih (s := { s with inner := { s.inner with isReadable := false, reads := rs } })
            less
            { inHead with
              live := ⟨inHead.live.noError, inHead.live.noEof⟩
              waiting := fun _ => nc
              proper := later }
            takes e
          exact ⟨bs, s', (Collect.congr fun o s' => next_iff_of_pending inHead.headersDone turn).2 coll⟩
        | data d =>
          have turn := FramedRead.turn_data inHead.live waiting reads (proper _ List.mem_cons_self)
          have e' : s.inner.buffer ++ d ++ all rs = unlines ls ++ crlf ++ rest := by
            rw [List.append_assoc]
            exact e
          obtain ⟨bs, s', coll⟩ := ih
            (s := { s with inner := { s.inner with buffer := s.inner.buffer ++ d, isReadable := true, reads := rs } })
            less { inHead with live := ⟨inHead.live.noError, inHead.live.noEof⟩, waiting := nofun, proper := later }
            takes e'
          exact ⟨bs, s', (Collect.congr fun o s' => next_iff_of_turn inHead.headersDone turn).2 coll⟩
        | error err => exact (proper _ List.mem_cons_self).elim
    · have readable : s.inner.isReadable = true := by
        by_contra h
        have nc := inHead.waiting (by simpa using h)
        rw [buffer] at nc
        exact nc ⟨l, b, by simp⟩
      rw [buffer] at e
      cases ls with
      | nil =>
        have e' : l ++ cr :: lf :: (b ++ all s.inner.reads) = [] ++ cr :: lf :: rest := by simpa using e
        obtain ⟨rfl, -⟩ := line_unique hl NoCrlf.nil e'
        have decode := decode_empty inHead.done b
        rw [← List.nil_append (cr :: lf :: b), ← buffer] at decode
        have next := next_of_turn inHead.headersDone (FramedRead.turn_item inHead.live readable decode)
        simp only [onHead, HttpFrame.isEndOfHeaders, HttpFrame.endOfHeaders, beq_self_eq_true, if_true] at next
        exact ⟨b, _, .item next (.none (next_end rfl rfl inHead.yieldedNone))⟩
      | cons l' ls =>
        have line := takes.line l' List.mem_cons_self
        have e' : l ++ cr :: lf :: (b ++ all s.inner.reads) = l' ++ cr :: lf :: (unlines ls ++ crlf ++ rest) := by
          simpa using e
        obtain ⟨rfl, rest_eq⟩ := line_unique hl line.noCrlf e'
        have noFold : ¬ (s.inner.codec.firstLine = false ∧ IsFold l) := by
          rintro ⟨first, fold⟩
          have nf := takes.noFold
          rw [first] at nf
          exact nf l List.mem_cons_self fold
        have decode := decode_line inHead.done line.ne line.noCrlf b
        rw [if_neg noFold, ← buffer] at decode
        have next := next_of_turn inHead.headersDone (FramedRead.turn_item inHead.live readable decode)
        simp only [onHead, isEndOfHeaders_frameOf] at next
        obtain ⟨bs, s', coll⟩ := ih
          (s := { s with inner := { s.inner with codec := { s.inner.codec with firstLine := false }, buffer := b } })
          (by simp only [List.length_cons] at hn ⊢; omega)
          { inHead with live := ⟨inHead.live.noError, inHead.live.noEof⟩, waiting := by simp [readable] }
          (takes.tail rfl) rest_eq
        exact ⟨bs, s', .item next coll⟩

/-- Behind the first line all lines are headers. -/
lemma lineFrames_later {c : HttpStreamingCodec} (plain : c.matchers = []) (later : c.firstLine = false)
    (ls : List Bytes) :
    lineFrames c ls = ls.map (headerOf []) := by
  have same : { c with firstLine := false } = c := by rw [← later]
  induction ls with
  | nil => rfl
  | cons l ls ih =>
    rw [lineFrames, same, ih, List.map_cons, frameOf, later, headerOf, plain]
    rfl

/-- The first line is the request line. -/
lemma lineFrames_first {c : HttpStreamingCodec} (plain : c.matchers = []) (first : c.firstLine = true) (l : Bytes)
    (ls : List Bytes) : (lineFrames c (l :: ls)).map ParsedData.parsed = headItems [] l ls := by
  rw [lineFrames, lineFrames_later (c := { c with firstLine := false }) plain rfl, frameOf, first, headItems,
    List.map_cons, List.map_map]
  rfl

/-- The items of a head are its lines. -/
lemma raw_headItems (l : Bytes) (ls : List Bytes) :
    (headItems [] l ls).flatMap ParsedData.raw = unlines (l :: ls) := by
  rw [headItems, List.flatMap_cons, unlines_cons, List.flatMap_map]
  rfl

/-- The items of a request. -/
def requestItems (r : Request) : List (ParsedData HttpFrame) :=
  headItems [] r.head.startLine r.head.headers ++ [.passthrough (crlf ++ r.body)]

/-- A cycle in which the request ends with the read that completes its head. -/
lemma Ready.gives {s : HttpFrameStream} (ready : Ready s) (r : Request) {rest : Bytes}
    (e : all s.inner.reads = r.bytes ++ rest) (aligned : all (upto r.head.bytes.length s.inner.reads).1 = r.bytes) :
    ∃ s', Collect s (requestItems r) none s' ∧ Ended s' ∧
      s'.inner.reads = (upto r.head.bytes.length s.inner.reads).2 := by
  have e' : all s.inner.reads = r.head.bytes ++ (r.body ++ rest) := by
    rw [e, Request.bytes, List.append_assoc]
  obtain ⟨is, s', coll, ended, raw, left⟩ := ready.cycle r.head e'
  -- the items of the cycle: those of the head, and the empty line with the rest
  have items : ∃ bs, is = headItems [] r.head.startLine r.head.headers ++ [.passthrough (crlf ++ bs)] := by
    cases ready with
    | fresh inHead first buffer =>
      obtain ⟨bs, s1, coll'⟩ :=
        givesHead (Nat.lt_succ_self _) inHead (Head.takes r.head first) (by rw [buffer]; exact e')
      rw [Head.lines, lineFrames_first inHead.matchers first] at coll'
      exact ⟨bs, (coll.unique coll').1⟩
    | again ended0 =>
      have inHead := ended0.inHead_reset
      have buffer : (reset s).inner.buffer = [] := ended0.buffer
      obtain ⟨bs, s1, coll'⟩ := givesHead (Nat.lt_succ_self _) inHead (Head.takes r.head rfl) (by rw [buffer]; exact e')
      rw [Head.lines, lineFrames_first inHead.matchers rfl] at coll'
      cases coll' with
      | item next coll' =>
        have next := next_of_reset ended0.headersDone ended0.buffer ended0.yieldedNone next (by rintro _ ⟨⟩)
        exact ⟨bs, (coll.unique (.item next coll')).1⟩
  obtain ⟨bs, rfl⟩ := items
  have body : bs = r.body := by
    rw [aligned, List.flatMap_append, raw_headItems, List.flatMap_singleton, Request.bytes, Head.bytes, ParsedData.raw,
      List.append_assoc] at raw
    exact List.append_cancel_left (List.append_cancel_left raw)
  subst body
  exact ⟨s', coll, ended, left⟩

/-! ## The end of the client -/

/-- A stream at the end of its transport, between two items of a head. -/
structure AtEnd (s : HttpFrameStream) : Prop where
  headersDone : s.headersDone = false
  noError : s.inner.hasErrored = false
  eof : s.inner.eof = true
  idle : s.inner.isReadable = false
  reads : s.inner.reads = []

/-- A stream at the end of its transport is over. -/
lemma AtEnd.dry {s : HttpFrameStream} (atEnd : AtEnd s) : Dry s := by
  refine .of_stays ?_
  have turn : s.inner.turn = (some (.ready none), s.inner) := by
    simp [FramedRead.turn, atEnd.noError, atEnd.idle, FramedRead.read, atEnd.reads, FramedRead.readZero, atEnd.eof]
  have poll : s.inner.poll = (.ready none, s.inner) := by rw [FramedRead.poll_eq, turn]
  have same : { s with inner := s.inner } = s := rfl
  show HttpFrameStream.poll s = _
  rw [HttpFrameStream.poll, if_neg (by rw [atEnd.headersDone]; exact Bool.false_ne_true), pollInner, poll]
  exact congrArg (Poll.ready none, ·) same

/-- A stream inside a head of which nothing comes. -/
lemma InHead.dry {s : HttpFrameStream} (inHead : InHead s) (buffer : s.inner.buffer = [])
    (nothing : all s.inner.reads = []) :
    Dry s := by
  have waiting : s.inner.Waiting := fun _ => decode_noCrlf (buffer ▸ NoCrlf.nil)
  generalize hr : s.inner.reads = reads at nothing
  induction reads generalizing s with
  | nil =>
    have turn := FramedRead.turn_eof inHead.live waiting hr
    have decode : Decoder.decodeEof (ε := IoError) s.inner.codec s.inner.buffer =
        (.ok none, s.inner.codec, s.inner.buffer) := by
      show s.inner.codec.decodeEof s.inner.buffer = _
      rw [buffer, HttpStreamingCodec.decodeEof, decode_noCrlf NoCrlf.nil, ite_self]
    have ended := FramedRead.turn_ended (s := { s.inner with eof := true, isReadable := true })
      inHead.live.noError rfl rfl decode
    have next := (next_iff_of_turn inHead.headersDone turn).2
      (next_of_turn (s := { s with inner := { s.inner with eof := true, isReadable := true } })
        inHead.headersDone ended)
    exact .of_next next (AtEnd.dry ⟨inHead.headersDone, inHead.live.noError, rfl, rfl, hr⟩)
  | cons r rs ih =>
    have proper := inHead.proper
    rw [hr] at proper
    rw [all_cons] at nothing
    obtain ⟨none, nothing⟩ := List.append_eq_nil_iff.1 nothing
    have later : ∀ r' ∈ rs, r'.Proper := fun r' hr' => proper r' (List.mem_cons_of_mem _ hr')
    cases r with
    | pending =>
      have turn := FramedRead.turn_pending inHead.live waiting hr
      have dry := ih (s := { s with inner := { s.inner with isReadable := false, reads := rs } })
        { inHead with
          live := ⟨inHead.live.noError, inHead.live.noEof⟩
          waiting := fun _ => buffer ▸ NoCrlf.nil
          proper := later }
        buffer (fun _ => decode_noCrlf (buffer ▸ NoCrlf.nil)) rfl nothing
      obtain ⟨s', next, dry⟩ := dry.next
      exact .of_next ((next_iff_of_pending inHead.headersDone turn).2 next) dry
    | data d => exact absurd none (proper _ List.mem_cons_self)
    | error err => exact (proper _ List.mem_cons_self).elim

/-- A stream behind its last cycle. -/
lemma Ready.dry {s : HttpFrameStream} (ready : Ready s) (nothing : all s.inner.reads = []) : Dry s := by
  cases ready with
  | fresh inHead _ buffer => exact inHead.dry buffer nothing
  | again ended =>
    obtain ⟨s', next, dry⟩ := (ended.inHead_reset.dry ended.buffer nothing).next
    exact .of_next (next_of_reset ended.headersDone ended.buffer ended.yieldedNone next (by rintro _ ⟨⟩)) dry

/-- What the stream gives for requests that end with the reads that complete their heads. -/
lemma Ready.gives_requests {s : HttpFrameStream} (ready : Ready s) {rs : List Request}
    (e : all s.inner.reads = rs.flatMap Request.bytes) (aligned : Aligned rs s.inner.reads) :
    Gives s (rs.flatMap fun r => (requestItems r).map (fun i => some (.ok i)) ++ [none]) := by
  induction rs generalizing s with
  | nil => exact .dry (ready.dry e)
  | cons r rs ih =>
    obtain ⟨here, later⟩ := aligned
    rw [List.flatMap_cons] at e
    obtain ⟨s', coll, ended, left⟩ := ready.gives r e here
    have e' : all s'.inner.reads = rs.flatMap Request.bytes := by
      have cut := congrArg all (upto_append r.head.bytes.length s.inner.reads)
      rw [all_append, here, e, ← left] at cut
      exact List.append_cancel_left cut
    rw [List.flatMap_cons, List.append_assoc]
    exact .of_collect coll (ih (.again ended) e' (left ▸ later))

end HttpFrameStream

/-! ## What a stream gives for a response -/

namespace ResponseFrameStream

/-- What is known of a stream behind what it gives. -/
def Behind (s : ResponseFrameStream) : Option ResponseItem → Prop
  | none => s.done = true ∨ s.inner.eof = true
  | some (.ok _) => s.inner.hasErrored = false
  | some (.error _) => True

/-- What is known behind every item. -/
lemma Behind.of_next {s s' : ResponseFrameStream} {o : Option ResponseItem} (ok : s.inner.hasErrored = false)
    (next : Next s o s') : Behind s' o := by
  induction next with
  | @ready s o s' poll =>
    have poll : ResponseFrameStream.poll s = (.ready o, s') := poll
    rw [ResponseFrameStream.poll] at poll
    split at poll
    · rename_i done
      cases poll
      exact .inl done
    · split at poll
      · rename_i o' inner here
        cases poll
        rcases o' with _ | e | i
        · exact .inr ((FramedRead.poll_end_flags ok here).1 rfl)
        · trivial
        · exact (FramedRead.poll_item_flags here).1
      · cases poll
  | @pending s s1 o s' poll _ ih =>
    refine ih ?_
    have poll : ResponseFrameStream.poll s = (.pending, s1) := poll
    rw [ResponseFrameStream.poll] at poll
    split at poll
    · cases poll
    · split at poll
      · cases poll
      · rename_i inner here
        cases poll
        exact (FramedRead.poll_end_flags ok here).2 rfl

/-- A stream that has just ended has decoded its response, or is at the end of its transport. -/
lemma done_or_eof {s s' : ResponseFrameStream} {is : List (ParsedData HttpFrame)} (ok : s.inner.hasErrored = false)
    (coll : Collect s is none s') : s'.done = true ∨ s'.inner.eof = true := by
  generalize hr : (none : Option IoError) = r at coll
  induction coll with
  | none next => exact Behind.of_next ok next
  | error _ => cases hr
  | item next _ ih => exact ih (Behind.of_next ok next) hr

end ResponseFrameStream

/-! ## Responses -/

/-- A response whose body is encoded in the framing that its head says. -/
structure Reply where
  lines : List Bytes
  body : Bytes
  lines_ok : HeadLines lines
  body_ok : Encoded (framingOf lines) body

namespace Reply

/-- The frames of the head. -/
def frames (r : Reply) : List HttpFrame := ResponseCodec.headFrames r.lines ++ [.endOfHeaders]

/-- The response on the wire. -/
def bytes (r : Reply) : Bytes := unlines r.lines ++ crlf ++ r.body

/-- The indivisible parts of the response. -/
def atoms (r : Reply) : List (HttpFrame ⊕ UInt8) := r.frames.map .inl ++ r.body.map .inr

/-- The reads give the response, and maybe more. -/
structure AnsweredBy (r : Reply) (reads : List (ReadResult IoError)) : Prop where
  proper : ∀ r ∈ reads, r.Proper
  bytes : r.bytes <+: all reads

open ResponseFrameStream

/-- The codec takes the response and nothing else. -/
lemma run_bytes (r : Reply) (suffix : Bytes) :
    ∃ c, ResponseCodec.run (r.bytes ++ suffix) = ⟨r.atoms, c, suffix, none⟩ ∧ c.bodyState = .done := by
  obtain ⟨c, taken, done⟩ := feedAll_encoded (c := (ResponseCodec.headCodec r.lines).endHeaders) rfl r.body_ok suffix
  refine ⟨c, ?_, done⟩
  rw [bytes, List.append_assoc, ResponseCodec.run_lines r.lines_ok, taken,
    ← List.map_singleton (f := ResponseCodecItem.frame),
    ← List.map_append, flatMap_atoms_frames]
  rfl

/-- The response stream gives the response, in pieces, and ends. -/
lemma AnsweredBy.collect {r : Reply} {reads : List (ReadResult IoError)} (answered : r.AnsweredBy reads) :
    ∃ is s', Collect (ResponseParser.parse reads) is none s' ∧ s'.done = true ∧ is.flatMap itemAtoms = r.atoms := by
  obtain ⟨suffix, bytes⟩ := answered.bytes
  obtain ⟨c, whole, done⟩ := r.run_bytes suffix
  rw [bytes] at whole
  have fed : ∀ p, (ResponseParser.parse reads).fed p = ResponseCodec.run (all p) := fun _ => rfl
  obtain ⟨is, stop, s', coll, ends⟩ := ResponseParser.stops reads
  cases ends with
  | @complete _ pre post took err state _ inner =>
    refine ⟨is, s', coll, ?_, ?_⟩
    · refine (done_or_eof rfl coll).resolve_right fun eof => ?_
      rw [inner] at eof
      exact absurd eof Bool.false_ne_true
    · rw [took.out]
      -- what follows the response adds nothing
      have reads_eq : reads = pre ++ post := took.reads
      have more := fed_append (ResponseParser.parse reads) pre post
      rw [feed_done state err, ← reads_eq, fed, whole] at more
      exact (congrArg Decoder.Fed.out more).symm
  | @failed e _ pre post took err =>
    have reads_eq : reads = pre ++ post := took.reads
    have failed := fed_append (ResponseParser.parse reads) pre post
    rw [Decoder.feed_failed _ err, ← reads_eq, fed, whole] at failed
    exact absurd ((congrArg Decoder.Fed.err failed).trans err) (by rintro ⟨⟩)
  | @readError e _ pre post took err =>
    have reads_eq : reads = pre ++ .error e :: post := took.reads
    exact (answered.proper (.error e) (by rw [reads_eq]; exact List.mem_append_right _ List.mem_cons_self)).elim
  | @eof _ pre post took err notDone left _ =>
    have reads_eq : reads = pre ++ post := took.reads
    have nothing : post = [] := by
      rcases left with nothing | ⟨rs, rfl⟩
      · exact nothing
      · have mem : .data [] ∈ reads := by
          rw [reads_eq]
          exact List.mem_append_right _ List.mem_cons_self
        exact absurd rfl (answered.proper _ mem)
    rw [nothing, List.append_nil] at reads_eq
    rw [fed, ← reads_eq, whole] at notDone
    exact absurd done notDone

end Reply

/-! ## Dialogues -/

/-- A request and its response. -/
structure Dialogue extends Reply where
  request : Request

namespace Dialogue

/-- The exchange that comes of it. -/
def exchange (d : Dialogue) : Exchange HttpFrame where
  pre := []
  routing := .requestLine (d.request.head.startLine ++ crlf)
  post := d.request.head.headers.map (fun h => .parsed (HttpStreamingCodec.headerOf [] h)) ++
    [.passthrough (crlf ++ d.request.body)]
  response := d.frames.map .parsed ++ [.passthrough d.body]

open ResponseFrameStream

/-! ## What comes of a dialogue -/

/-- The frames of some items, whatever their pieces. -/
lemma frames_of_itemAtoms (is : List (ParsedData HttpFrame)) :
    frames is = (is.flatMap itemAtoms).filterMap Sum.getLeft? := by
  have nothing : ∀ bs : Bytes, (bs.map (Sum.inr : UInt8 → HttpFrame ⊕ UInt8)).filterMap Sum.getLeft? = [] := by
    intro bs
    rw [List.filterMap_map]
    exact List.filterMap_eq_nil_iff.2 fun _ _ => rfl
  induction is with
  | nil => rfl
  | cons i is ih =>
    rw [List.flatMap_cons, List.filterMap_append, ← ih]
    cases i with
    | parsed f => rfl
    | passthrough bs =>
      rw [itemAtoms, nothing]
      rfl

/-- What is written for a part of a response. -/
def atomBytes (process : HttpFrame → HttpFrame) : HttpFrame ⊕ UInt8 → Bytes
  | .inl f => Frame.asBytes (process f)
  | .inr b => [b]

/-- What is relayed of some items, whatever their pieces. -/
lemma relayed_eq {H : Type} (cfg : Config HttpFrame H) (is : List (ParsedData HttpFrame)) :
    relayed cfg is = (is.flatMap itemAtoms).flatMap (atomBytes (cfg.responsePipeline.getD id)) := by
  rw [relayed, List.flatMap_assoc]
  refine List.flatMap_congr fun i _ => ?_
  cases i with
  | parsed f => exact (List.append_nil _).symm
  | passthrough bs =>
    rw [itemAtoms, List.flatMap_map]
    exact (List.flatMap_singleton' bs).symm

/-- The response of the exchange is that of the dialogue. -/
lemma atoms_exchange (d : Dialogue) : d.exchange.response.flatMap itemAtoms = d.atoms := by
  rw [exchange, List.flatMap_append, List.flatMap_map, List.flatMap_singleton, Reply.atoms]
  exact congrArg (· ++ _) (List.map_eq_flatMap).symm

section serves

variable {H D : Type} [ConnectionHook H HttpFrame] {cfg : Config HttpFrame H}

/-- The exchange of a dialogue, with the pieces in which its response has come. -/
def pieces (d : Dialogue) (is : List (ParsedData HttpFrame)) : Exchange HttpFrame := { d.exchange with response := is }

/-- The pieces in which a response comes make no difference. -/
lemma pieces_alike {d : Dialogue} {is : List (ParsedData HttpFrame)} (same : is.flatMap itemAtoms = d.atoms) :
    (d.pieces is).answered cfg = d.exchange.answered cfg ∧ (d.pieces is).closes cfg = d.exchange.closes cfg := by
  rw [← atoms_exchange] at same
  constructor
  · rw [Exchange.answered, Exchange.answered, relayed_eq, relayed_eq, ← same]
    rfl
  · have hook : (d.pieces is).responseHook cfg = d.exchange.responseHook cfg := by
      rw [Exchange.responseHook, Exchange.responseHook, frames_of_itemAtoms, frames_of_itemAtoms, ← same]
      rfl
    rw [Exchange.closes, Exchange.closes, hook]
    rfl

/-- The frames of a head are its lines. -/
lemma flatMap_headFrames (ls : List Bytes) :
    (ResponseCodec.headFrames ls).flatMap (fun f => Frame.asBytes f) = unlines ls := by
  cases ls with
  | nil => rfl
  | cons l ls =>
    rw [ResponseCodec.headFrames, List.flatMap_cons, List.flatMap_map, unlines_cons]
    rfl

omit [ConnectionHook H HttpFrame] in
/-- Without a pipeline a request is forwarded as it was sent. -/
lemma forwarded_eq (plain : cfg.process = id) (d : Dialogue) : d.exchange.forwarded cfg = d.request.bytes := by
  have items : d.exchange.request = HttpFrameStream.requestItems d.request := rfl
  rw [Exchange.forwarded, items, plain, Request.bytes, Head.bytes]
  have raw : (fun i : ParsedData HttpFrame => i.output id) = ParsedData.raw := by
    funext i
    cases i <;> rfl
  rw [raw, HttpFrameStream.requestItems, List.flatMap_append, HttpFrameStream.raw_headItems, List.flatMap_singleton,
    ParsedData.raw, List.append_assoc, Head.lines]

omit [ConnectionHook H HttpFrame] in
/-- Without a pipeline for responses a response is relayed as it was sent. -/
lemma answered_eq (plain : cfg.responsePipeline = none) (d : Dialogue) : d.exchange.answered cfg = d.bytes := by
  have frames_eq : d.frames.flatMap (fun f => Frame.asBytes f) = unlines d.lines ++ crlf := by
    rw [Reply.frames, List.flatMap_append, flatMap_headFrames]
    rfl
  rw [Exchange.answered, relayed, plain, exchange, List.flatMap_append, List.flatMap_map, List.flatMap_singleton,
    Reply.bytes, ← frames_eq]
  rfl

/-- The response streams give the responses, in pieces. -/
lemma exists_pieces {ds : List Dialogue} {responses : List (List (ReadResult IoError))}
    (answered : List.Forall₂ (fun reads (d : Dialogue) => d.AnsweredBy reads) responses ds) :
    ∃ ps : List (Dialogue × List (ParsedData HttpFrame)), ps.map Prod.fst = ds ∧
      (∀ p ∈ ps, p.2.flatMap itemAtoms = p.1.atoms) ∧
      List.Forall₂ (fun reads p => Gives (ResponseParser.parse reads) (Proxy.items p.2)) responses ps := by
  induction answered with
  | nil => exact ⟨[], rfl, nofun, .nil⟩
  | @cons reads d _ _ first _ ih =>
    obtain ⟨is, s', coll, done, same⟩ := first.collect
    obtain ⟨ps, rfl, alike, gives⟩ := ih
    have dry : Dry s' := by
      refine .of_stays ?_
      show ResponseFrameStream.poll s' = _
      rw [ResponseFrameStream.poll, if_pos done]
    exact ⟨(d, is) :: ps, rfl, List.forall_mem_cons.2 ⟨same, alike⟩, .cons (.of_collect_dry coll dry) gives⟩

omit [ConnectionHook H HttpFrame] in
/-- The request stream gives the requests. -/
lemma gives_script {ds : List Dialogue} {reads : List (ReadResult IoError)} (proper : ∀ r ∈ reads, r.Proper)
    (bytes : all reads = (ds.map request).flatMap Request.bytes)
    (aligned : HttpFrameStream.Aligned (ds.map request) reads) :
    ∃ os, Gives (HttpParser.parse [] reads) os ∧ Script.script (ds.map exchange) = os.map Item.ofIo := by
  have ready : HttpFrameStream.Ready (HttpParser.parse [] reads) :=
    .fresh ⟨rfl, rfl, ⟨rfl, rfl⟩, rfl, rfl, fun _ => NoCrlf.nil, proper⟩ rfl rfl
  refine ⟨_, ready.gives_requests bytes aligned, ?_⟩
  have one : ∀ d : Dialogue, d.exchange.items =
      ((HttpFrameStream.requestItems d.request).map (fun i => some (Except.ok i)) ++ [none]).map Item.ofIo := by
    intro d
    rw [List.map_append, List.map_map]
    rfl
  rw [Script.script, List.flatMap_map, List.flatMap_map, List.map_flatMap]
  exact List.flatMap_congr fun d _ => one d

end serves

section examples

/-- A request without a body, answered with chunks. -/
def chunkedDialogue : Dialogue where
  request := getRequest
  lines := chunkedHead
  body := chunkedBody
  lines_ok := headLines_chunkedHead
  body_ok := by
    have framing : framingOf chunkedHead = .chunked := by decide +kernel
    exact framing ▸ encoded_chunkedBody

/-- Two of them on one connection. The second request is there before the first is answered. -/
def clientReads : List (ReadResult IoError) := [.data getRequest.bytes, .pending, .data getRequest.bytes]

/-- The first response comes in two reads, and the second with what the destination sends next. -/
def responseReads : List (List (ReadResult IoError)) :=
  [[.data (unlines chunkedHead ++ crlf ++ lit "2;a=b\r\no"), .pending, .data (lit "k\r\n00\r\nT: 1\r\n\r\n")],
    [.data (chunkedDialogue.bytes ++ lit "HTTP/1.1 ")]]

/-- The first destination is new and the second comes from the pool. -/
def dialogueActions : List (Script.Action Nat) :=
  List.flatten
    [[.client, .pool none, .client, .route 7, .client, .client, .wrote], List.replicate 12 .response,
      [.flushed, .release, .client, .client, .pool (some 7), .client, .client, .client, .wrote],
      List.replicate 10 .response, [.flushed, .release, .client]]

end examples

end Dialogue

end Railscale.Http
