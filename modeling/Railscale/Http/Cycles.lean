import Railscale.Core.Cycles
import Railscale.Core.Relay
import Railscale.Http.Client
import Railscale.Http.Message

/-!
# The cycles of a connection end

The request stream is not fused: it ends each cycle with a `None` and is polled again by the next one. What
bounds the loop are the bytes of the client. Every frame takes a line off them, so that there are no more
cycles with a routing frame than lines; and with the reads that are left, the flag of the end of file and the
rank of the place in the loop they make a potential that every turn of the stream and every step of the loop
lowers, but for the items of the responses.
-/

namespace Railscale.Http

open Bytes ReadResult

/-! ## The lines of the client -/

/-- The number of lines with a line ending. -/
def lineCount : Bytes → Nat
  | [] => 0
  | b :: bs => lineCount bs + if crlf <+: b :: bs then 1 else 0

/-- Bytes in front do not take a line away. -/
lemma lineCount_suffix (pre bs : Bytes) : lineCount bs ≤ lineCount (pre ++ bs) := by
  induction pre with
  | nil => exact Nat.le_refl _
  | cons b pre ih => exact ih.trans (Nat.le_add_right _ _)

/-- Taking a line off the bytes. -/
lemma lineCount_line (l rest : Bytes) : lineCount rest + 1 ≤ lineCount (l ++ crlf ++ rest) := by
  have ending : lineCount (crlf ++ rest) = lineCount ([lf] ++ rest) + 1 :=
    congrArg (lineCount ([lf] ++ rest) + ·) (if_pos (List.prefix_append crlf rest))
  rw [List.append_assoc]
  refine le_trans ?_ (lineCount_suffix l _)
  rw [ending]
  exact Nat.add_le_add_right (lineCount_suffix [lf] rest) 1

/-! ## What the codec does from call to call -/

namespace HttpStreamingCodec

/-- The frame of a header line. -/
def headerOf (matchers : List (Bytes × Bytes)) (h : Bytes) : HttpFrame :=
  .header ((replaced matchers h).getD (h ++ crlf))

/-- A frame is a line that was cut off the buffer. -/
inductive OfLine (matchers : List (Bytes × Bytes)) : HttpFrame → Bytes → Bytes → Prop where
  | empty {rest} :
    OfLine matchers .endOfHeaders (crlf ++ rest) rest
  | request {l rest} :
    IsLine l →
    OfLine matchers (.requestLine (l ++ crlf)) (l ++ crlf ++ rest) rest
  | header {h rest} :
    IsLine h →
    OfLine matchers (headerOf matchers h) (h ++ crlf ++ rest) rest

section ofLine

variable {matchers : List (Bytes × Bytes)} {f : HttpFrame} {b b' : Bytes}

/-- A frame of a line is cut off with its line end. -/
lemma OfLine.cut (line : OfLine matchers f b b') : ∃ l, b = l ++ crlf ++ b' := by
  cases line with
  | empty => exact ⟨[], rfl⟩
  | request _ => exact ⟨_, rfl⟩
  | header _ => exact ⟨_, rfl⟩

/-- The routing frame is a request line. -/
lemma OfLine.routing (line : OfLine matchers f b b') (routing : f.routing = true) : ∃ l, f = .requestLine l := by
  cases line with
  | empty => cases routing
  | request _ => exact ⟨_, rfl⟩
  | header _ => cases routing

end ofLine

/-- The request line is the first frame, and the empty line is the last. -/
structure Follows (c : HttpStreamingCodec) (o : Option HttpFrame) (c' : HttpStreamingCodec) : Prop where
  done : c.done = true → o = none ∧ c'.done = true
  later : c.firstLine = false → c'.firstLine = false ∧ ∀ l, o ≠ some (.requestLine l)
  frame : ∀ f, o = some f → if f.isEndOfHeaders then c'.done = true else c'.firstLine = false

/-- A call without a frame only has to keep the flags. -/
lemma Follows.same {c c' : HttpStreamingCodec} (done : c.done = true → c'.done = true)
    (later : c.firstLine = false → c'.firstLine = false) : Follows c none c' :=
  ⟨fun h => ⟨rfl, done h⟩, fun h => ⟨later h, nofun⟩, nofun⟩

/-- A call of the codec gives the frame of a line and goes on from there. -/
lemma decode_ofLine {c c' : HttpStreamingCodec} {b b' : Bytes} {r} (h : c.decode b = (r, c', b')) :
    c'.matchers = c.matchers ∧ FramedRead.Consumed (OfLine c.matchers) r b b' ∧
      Follows c (FramedRead.callItem r) c' := by
  cases done : c.done with
  | true =>
    rw [decode_done done] at h
    cases h
    exact ⟨rfl, rfl, .same id id⟩
  | false =>
    have undone : ∀ {P : Prop}, c.done = true → P := fun h => nomatch done.symm.trans h
    rcases line_or_noCrlf b with noLine | ⟨l, rest, hl, rfl⟩
    · rw [decode_noCrlf noLine] at h
      cases h
      exact ⟨rfl, rfl, .same id id⟩
    · cases l with
      | nil =>
        rw [List.nil_append, decode_empty done] at h
        cases h
        refine ⟨rfl, .empty, undone, fun later => ⟨later, nofun⟩, fun f isFrame => ?_⟩
        cases isFrame
        rfl
      | cons x l =>
        have line : IsLine (x :: l) := ⟨List.cons_ne_nil x l, hl⟩
        rw [decode_line done line.1 hl] at h
        split at h
        · cases h
          exact ⟨rfl, rfl, .same id fun _ => rfl⟩
        · cases h
          cases first : c.firstLine with
          | true =>
            have frame : c.frameOf (x :: l) = .requestLine (x :: l ++ crlf) := if_pos first
            rw [frame]
            refine ⟨rfl, ?_, undone, fun later => (nomatch first.symm.trans later), fun f isFrame => ?_⟩
            · have cut : OfLine c.matchers _ (x :: l ++ crlf ++ b') b' := .request line
              rw [List.append_assoc] at cut
              exact cut
            · cases isFrame
              rfl
          | false =>
            have frame : c.frameOf (x :: l) = headerOf c.matchers (x :: l) := if_neg (by rw [first]; nofun)
            rw [frame]
            refine ⟨rfl, ?_, undone, fun _ => ⟨rfl, nofun⟩, fun f isFrame => ?_⟩
            · have cut : OfLine c.matchers _ (x :: l ++ crlf ++ b') b' := .header line
              rw [List.append_assoc] at cut
              exact cut
            · cases isFrame
              rfl

/-- So does every call, at the end of the transport too. -/
lemma ofLine (matchers : List (Bytes × Bytes)) :
    FramedRead.Consumes (ε := IoError) (fun c : HttpStreamingCodec => c.matchers = matchers) (OfLine matchers) where
  decode {c b r c' b'} same h := by
    obtain ⟨matchers', taken, -⟩ := decode_ofLine h
    exact ⟨matchers'.trans same, same ▸ taken⟩
  decodeEof {c b r c' b'} same h := by
    have h : c.decodeEof b = (r, c', b') := h
    rw [decodeEof] at h
    split at h
    · cases h
      exact ⟨same, rfl⟩
    · obtain ⟨matchers', taken, -⟩ := decode_ofLine h
      exact ⟨matchers'.trans same, same ▸ taken⟩

/-- Every call keeps this order, at the end of the transport too. -/
lemma follows : FramedRead.Tracks (ε := IoError) Follows where
  refl := .same id id
  trans first then_ := {
    done := fun done => then_.done (first.done done).2
    later := fun later => then_.later (first.later later).1
    frame := then_.frame }
  decode h := (decode_ofLine h).2.2
  decodeEof {c b r c' b'} h := by
    have h : c.decodeEof b = (r, c', b') := h
    rw [decodeEof] at h
    split at h
    · cases h
      exact .same id id
    · exact (decode_ofLine h).2.2

end HttpStreamingCodec

/-! ## What a turn takes -/

namespace HttpFrameStream

open HttpStreamingCodec

/-- The bytes of the client that the stream has not handed out. -/
def Polling.rest (p : Polling) : Bytes := p.stream.inner.buffer ++ all p.stream.inner.reads

/-- How many turns the inner stream can make for its reads. -/
def reading (inner : FramedRead HttpStreamingCodec IoError) : Nat :=
  3 * inner.reads.length + if inner.eof then 0 else 1

/-- How many turns the stream can make for its bytes and reads. A byte pays for five: a line has two of them and
may add as much as eight to the rank of the loop. -/
def Polling.left (p : Polling) : Nat :=
  5 * p.rest.length + reading p.stream.inner + if p.mode.isSome then 0 else 1

/-- What a turn takes of the bytes. -/
inductive Draws (p : Polling) : Option (Poll (Option HttpItem)) → Polling → Prop where
  | waits {r p'} :
    (∀ o, r ≠ some (.ready o)) →
    p'.rest = p.rest →
    p'.left + 1 ≤ p.left →
    Draws p r p'
  | stops {o p'} :
    (∀ i, o ≠ some (.ok i)) →
    p'.rest = p.rest →
    p'.left ≤ p.left + 1 →
    Draws p (some (.ready o)) p'
  | parsed {f l p'} :
    p.rest = l ++ crlf ++ p'.rest →
    (f.routing = true → ∃ line, f = .requestLine line) →
    p'.left + 9 ≤ p.left →
    Draws p (some (.ready (some (.ok (.parsed f))))) p'
  | passthrough {bs pre p'} :
    p.rest = pre ++ p'.rest →
    p'.left + 1 ≤ p.left →
    Draws p (some (.ready (some (.ok (.passthrough bs))))) p'

/-- A turn of the reader takes two off its count, or one and gives nothing, or none and gives a result. -/
lemma turn_reading {inner inner' : FramedRead HttpStreamingCodec IoError} {r} (h : inner.turn = (r, inner')) :
    reading inner' + 2 ≤ reading inner ∨ (reading inner' + 1 = reading inner ∧ r = none) ∨
      (reading inner' = reading inner ∧ ∃ o, r = some (.ready o)) := by
  have flag : ∀ b : Bool, (if b then 0 else 1) ≤ 1 := by decide
  obtain less | ⟨same, first, then_, rfl⟩ | ⟨same, again, ready⟩ := FramedRead.turn_progress h
  · refine .inl ?_
    have := flag inner'.eof
    rw [reading, reading]
    omega
  · refine .inr (.inl ⟨?_, rfl⟩)
    rw [reading, reading, same, first, then_]
    rfl
  · refine .inr (.inr ⟨?_, ready⟩)
    rw [reading, reading, same, again]

/-- The turns that are left when the inner stream has been polled. -/
lemma left_polled {s t : HttpFrameStream} {m : Mode} (pre : Bytes)
    (rest : (⟨s, some m⟩ : Polling).rest = pre ++ (⟨t, none⟩ : Polling).rest)
    (less : reading t.inner ≤ reading s.inner) :
    (⟨t, none⟩ : Polling).left + 5 * pre.length ≤ (⟨s, some m⟩ : Polling).left + 1 := by
  rw [Polling.left, Polling.left, rest, List.length_append]
  show _ + reading t.inner + 1 + _ ≤ _ + reading s.inner + 0 + 1
  omega

/-- What is handed out for an item of the inner stream. -/
lemma Draws.on (m : Mode) {s : HttpFrameStream} {inner : FramedRead HttpStreamingCodec IoError} {o} {b : Bytes}
    {matchers : List (Bytes × Bytes)} (rest : (⟨s, some m⟩ : Polling).rest = b ++ all inner.reads)
    (less : reading inner ≤ reading s.inner)
    (turned : FramedRead.Turned (OfLine matchers) (some (.ready o)) b inner.buffer) :
    Draws ⟨s, some m⟩ (some (.ready (m.on s o inner).1)) ⟨(m.on s o inner).2, none⟩ := by
  have stop : ∀ {o}, (∀ i, o ≠ some (.ok i)) → inner.buffer = b →
      Draws ⟨s, some m⟩ (some (.ready o)) ⟨{ s with inner := inner }, none⟩ := by
    intro o none same
    have rest : (⟨s, some m⟩ : Polling).rest = (⟨{ s with inner := inner }, .none⟩ : Polling).rest := by
      rw [rest, ← same]
      rfl
    exact .stops none rest.symm (left_polled [] rest less)
  have frame : ∀ {f}, OfLine matchers f b inner.buffer →
      Draws ⟨s, some m⟩ (some (.ready (some (.ok (.parsed f))))) ⟨{ s with inner := inner }, none⟩ := by
    intro f line
    obtain ⟨l, cut⟩ := line.cut
    have rest : (⟨s, some m⟩ : Polling).rest = l ++ crlf ++ (⟨{ s with inner := inner }, none⟩ : Polling).rest := by
      rw [rest, cut, List.append_assoc]
      rfl
    have left := left_polled _ rest less
    simp only [List.length_append, List.length_cons, List.length_nil] at left
    exact .parsed rest line.routing (by omega)
  match o with
  | none => cases m <;> exact stop nofun turned
  | some (.error e) => cases m <;> exact stop nofun turned
  | some (.ok f) =>
    cases m with
    | reset => exact frame turned
    | head =>
      simp only [Mode.on, onHead]
      split
      -- the empty line is handed out with the whole buffer
      · have line : OfLine matchers f b inner.buffer := turned
        obtain ⟨l, cut⟩ := line.cut
        let t : HttpFrameStream := { s with inner := { inner with buffer := [] }, headersDone := true }
        have rest : (⟨s, some .head⟩ : Polling).rest = l ++ crlf ++ inner.buffer ++ (⟨t, none⟩ : Polling).rest := by
          rw [rest, cut]
          rfl
        have left := left_polled _ rest less
        simp only [List.length_append, List.length_cons, List.length_nil] at left
        have paid : (⟨t, none⟩ : Polling).left + 1 ≤ (⟨s, some .head⟩ : Polling).left := by omega
        exact .passthrough rest paid
      · exact frame turned

/-- Every turn draws on what is still to be read. -/
theorem turn_draws {p p' : Polling} {r} (h : p.turn = (r, p')) : Draws p r p' := by
  have unready : ∀ (r : Option (Poll (Option HttpItem))), r = none ∨ r = some .pending → ∀ o, r ≠ some (.ready o) := by
    rintro _ (rfl | rfl) _ ⟨⟩
  obtain ⟨stream, mode⟩ := p
  cases mode with
  | none =>
    simp only [Polling.turn, drainBuffer] at h
    split at h
    -- the head is complete: the turn drains the buffer, ends the cycle or starts the next head
    · by_cases empty : stream.inner.buffer = []
      · simp only [empty, if_true] at h
        split at h
        · cases h
          exact .waits (unready _ (.inl rfl)) rfl (Nat.le_refl _)
        · cases h
          refine .stops ?_ rfl (Nat.le_succ _)
          rintro _ ⟨⟩
      · simp only [empty, if_false] at h
        cases h
        have drained : (⟨stream, none⟩ : Polling).rest = stream.inner.buffer ++ all stream.inner.reads := rfl
        refine .passthrough drained ?_
        have some := List.length_pos_of_ne_nil empty
        simp only [Polling.left, Polling.rest, reading, List.nil_append, List.length_append]
        omega
    · cases h
      exact .waits (unready _ (.inl rfl)) rfl (Nat.le_refl _)
  | some m =>
    simp only [Polling.turn] at h
    rcases turn : stream.inner.turn with ⟨r', inner⟩
    obtain ⟨-, pre, -, reads, turned⟩ := FramedRead.turn_moves (ofLine stream.inner.codec.matchers) rfl turn
    have rest : (⟨stream, some m⟩ : Polling).rest = stream.inner.buffer ++ all pre ++ all inner.reads := by
      rw [Polling.rest, reads, all_append, List.append_assoc]
    have progress := turn_reading turn
    rw [turn] at h
    rcases r' with _ | _ | o
    · cases h
      have same : (⟨{ stream with inner := inner }, some m⟩ : Polling).rest = (⟨stream, some m⟩ : Polling).rest := by
        rw [rest, ← (turned : inner.buffer = _)]
        rfl
      refine .waits (unready _ (.inl rfl)) same ?_
      rw [Polling.left, Polling.left, same]
      show _ + reading inner + 0 + 1 ≤ _ + reading stream.inner + 0
      obtain less | ⟨less, -⟩ | ⟨-, o, ready⟩ := progress
      · omega
      · omega
      · cases ready
    · cases h
      have same : (⟨stream, some m⟩ : Polling).rest = (⟨{ stream with inner := inner }, none⟩ : Polling).rest := by
        rw [rest, ← (turned : inner.buffer = _)]
        rfl
      refine .waits (unready _ (.inr rfl)) same.symm ?_
      rw [Polling.left, Polling.left, same]
      show _ + reading inner + 1 + 1 ≤ _ + reading stream.inner + 0
      obtain less | ⟨-, ready⟩ | ⟨-, o, ready⟩ := progress
      · omega
      · cases ready
      · cases ready
    · cases h
      refine .on m rest ?_ turned
      obtain less | ⟨less, -⟩ | ⟨same, -⟩ := progress
      · omega
      · omega
      · exact Nat.le_of_eq same

end HttpFrameStream

/-! ## The loop and its request stream -/

namespace Client

open Service HttpFrameStream

variable {H D : Type} [ConnectionHook H HttpFrame] {cfg : Config HttpFrame H} {s s' : State H D}

/-- An item of a response. -/
def Action.isResponseItem : Action D → Bool
  | .turn => false
  | .conn a => a.isResponseItem

/-- What the steps of a connection use up. -/
def potential (s : State H D) : Nat := s.client.left + s.conn.pc.rank

/-- The end of a stream and its error are worth nothing. -/
lemma worth_ofIo (o : Option HttpItem) (stop : ∀ i, o ≠ some (.ok i)) : (Item.ofIo o).worth = 0 := by
  match o with
  | none => rfl
  | some (.error _) => rfl
  | some (.ok i) => exact absurd rfl (stop i)

/-- Every step lowers the potential, but for an item of a response. -/
lemma potential_step {a : Action D} (st : step cfg s a = some s') :
    potential s' + 1 ≤ potential s + if a.isResponseItem then 2 else 0 := by
  rw [potential, potential]
  cases step_cases st with
  | @waits r client awaits turn unready =>
    cases turn_draws turn with
    | waits _ _ left =>
      show client.left + s.conn.pc.rank + 1 ≤ _ + 0
      omega
    | stops _ _ _ => exact absurd rfl (unready _)
    | parsed _ _ _ => exact absurd rfl (unready _)
    | passthrough _ _ => exact absurd rfl (unready _)
  | @takes o client conn awaits turn move =>
    have rank := rank_clientItem move
    show client.left + conn.pc.rank + 1 ≤ _ + 0
    cases turn_draws turn with
    | waits unready _ _ => exact absurd rfl (unready _)
    | stops stop _ left =>
      rw [worth_ofIo o stop] at rank
      omega
    | parsed _ _ left =>
      have worth : conn.pc.rank + 2 ≤ s.conn.pc.rank + 10 := rank
      omega
    | passthrough _ left =>
      have worth : conn.pc.rank + 2 ≤ s.conn.pc.rank + 2 := rank
      omega
  | @moves a conn other move =>
    have rank := rank_other other move
    rw [move_client, move_conn]
    show _ ≤ _ + if a.isResponseItem then 2 else 0
    omega

/-- An item without a frame begins no cycle. -/
lemma cycles_unframed {a : Service.Action HttpFrame D} {conn conn' : Service.State HttpFrame H D}
    (move : Service.step cfg conn a = some conn') (none : frames (a.items.filterMap okItem) = []) :
    cycles conn' ≤ cycles conn := by
  obtain le | ⟨-, f, mem, -⟩ := cycles_step move
  · exact le
  · rw [none] at mem
    cases mem

/-- A cycle gets its routing frame with a line of the client. -/
lemma cycles_lines_step {a : Action D} (st : step cfg s a = some s') :
    cycles s'.conn + lineCount s'.client.rest ≤ cycles s.conn + lineCount s.client.rest := by
  cases step_cases st with
  | @waits r client awaits turn unready =>
    cases turn_draws turn with
    | waits _ rest _ => exact Nat.le_of_eq (congrArg (cycles s.conn + lineCount ·) rest)
    | stops _ _ _ => exact absurd rfl (unready _)
    | parsed _ _ _ => exact absurd rfl (unready _)
    | passthrough _ _ => exact absurd rfl (unready _)
  | @takes o client conn awaits turn move =>
    show cycles conn + lineCount client.rest ≤ _
    cases turn_draws turn with
    | waits unready _ _ => exact absurd rfl (unready _)
    | stops stop rest _ =>
      rw [rest]
      refine Nat.add_le_add_right (cycles_unframed move ?_) _
      match o with
      | none => rfl
      | some (.error _) => rfl
      | some (.ok i) => exact absurd rfl (stop i)
    | @parsed f l _ rest _ _ =>
      have line := lineCount_line l client.rest
      rw [rest]
      obtain le | ⟨next, -⟩ := cycles_step move
      · omega
      · omega
    | @passthrough bs pre _ rest _ =>
      rw [rest]
      exact Nat.add_le_add (cycles_unframed move rfl) (lineCount_suffix pre _)
  | @moves a conn other move =>
    rw [move_client, move_conn]
    refine Nat.add_le_add_right (cycles_unframed move ?_) _
    cases a with
    | clientItem o => exact absurd rfl (other o)
    | _ => rfl

/-- The frames with a routing key are request lines. -/
def RequestLines (os : List (Item HttpFrame)) : Prop :=
  ∀ f, some (.ok (.parsed f)) ∈ os → f.routing = true → ∃ line, f = .requestLine line

/-- Items behind others, whose routing frames are request lines. -/
lemma RequestLines.append {os os' : List (Item HttpFrame)} (lines : RequestLines os) (lines' : RequestLines os') :
    RequestLines (os ++ os') := by
  intro f mem
  rcases List.mem_append.1 mem with mem | mem
  · exact lines f mem
  · exact lines' f mem

/-- Every step keeps the routing frames request lines. -/
lemma requestLines_step {a : Service.Action HttpFrame D} {conn conn' : Service.State HttpFrame H D}
    (move : Service.step cfg conn a = some conn') (new : RequestLines a.items)
    (lines : ∀ log ∈ conn.past ++ [conn.log], RequestLines (takes log)) :
    ∀ log ∈ conn'.past ++ [conn'.log], RequestLines (takes log) := by
  have current := lines _ (List.mem_append_right _ List.mem_cons_self)
  intro log mem
  by_cases release : a = .release
  · subst release
    obtain ⟨-, -, fresh, es, untaken, past⟩ := step_release move
    rw [past, fresh] at mem
    simp only [List.append_assoc, List.mem_append, List.mem_singleton] at mem
    rcases mem with mem | rfl | rfl
    · exact lines log (List.mem_append_left _ mem)
    · rw [takes_append, untaken, List.append_nil]
      exact current
    · exact nofun
  · obtain ⟨past, takes_eq, -⟩ := step_advances move release
    rw [past] at mem
    rcases List.mem_append.1 mem with mem | mem
    · exact lines log (List.mem_append_left _ mem)
    · rw [List.mem_singleton.1 mem, takes_eq]
      exact current.append new

/-- A turn that gives an item ends the poll. -/
lemma turn_ready {p p' : Polling} {o : Option HttpItem} (h : p.turn = (some (.ready o), p')) : p'.mode = none := by
  unfold Polling.turn at h
  split at h
  · split at h
    · split at h
      · cases h
        rfl
      · split at h
        · cases h
        · cases h
          rfl
    · cases h
  · split at h
    · cases h
    · cases h
    · cases h
      rfl

/-- A step of the connection comes when the client stream is not being polled. -/
lemma mode_of_conn {a : Service.Action HttpFrame D} (st : step cfg s (.conn a) = some s') : s.client.mode = none := by
  cases mode : s.client.mode with
  | none => rfl
  | some m =>
    cases a with
    | clientItem o => cases st
    | _ => simp [step, mode] at st

/-- What holds of a connection at every moment. -/
structure Cycling (cfg : Config HttpFrame H) (s : State H D) : Prop where
  inv : Service.Inv cfg s.conn
  routing : RoutingFrames s.conn
  lines : ∀ log ∈ s.conn.past ++ [s.conn.log], RequestLines (takes log)
  idle : awaitsClient s.conn.pc = false → s.client.mode = none

/-- The first cycle is at its start. -/
lemma Cycling.init (matchers : List (Bytes × Bytes)) (reads : List (ReadResult IoError)) :
    Cycling cfg (State.init cfg matchers reads : State H D) where
  inv := .init cfg
  routing := ⟨nofun, nofun⟩
  lines := by
    intro log mem
    rw [List.mem_singleton.1 mem]
    exact nofun
  idle _ := rfl

/-- Every step keeps the cycle where it belongs. -/
lemma Cycling.step {a : Action D} (inv : Cycling cfg s) (st : Client.step cfg s a = some s') : Cycling cfg s' := by
  cases step_cases st with
  | @waits r client awaits turn unready =>
    refine ⟨inv.inv, inv.routing, inv.lines, fun not => ?_⟩
    cases awaits.symm.trans not
  | @takes o client conn awaits turn move =>
    refine ⟨inv.inv.step move, inv.routing.step move, requestLines_step move ?_ inv.lines, fun _ => turn_ready turn⟩
    intro f mem
    have item : some (.ok (.parsed f)) = Item.ofIo o := List.mem_singleton.1 mem
    cases turn_draws turn with
    | waits unready _ _ => exact absurd rfl (unready _)
    | stops stop _ _ =>
      match o with
      | none => cases item
      | some (.error _) => cases item
      | some (.ok i) => exact absurd rfl (stop i)
    | parsed _ line _ =>
      cases item
      exact line
    | passthrough _ _ => cases item
  | @moves a conn other move =>
    have mode := mode_of_conn st
    refine ⟨?_, ?_, ?_, fun _ => ?_⟩
    · rw [move_conn]
      exact inv.inv.step move
    · rw [move_conn]
      exact inv.routing.step move
    · rw [move_conn]
      refine requestLines_step move ?_ inv.lines
      cases a with
      | clientItem o => exact absurd rfl (other o)
      | _ => exact nofun
    · rw [move_client]
      exact mode

/-- The connection can go on: with a turn of its request stream, or with any answer to the call it awaits. -/
def GoesOn (cfg : Config HttpFrame H) (s : State H D) : Prop :=
  if awaitsClient s.conn.pc then ∃ s', Client.step cfg s .turn = some s'
  else (∃ a : Service.Action HttpFrame D, s.conn.pc.Answer a) ∧
    ∀ a, s.conn.pc.Answer a → ∃ s', Client.step cfg s (.conn a) = some s'

/-- The cycles of a connection end, with the reads of its client and a number of steps that it has made: there are
no more of them than lines, and one; those that were continued have taken a request line, and the running one has
taken one, or is still looking for it, or has returned. There are only so many steps besides the items of the
responses, and until it has returned the connection goes on. -/
structure Ends (cfg : Config HttpFrame H) (reads : List (ReadResult IoError)) (as : List (Action D)) (s : State H D) :
    Prop where
  cycles : s.conn.past.length + 1 ≤ lineCount (all reads) + 1
  continued : ∀ log ∈ s.conn.past, ∃ line, HttpFrame.requestLine line ∈ frames (taken log)
  unrouted : (∀ f ∈ frames (taken s.conn.log), Frame.routingKey f = none) →
    (s.conn.pc = .preRoute ∧ ∀ o ∈ takes s.conn.log, ¬ Stop o) ∨ ∃ r, s.conn.pc = .finished r
  steps : as.length ≤ 5 * (all reads).length + 3 * reads.length + 4 + 2 * as.countP Action.isResponseItem
  goesOn : (∃ r, s.conn.pc = .finished r) ∨ GoesOn cfg s

omit [ConnectionHook H HttpFrame] in
/-- A frame that was taken is an item of the log. -/
lemma mem_takes_of_frame {log : List (Event HttpFrame H D)} {f : HttpFrame} (mem : f ∈ frames (taken log)) :
    some (.ok (.parsed f)) ∈ takes log := by
  obtain ⟨i, taken, frame⟩ := List.mem_filterMap.1 mem
  obtain ⟨o, took, ok⟩ := List.mem_filterMap.1 taken
  match o with
  | none => cases ok
  | some (.error _) => cases ok
  | some (.ok (.passthrough _)) =>
    cases ok
    cases frame
  | some (.ok (.parsed _)) =>
    cases ok
    cases frame
    exact took

omit [ConnectionHook H HttpFrame] in
/-- A cycle that was continued has taken a request line. -/
lemma requestLine_of_routable {log : List (Event HttpFrame H D)} (lines : RequestLines (takes log))
    (routable : Routable (taken log)) : ∃ line, HttpFrame.requestLine line ∈ frames (taken log) := by
  obtain ⟨f, mem, key⟩ := routable
  have routing : f.routing = true := by
    by_contra not
    have unkeyed : Frame.routingKey f = none := if_neg not
    rw [unkeyed] at key
    cases key
  obtain ⟨line, rfl⟩ := lines f (mem_takes_of_frame mem) routing
  exact ⟨line, mem⟩

/-- A cycle without a routing frame is in its pre-route loop and has not been stopped, or it has returned. -/
lemma Cycling.unrouted (inv : Cycling cfg s) (none : ∀ f ∈ frames (taken s.conn.log), Frame.routingKey f = none) :
    (s.conn.pc = .preRoute ∧ ∀ o ∈ takes s.conn.log, ¬ Stop o) ∨ ∃ r, s.conn.pc = .finished r := by
  have unrouted : s.conn.pc.routed = false := by
    by_contra routed
    obtain ⟨f, mem, key⟩ := inv.routing.current (eq_true_of_ne_false routed)
    rw [none f mem] at key
    cases key
  cases pc : s.conn.pc with
  | preRoute =>
    refine .inl ⟨rfl, ?_⟩
    obtain ⟨pre, items⟩ : ∃ pre, takes s.conn.log = given pre := by
      cases inv.inv.running with
      | @preRoute pre _ coll _ => exact ⟨pre, by rw [coll.takes_eq, List.append_nil, List.append_nil]⟩
      | acquiring here => cases pc.symm.trans here
      | joining here => cases pc.symm.trans here
      | collected here => cases pc.symm.trans here
      | after here => exact (pc ▸ here : (Pc.preRoute : Pc H D).After).elim
    rw [items]
    intro o mem stop
    obtain ⟨i, -, rfl⟩ := List.mem_map.1 mem
    exact stop
  | finished r => exact .inr ⟨r, rfl⟩
  | _ =>
    rw [pc] at unrouted
    cases unrouted

omit [ConnectionHook H HttpFrame] in
/-- A place where no item of the client is awaited awaits an answer. -/
lemma exists_answer {pc : Pc H D} (after : pc.After) (running : ∀ r, pc ≠ .finished r) :
    ∃ a : Service.Action HttpFrame D, pc.Answer a := by
  cases pc with
  | writing => exact ⟨.wrote (.ok ()), trivial⟩
  | relaying => exact ⟨.responseItem none, trivial⟩
  | flushing => exact ⟨.clientWrote (.ok ()), trivial⟩
  | flushingLast => exact ⟨.clientWrote (.ok ()), trivial⟩
  | flushingError => exact ⟨.clientWrote (.ok ()), trivial⟩
  | copying => exact ⟨.copied (.ok 0), trivial⟩
  | releasing => exact ⟨.release, trivial⟩
  | finished r => exact absurd rfl (running r)
  | preRoute => exact after.elim
  | acquiring => exact after.elim
  | joining => exact after.elim

/-- Where an item of the client is awaited, any item may come. -/
lemma step_clientItem (awaits : awaitsClient s.conn.pc = true) (o : Item HttpFrame) :
    ∃ conn, Service.step cfg s.conn (.clientItem o) = some conn := by
  unfold awaitsClient at awaits
  unfold Service.step
  split at awaits
  · rename_i here
    exact ⟨_, by rw [here]⟩
  · rename_i here
    exact ⟨_, by rw [here]⟩
  · cases awaits

/-- Where an item of the client is awaited its stream can make a turn. -/
lemma step_turn (awaits : awaitsClient s.conn.pc = true) : ∃ s', Client.step cfg s .turn = some s' := by
  simp only [Client.step, awaits, if_true]
  rcases turn : s.client.turn with ⟨_ | _ | o, client⟩
  · exact ⟨_, rfl⟩
  · exact ⟨_, rfl⟩
  · obtain ⟨conn, move⟩ : ∃ conn, Service.step cfg s.conn (.clientItem (.ofIo o)) = some conn :=
      step_clientItem awaits (.ofIo o)
    simp only [move]
    exact ⟨_, rfl⟩

/-- A connection has returned or goes on. -/
lemma Cycling.goesOn (inv : Cycling cfg s) : (∃ r, s.conn.pc = .finished r) ∨ GoesOn cfg s := by
  by_cases finished : ∃ r, s.conn.pc = .finished r
  · exact .inl finished
  refine .inr ?_
  rw [GoesOn]
  split
  · rename_i awaits
    exact step_turn awaits
  · rename_i not
    have idle := inv.idle (eq_false_of_ne_true not)
    refine ⟨?_, fun a answer => ?_⟩
    · cases inv.inv.running with
      | preRoute here => exact absurd (by rw [here]; rfl) not
      | joining here => exact absurd (by rw [here]; rfl) not
      | acquiring here => exact ⟨.acquired none, by rw [here]; trivial⟩
      | collected here => exact ⟨.routed (.error (.ofKind .noRoutingFrame)), by rw [here]; trivial⟩
      | after here => exact exists_answer here fun r pc => finished ⟨r, pc⟩
    · obtain ⟨conn, move⟩ := step_answer cfg answer
      have item := answer.ne_clientItem
      refine ⟨s.move a conn, ?_⟩
      cases a with
      | clientItem o => exact absurd rfl (item o)
      | _ => simp only [Client.step, idle, Option.isSome_none, Bool.false_eq_true, if_false, move, Option.map_some]

/-- Whatever the client sends, in whatever pieces, and whatever the calls of a connection answer, its cycles end. -/
theorem ends_of_run {matchers : List (Bytes × Bytes)} {reads : List (ReadResult IoError)} {as : List (Action D)}
    (run : Run (Client.step cfg) (State.init cfg matchers reads) as s) : Ends cfg reads as s := by
  have inv : Cycling cfg s := run.invariant (fun _ _ _ inv st => inv.step st) (.init matchers reads)
  have lines : Service.cycles s.conn + lineCount s.client.rest ≤ lineCount (all reads) :=
    run.invariant (P := fun s => Service.cycles s.conn + lineCount s.client.rest ≤ lineCount (all reads))
      (fun _ _ _ le st => (cycles_lines_step st).trans le) (Nat.le_of_eq (Nat.zero_add _))
  have length := run.length_le fun _ _ _ st => potential_step st
  refine ⟨?_, fun log mem => ?_, inv.unrouted, ?_, inv.goesOn⟩
  · refine Nat.add_le_add_right ?_ 1
    rw [Service.cycles] at lines
    omega
  · exact requestLine_of_routable (inv.lines log (List.mem_append_left _ mem)) (inv.routing.past log mem)
  · have start : potential (State.init cfg matchers reads : State H D) =
        5 * (all reads).length + 3 * reads.length + 4 := rfl
    omega

section examples

/-- A request in two reads, and the end of the connection. -/
def oneRequest : List (ReadResult IoError) := [.data (lit "GET / HTTP/1.1\r\n"), .data (lit "\r\n")]

/-- The request is read, routed and written, its response is empty, and the next cycle finds the end. -/
def oneRequestActions : List (Action Nat) :=
  List.replicate 7 .turn ++
    [.conn (.routed (.ok 7)), .conn (.wrote (.ok ())), .conn (.responseItem none), .conn .release] ++
      List.replicate 3 .turn

/-- The connection returns in its second cycle, of the three that its lines allow. -/
theorem ends_of_run_oneRequest :
    ∃ s : State HttpDeriverHook Nat,
      Run (Client.step relayConfig) (State.init relayConfig [] oneRequest) oneRequestActions s ∧
        s.conn.past.length = 1 ∧ s.conn.pc.rank = 0 ∧ lineCount (all oneRequest) = 2 ∧
        Ends relayConfig oneRequest oneRequestActions s := by
  obtain ⟨s, run, past, returned⟩ : ∃ s : State HttpDeriverHook Nat,
      Run (Client.step relayConfig) (State.init relayConfig [] oneRequest) oneRequestActions s ∧
        s.conn.past.length = 1 ∧ s.conn.pc.rank = 0 := ⟨_, .of_exec rfl, rfl, rfl⟩
  exact ⟨s, run, past, returned, by decide +kernel, ends_of_run run⟩

end examples

end Client

end Railscale.Http
