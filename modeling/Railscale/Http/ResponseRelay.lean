import Railscale.Http.ResponseLength

/-!
# What the response codec relays

The calls of `ResponseCodec` one by one: an item is the front of the buffer and never empty, a call
without an item leaves the buffer alone, and the counters of the body states go down by what was taken.
From this follows that nothing is lost or made up in any use of the codec (`relays_of_uses`), and, with
`ResponseCodec.incremental`, that two transports with the same bytes end alike (`decodes_agree`).
-/

namespace Railscale.Http

open Bytes

namespace ResponseCodec

/-! ## One call -/

/-- The counter of the body state, where it has one. -/
def remaining (c : ResponseCodec) : Option Nat :=
  match c.bodyState with
  | .fixedLength n _ => some n
  | .chunked (.data n _) => some n
  | _ => none

/-- An item that was taken off the buffer: it is the front of it, and the counter goes down by its
length, without running below zero. -/
structure Relayed (c : ResponseCodec) (b : Bytes) (i : ResponseCodecItem) (c' : ResponseCodec)
    (b' : Bytes) : Prop where
  ne : rawItem i ≠ []
  front : b = rawItem i ++ b'
  counts : ∀ n, c.remaining = some n →
    (rawItem i).length ≤ n ∧ c'.remaining.getD 0 = n - (rawItem i).length

/-- What a call may do: relay an item, or leave the buffer as it was. -/
def Lawful (c : ResponseCodec) (b : Bytes) :
    Except IoError (Option ResponseCodecItem) → ResponseCodec → Bytes → Prop
  | .ok (some i), c', b' => Relayed c b i c' b'
  | _, _, b' => b' = b

/-- The counter of a body with a length. -/
lemma remaining_ofRemaining (c : ResponseCodec) (n : Nat) :
    remaining { c with bodyState := .ofRemaining n } = if n = 0 then none else some n := by
  cases n with
  | zero => rfl
  | succ n => rfl

/-- The counter of a chunk. -/
lemma remaining_chunked (c : ResponseCodec) (n : Nat) :
    remaining { c with bodyState := .chunked (.ofRemaining n) } = if n = 0 then none else some n := by
  cases n with
  | zero => rfl
  | succ n => rfl

/-- A piece of a body of at most `n` bytes. -/
lemma counts_take {n : Nat} {o : Option Nat} (b : Bytes)
    (left : o = if n - b.length = 0 then none else some (n - b.length)) :
    (b.take n).length ≤ n ∧ o.getD 0 = n - (b.take n).length := by
  refine ⟨List.length_take_le n b, ?_⟩
  rw [left, List.length_take]
  split
  · rename_i zero
    exact (Nat.sub_eq_zero_of_le (by omega)).symm
  · exact (by omega : n - b.length = n - min n b.length)

/-- A call that takes an item. -/
lemma decode_relayed {c c' : ResponseCodec} {b b' : Bytes} {i : ResponseCodecItem}
    (d : c.decode b = (.ok (some i), c', b')) : Relayed c b i c' b' := by
  have front := decode_raw d
  obtain ⟨e, ne, cut, -⟩ := incremental.some_feed d
  have raw : rawItem i = e := List.append_cancel_right (front.symm.trans cut)
  refine ⟨raw ▸ ne, front, fun n counter => ?_⟩
  have full : b ≠ [] := by
    rw [cut]
    exact List.append_ne_nil_of_left_ne_nil ne b'
  match hs : c.bodyState with
  | .fixedLength m pos =>
    rw [remaining, hs] at counter
    cases counter
    rw [decode_fixedLength hs full] at d
    cases d
    exact counts_take b (remaining_ofRemaining c _)
  | .chunked (.data m pos) =>
    rw [remaining, hs] at counter
    cases counter
    rw [decode_data hs full] at d
    cases d
    exact counts_take b (remaining_chunked c _)
  | .headers => simp [remaining, hs] at counter
  | .chunked .expectSize => simp [remaining, hs] at counter
  | .chunked .expectDataCrlf => simp [remaining, hs] at counter
  | .chunked .trailerOrEnd => simp [remaining, hs] at counter
  | .untilEof => simp [remaining, hs] at counter
  | .done => simp [remaining, hs] at counter

/-- A call relays an item or leaves the buffer as it was. -/
theorem decode_lawful {c c' : ResponseCodec} {b b' : Bytes} {r} (d : c.decode b = (r, c', b')) :
    Lawful c b r c' b' := by
  match r with
  | .ok (some i) => exact decode_relayed d
  | .ok none => exact (incremental.none_same d).2
  | .error e => exact (incremental.error_feed d).1

/-- At the end of the transport only a body that goes until then is treated differently. -/
lemma decodeEof_eq {c : ResponseCodec} (hs : c.bodyState ≠ .untilEof) (b : Bytes) :
    c.decodeEof b = c.decode b := by
  rw [decodeEof]
  split
  · rename_i e
    exact absurd e hs
  · rename_i e
    exact (decode_done e b).symm
  · rfl

/-- So does a call at the end of the transport. -/
theorem decodeEof_lawful {c c' : ResponseCodec} {b b' : Bytes} {r} (d : c.decodeEof b = (r, c', b')) :
    Lawful c b r c' b' := by
  by_cases hs : c.bodyState = .untilEof
  · by_cases empty : b = []
    · simp only [decodeEof, hs, empty, List.isEmpty_nil, if_true] at d
      cases d
      exact empty.symm
    · simp only [decodeEof, hs, List.isEmpty_iff, empty, if_false] at d
      cases d
      refine ⟨empty, (List.append_nil b).symm, fun n counter => ?_⟩
      simp [remaining, hs] at counter
  · rw [decodeEof_eq hs] at d
    exact decode_lawful d

/-! ## Any number of calls -/

/-- Items that are not empty have a byte each. -/
lemma length_le_flatMap {is : List ResponseCodecItem} (ne : ∀ i ∈ is, rawItem i ≠ []) :
    is.length ≤ (is.flatMap rawItem).length := by
  induction is with
  | nil => exact Nat.le_refl 0
  | cons i is ih =>
    have rest := ih fun j hj => ne j (List.mem_cons_of_mem _ hj)
    have pos := List.length_pos_iff.2 (ne i List.mem_cons_self)
    rw [List.length_cons, List.flatMap_cons, List.length_append]
    omega

/-- A lawful call keeps what was emitted and what waits together, and emits nothing that is empty. -/
lemma Lawful.conserves {c c' : ResponseCodec} {b b' : Bytes} {r} (lawful : Lawful c b r c' b') :
    (Decoder.emitted r).flatMap rawItem ++ b' = b ∧ ∀ i ∈ Decoder.emitted r, rawItem i ≠ [] := by
  match r with
  | .ok (some i) =>
    refine ⟨?_, fun j hj => ?_⟩
    · rw [lawful.front]
      simp [Decoder.emitted]
    · rw [List.mem_singleton.1 hj]
      exact lawful.ne
  | .ok none => exact ⟨lawful, nofun⟩
  | .error e => exact ⟨lawful, nofun⟩

/-- What was emitted and what waits make up what has arrived. -/
lemma uses_conserve {c0 c : ResponseCodec} {w b : Bytes} {is : List ResponseCodecItem}
    (uses : Decoder.Uses c0 w is c b) : is.flatMap rawItem ++ b = w ∧ ∀ i ∈ is, rawItem i ≠ [] := by
  have call : ∀ {w b b' : Bytes} {is : List ResponseCodecItem} {c c' : ResponseCodec} {r},
      (is.flatMap rawItem ++ b = w ∧ ∀ i ∈ is, rawItem i ≠ []) → Lawful c b r c' b' →
      (is ++ Decoder.emitted r).flatMap rawItem ++ b' = w ∧
        ∀ i ∈ is ++ Decoder.emitted r, rawItem i ≠ [] := by
    rintro w b b' is c c' r ⟨cons, ne⟩ lawful
    obtain ⟨cons', ne'⟩ := lawful.conserves
    refine ⟨?_, fun i hi => ?_⟩
    · rw [List.flatMap_append, List.append_assoc, cons', cons]
    · rcases List.mem_append.1 hi with hi | hi
      · exact ne i hi
      · exact ne' i hi
  induction uses with
  | start => exact ⟨rfl, nofun⟩
  | arrive bs _ ih => exact ⟨by rw [← List.append_assoc, ih.1], ih.2⟩
  | decode _ d ih => exact call ih (decode_lawful d)
  | decodeEof _ d ih => exact call ih (decodeEof_lawful d)

/-- The decode loop emits at most as many items as there are bytes in the buffer. -/
lemma drain_length {c c' : ResponseCodec} {b b' : Bytes} {is : List ResponseCodecItem} {r}
    (dr : Decoder.Drain c b is c' b' r) : is.length ≤ b.length := by
  induction dr with
  | none _ => exact Nat.zero_le _
  | error _ => exact Nat.zero_le _
  | some d _ ih =>
    obtain ⟨ne, front, -⟩ := decode_relayed d
    have pos := List.length_pos_iff.2 ne
    rw [front, List.length_append, List.length_cons]
    omega

/-- In every use of a fresh codec: what was emitted and what waits in the buffer make up the bytes
that have arrived, there are no more items than bytes, a counter is at least one, the next call relays
the front of the buffer or leaves it alone, and the decode loop ends. -/
theorem relays_of_uses {w b : Bytes} {is : List ResponseCodecItem} {c : ResponseCodec}
    (uses : Decoder.Uses new w is c b) :
    is.flatMap rawItem ++ b = w ∧ is.length ≤ w.length ∧ (∀ n, c.remaining = some n → 1 ≤ n) ∧
      (∀ r c' b', c.decode b = (r, c', b') ∨ c.decodeEof b = (r, c', b') → Lawful c b r c' b') ∧
      ∃ js c' b' r, Decoder.Drain c b js c' b' r ∧ js.length ≤ b.length := by
  obtain ⟨cons, ne⟩ := uses_conserve uses
  refine ⟨cons, ?_, ?_, ?_, ?_⟩
  · rw [← cons, List.length_append]
    exact (length_le_flatMap ne).trans (Nat.le_add_right _ _)
  · intro n counter
    rw [remaining] at counter
    split at counter
    · rename_i pos _
      cases counter
      exact pos
    · rename_i pos _
      cases counter
      exact pos
    · cases counter
  · rintro r c' b' (d | d)
    · exact decode_lawful d
    · exact decodeEof_lawful d
  · obtain ⟨js, c', b', r, dr⟩ := Decoder.Drain.total incremental c b
    exact ⟨js, c', b', r, dr, drain_length dr⟩

/-- The first bytes of a response. -/
def responseStart : Bytes := lit "HTTP/1.1 200 OK\r\nCon"

/-- Its status line is relayed and the rest waits. -/
theorem relays_of_uses_start :
    ∃ c, Decoder.Uses new responseStart [.frame (.statusLine (lit "HTTP/1.1 200 OK\r\n"))] c (lit "Con") ∧
      rawItem (.frame (.statusLine (lit "HTTP/1.1 200 OK\r\n"))) ++ lit "Con" = responseStart ∧
      ∀ r c' b', c.decode (lit "Con") = (r, c', b') ∨ c.decodeEof (lit "Con") = (r, c', b') →
        Lawful c (lit "Con") r c' b' := by
  have line : IsLine (lit "HTTP/1.1 200 OK") := ⟨by decide, by decide⟩
  have call := decode_headCodec [] line (lit "Con")
  rw [if_neg fun h => h.1 rfl] at call
  have uses : Decoder.Uses new responseStart _ _ _ := .decode (.arrive responseStart .start) call
  obtain ⟨-, -, -, lawful, -⟩ := relays_of_uses uses
  exact ⟨_, uses, by decide, lawful⟩

/-! ## Two transports with the same bytes -/

/-- The state behind the end of the transport. -/
def atEof (c : ResponseCodec) : ResponseCodec :=
  match c.bodyState with
  | .untilEof => { c with bodyState := .done }
  | _ => c

/-- At the end of the transport a codec that wants more bytes has nothing more to say. -/
lemma decodeEof_waiting (c : ResponseCodec) (b : Bytes) (waits : c.decode b = (.ok none, c, b)) :
    c.decodeEof b = (.ok none, c.atEof, b) := by
  by_cases hs : c.bodyState = .untilEof
  · by_cases empty : b = []
    · simp [decodeEof, atEof, hs, empty]
    · rw [decode_untilEof hs empty] at waits
      cases waits
  · have same : c.atEof = c := by
      rw [atEof]
      split
      · rename_i e
        exact absurd e hs
      · rfl
    rw [decodeEof_eq hs, waits, same]

/-- The frames among some items. -/
def frames (is : List ResponseCodecItem) : List HttpFrame :=
  is.filterMap fun
    | .frame f => some f
    | .body _ => none

/-- The bytes of the pieces of the body among some items. -/
def bodyBytes (is : List ResponseCodecItem) : Bytes :=
  is.flatMap fun
    | .frame _ => []
    | .body bs => bs

/-- The frames and the body bytes of some items are those of their atoms. -/
lemma frames_eq_atoms (is : List ResponseCodecItem) :
    frames is = (is.flatMap atoms).filterMap Sum.getLeft? := by
  induction is with
  | nil => rfl
  | cons i is ih =>
    rw [List.flatMap_cons, List.filterMap_append, ← ih]
    cases i with
    | frame f => rfl
    | body bs =>
      have none : (atoms (.body bs)).filterMap Sum.getLeft? = [] := by
        simp [atoms, List.filterMap_eq_nil_iff]
      rw [none]
      rfl

/-- The bytes of the body, whatever its pieces. -/
lemma bodyBytes_eq_atoms (is : List ResponseCodecItem) :
    bodyBytes is = (is.flatMap atoms).filterMap Sum.getRight? := by
  induction is with
  | nil => rfl
  | cons i is ih =>
    rw [List.flatMap_cons, List.filterMap_append, ← ih]
    cases i with
    | frame f => rfl
    | body bs =>
      have all : (atoms (.body bs)).filterMap Sum.getRight? = bs := by
        simp [atoms, List.filterMap_map, Function.comp_def]
      rw [all]
      rfl

/-- How many of the bytes of a transport were taken off the buffer. -/
def consumed (ds : List Bytes) (e : Decoder.End ResponseCodec ResponseCodecItem IoError) : Nat :=
  ds.flatten.length - (e.buffer.length + e.left.flatten.length)

/-- What is the same for two transports with the same bytes. -/
structure Agree (ds ds' : List Bytes) (e e' : Decoder.End ResponseCodec ResponseCodecItem IoError) :
    Prop where
  frames : frames e.out = ResponseCodec.frames e'.out
  bodyBytes : bodyBytes e.out = ResponseCodec.bodyBytes e'.out
  consumed : consumed ds e = ResponseCodec.consumed ds' e'
  err : e.err = e'.err
  bodyState : e.codec.bodyState = e'.codec.bodyState
  bodyFraming : e.codec.bodyFraming = e'.codec.bodyFraming

/-- Every transport is decoded to its end or to its first error, and two transports with the same bytes
agree, wherever their reads are cut. -/
theorem decodes_agree {ds ds' : List Bytes} (same : ds.flatten = ds'.flatten) :
    (∃ e, Decoder.Decodes new [] ds e) ∧ (∃ e', Decoder.Decodes new [] ds' e') ∧
      ∀ e e', Decoder.Decodes new [] ds e → Decoder.Decodes new [] ds' e' → Agree ds ds' e e' := by
  have waits : new.decode [] = (.ok none, new, []) := rfl
  refine ⟨Decoder.Decodes.total incremental atEof decodeEof_waiting waits ds,
    Decoder.Decodes.total incremental atEof decodeEof_waiting waits ds', fun e e' dec dec' => ?_⟩
  obtain ⟨c, feed, codec⟩ := Decoder.Decodes.feed incremental atEof decodeEof_waiting dec waits
  obtain ⟨c', feed', codec'⟩ := Decoder.Decodes.feed incremental atEof decodeEof_waiting dec' waits
  rw [same, feed'] at feed
  obtain ⟨out, rfl, rest, err⟩ := Decoder.Fed.mk.inj feed
  have codec : e.codec = e'.codec := by rw [codec, codec', err]
  have rest := congrArg List.length rest
  rw [List.length_append, List.length_append] at rest
  refine ⟨?_, ?_, ?_, err.symm, by rw [codec], by rw [codec]⟩
  · rw [frames_eq_atoms, frames_eq_atoms, out]
  · rw [bodyBytes_eq_atoms, bodyBytes_eq_atoms, out]
  · rw [consumed, consumed, same, rest]

/-- A response in two reads, and the same response byte by byte. -/
def twoReads : List Bytes := [lit "HTTP/1.1 200 OK\r\nContent-Le", lit "ngth: 2\r\n\r\nok"]

/-- The same response byte by byte. -/
def byteReads : List Bytes := twoReads.flatten.map fun b => [b]

/-- Both are decoded, and to the same. -/
theorem decodes_agree_bytewise :
    (∃ e, Decoder.Decodes new [] twoReads e) ∧ (∃ e', Decoder.Decodes new [] byteReads e') ∧
      ∀ e e', Decoder.Decodes new [] twoReads e → Decoder.Decodes new [] byteReads e' →
        Agree twoReads byteReads e e' :=
  decodes_agree (by decide)

end ResponseCodec

end Railscale.Http
