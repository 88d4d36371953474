import Railscale.Lib.Framed

/-!
# Filling a buffer

The loop `while buf.len() < n { reader.read_buf(&mut buf).await? }` over a transport, for a `BytesMut` with
room for `n` bytes. A read takes no more than the room that is left; what it does not take stays in the
transport. `fill_cases` says what the loop comes to on a transport of proper reads: the first `n` bytes, or
all bytes when these are too few, however the bytes were cut.
-/

namespace Railscale

open ReadResult

variable {ε : Type}

/-- Rust `read_buf` with room for `room` bytes, and the reads that are left. -/
def readBuf (room : Nat) : List (ReadResult ε) → ReadResult ε × List (ReadResult ε)
  | [] => (.data [], [])
  | .data bs :: rs =>
    if bs.length ≤ room then (.data bs, rs) else (.data (bs.take room), .data (bs.drop room) :: rs)
  | r :: rs => (r, rs)

/-- How a filling loop comes to a stop: with a full buffer, at the end of the transport, at an error, or at
a read that is not ready. -/
inductive Fill (ε : Type) where
  | full (buf : Bytes) (reads : List (ReadResult ε))
  | eof (buf : Bytes) (reads : List (ReadResult ε))
  | error (e : ε) (reads : List (ReadResult ε))
  | pending (buf : Bytes) (reads : List (ReadResult ε))

/-- The loop. -/
def fill (n : Nat) (buf : Bytes) (reads : List (ReadResult ε)) : Fill ε :=
  if buf.length < n then
    match readBuf (n - buf.length) reads with
    | (.pending, reads) => .pending buf reads
    | (.error e, reads) => .error e reads
    | (.data [], reads) => .eof buf reads
    | (.data (b :: bs), reads) => fill n (buf ++ b :: bs) reads
  else .full buf reads
termination_by n - buf.length
decreasing_by
  simp only [List.length_append, List.length_cons]
  omega

/-- Every read delivers something or is not ready. -/
def ProperReads (reads : List (ReadResult ε)) : Prop := ∀ r ∈ reads, r.Proper

/-- The reads behind the first one are proper too. -/
lemma ProperReads.tail {r : ReadResult ε} {reads} (h : ProperReads (r :: reads)) : ProperReads reads :=
  fun r' mem => h r' (List.mem_cons_of_mem _ mem)

/-- What the loop comes to on proper reads, when `total` is what the buffer and the transport hold. -/
inductive Filled (n : Nat) (total : Bytes) (count : Nat) : Fill ε → Prop where
  | full {reads} :
    n ≤ total.length →
    all reads = total.drop n →
    ProperReads reads →
    Filled n total count (.full (total.take n) reads)
  | eof :
    total.length < n →
    Filled n total count (.eof total [])
  | pending {buf reads} :
    buf.length < n →
    buf ++ all reads = total →
    ProperReads reads →
    reads.length < count →
    Filled n total count (.pending buf reads)

/-- The number of reads is only a bound. -/
lemma Filled.mono {n count count' : Nat} {total : Bytes} {f : Fill ε} (h : Filled n total count f)
    (le : count ≤ count') : Filled n total count' f := by
  cases h with
  | full long rest proper => exact .full long rest proper
  | eof short => exact .eof short
  | pending short split proper lt => exact .pending short split proper (Nat.lt_of_lt_of_le lt le)

/-- A buffer that is full takes no read. -/
lemma fill_done {n : Nat} {buf : Bytes} (len : buf.length = n) (reads : List (ReadResult ε)) :
    fill n buf reads = .full buf reads := by
  rw [fill, if_neg (by omega)]

/-- A full buffer holds the first bytes. -/
lemma Filled.done {n count : Nat} {buf : Bytes} {reads : List (ReadResult ε)} (len : buf.length = n)
    (proper : ProperReads reads) : Filled n (buf ++ all reads) count (.full buf reads) := by
  have long : n ≤ (buf ++ all reads).length := by
    rw [List.length_append]
    omega
  have first : (buf ++ all reads).take n = buf := by rw [← len, List.take_left]
  have filled : Filled n (buf ++ all reads) count (.full ((buf ++ all reads).take n) reads) :=
    .full long (by rw [← len, List.drop_left]) proper
  rwa [first] at filled

/-- Over proper reads the buffer is filled, or at the end of the transport, or pending, with the bytes in their order.
-/
theorem fill_cases {n : Nat} {buf : Bytes} {reads : List (ReadResult ε)} (proper : ProperReads reads)
    (le : buf.length ≤ n) : Filled n (buf ++ all reads) reads.length (fill n buf reads) := by
  -- a read is taken whole, and the loop goes on with the reads behind it, or it fills the buffer
  induction reads generalizing buf with
  | nil =>
    rcases Nat.eq_or_lt_of_le le with len | lt
    · rw [fill_done len]
      exact .done len proper
    · rw [all_nil, List.append_nil, fill, if_pos lt]
      exact .eof lt
  | cons r reads ih =>
    rcases Nat.eq_or_lt_of_le le with len | lt
    · rw [fill_done len]
      exact .done len proper
    rw [fill, if_pos lt]
    have first := proper r List.mem_cons_self
    match r with
    | .pending => exact .pending lt rfl proper.tail (Nat.lt_succ_self _)
    | .error e => exact absurd first id
    | .data [] => exact absurd rfl first
    | .data (b :: bs) =>
      rw [all_cons, ← List.append_assoc]
      by_cases fits : (b :: bs).length ≤ n - buf.length
      · rw [readBuf, if_pos fits]
        have le' : (buf ++ b :: bs).length ≤ n := by
          rw [List.length_append]
          omega
        exact (ih proper.tail le').mono (Nat.le_succ _)
      · rw [readBuf, if_neg fits]
        obtain ⟨room, hroom⟩ : ∃ room, n - buf.length = room + 1 := ⟨n - buf.length - 1, by omega⟩
        have len : (buf ++ b :: bs.take room).length = n := by
          rw [List.length_append, List.length_cons, List.length_take]
          rw [List.length_cons] at fits
          omega
        have proper' : ProperReads (.data (bs.drop room) :: reads) := by
          intro r mem
          rcases List.mem_cons.1 mem with rfl | mem
          · show bs.drop room ≠ []
            intro none
            rw [List.length_cons] at fits
            have := List.drop_eq_nil_iff.1 none
            omega
          · exact proper.tail r mem
        rw [hroom, List.take_succ_cons, List.drop_succ_cons]
        show Filled n _ _ (fill n (buf ++ b :: bs.take room) (.data (bs.drop room) :: reads))
        rw [fill_done len]
        have split : buf ++ (ReadResult.data (ε := ε) (b :: bs)).bytes ++ all reads =
            buf ++ b :: bs.take room ++ all (.data (bs.drop room) :: reads) := by
          simp only [all_cons, ReadResult.bytes, List.append_assoc, List.cons_append]
          rw [← List.append_assoc (bs.take room), List.take_append_drop]
        rw [split]
        exact .done len proper'

/-! ## Awaiting a filling loop -/

/-- A stream that polls a filling loop, and is suspended where the loop is, awaits what it awaits at the
poll in which the loop comes to its end. -/
theorem next_fill {S ι : Type} [AsyncStream S ι] {n : Nat} {point : Bytes → List (ReadResult ε) → S}
    (suspend : ∀ {buf reads buf' reads'}, fill n buf reads = .pending buf' reads' →
      AsyncStream.pollNext (point buf reads) = (.pending, point buf' reads'))
    (buf : Bytes) {reads : List (ReadResult ε)} (proper : ProperReads reads) (le : buf.length ≤ n) :
    ∃ buf' reads', (∀ o s', AsyncStream.Next (point buf reads) o s' ↔ AsyncStream.Next (point buf' reads') o s') ∧
      (((buf ++ all reads).length < n ∧ fill n buf' reads' = .eof (buf ++ all reads) []) ∨
        ∃ rest, n ≤ (buf ++ all reads).length ∧ fill n buf' reads' = .full ((buf ++ all reads).take n) rest ∧
          all rest = (buf ++ all reads).drop n ∧ ProperReads rest) := by
  generalize hc : reads.length = count
  induction count using Nat.strongRecOn generalizing buf reads with
  | ind count ih =>
    have filled := fill_cases proper le
    generalize hf : fill n buf reads = f at filled
    cases filled with
    | full long rest proper' => exact ⟨buf, reads, fun _ _ => Iff.rfl, .inr ⟨_, long, hf, rest, proper'⟩⟩
    | eof short => exact ⟨buf, reads, fun _ _ => Iff.rfl, .inl ⟨short, hf⟩⟩
    | pending short split proper' less =>
      obtain ⟨buf', reads', same, stop⟩ := ih _ (hc ▸ less) _ proper' (Nat.le_of_lt short) rfl
      rw [split] at stop
      exact ⟨buf', reads', fun o s' => (AsyncStream.next_pending (suspend hf)).trans (same o s'), stop⟩

end Railscale
