import Railscale.Lib.Decoder

/-!
# Framed reads

The asynchronous plumbing of `tokio-util`: a transport is the list of results its reads will give, a
`FramedRead` couples a transport with a decoder and a buffer, and `AsyncStream.Next` is `.next().await`,
that is polling until the stream is ready. `FramedRead.turn` is one turn of the loop in
`FramedRead::poll_next`, with the `is_readable`/`eof`/`has_errored` flags of the original.

A transport ends with end of file, which every later read reports again; a read of no bytes is
reported as end of file as well, and a read that is not ready yet is `pending`.
-/

namespace Railscale

/-- The result of a poll (Rust `std::task::Poll`). -/
inductive Poll (α : Type) where
  | pending
  | ready (a : α)
  deriving DecidableEq

/-- What one poll of a transport gives. -/
inductive ReadResult (ε : Type) where
  | pending
  | data (bs : Bytes)
  | error (e : ε)
  deriving DecidableEq

namespace ReadResult

variable {ε : Type}

/-- The bytes a read delivers. -/
def bytes : ReadResult ε → Bytes
  | .data bs => bs
  | _ => []

/-- A read that is not ready, or that delivers at least one byte. -/
def Proper : ReadResult ε → Prop
  | .pending => True
  | .data bs => bs ≠ []
  | .error _ => False

/-- Whether a read is proper is decided on its bytes. -/
instance : DecidablePred (Proper (ε := ε)) := fun r =>
  match r with
  | .pending => isTrue trivial
  | .data bs => inferInstanceAs (Decidable (bs ≠ []))
  | .error _ => isFalse id

/-- All the bytes a transport delivers. -/
def all (rs : List (ReadResult ε)) : Bytes := rs.flatMap bytes

/-- No reads deliver nothing. -/
@[simp] lemma all_nil : all ([] : List (ReadResult ε)) = [] := rfl

/-- The first read delivers the first bytes. -/
@[simp] lemma all_cons (r : ReadResult ε) (rs : List (ReadResult ε)) :
    all (r :: rs) = r.bytes ++ all rs := rfl

/-- Reads behind others deliver bytes behind theirs. -/
@[simp] lemma all_append (rs ts : List (ReadResult ε)) : all (rs ++ ts) = all rs ++ all ts := by
  simp [all]

/-- The reads up to the one that delivers the `n`-th byte, and the reads after it. -/
def upto : Nat → List (ReadResult ε) → List (ReadResult ε) × List (ReadResult ε)
  | 0, rs => ([], rs)
  | _ + 1, [] => ([], [])
  | n + 1, r :: rs => (r :: (upto (n + 1 - r.bytes.length) rs).1, (upto (n + 1 - r.bytes.length) rs).2)

/-- No bytes need no read. -/
@[simp] lemma upto_zero (rs : List (ReadResult ε)) : upto 0 rs = ([], rs) := by
  cases rs <;> rfl

/-- A read is taken as long as bytes are missing. -/
lemma upto_cons {n : Nat} (pos : 0 < n) (r : ReadResult ε) (rs : List (ReadResult ε)) :
    upto n (r :: rs) =
      (r :: (upto (n - r.bytes.length) rs).1, (upto (n - r.bytes.length) rs).2) := by
  cases n with
  | zero => omega
  | succ n => rfl

/-- The reads that are taken and those that are left are all of them. -/
lemma upto_append (n : Nat) (rs : List (ReadResult ε)) : (upto n rs).1 ++ (upto n rs).2 = rs := by
  induction rs generalizing n with
  | nil => cases n <;> rfl
  | cons r rs ih =>
    cases n with
    | zero => rfl
    | succ n => simp [upto, ih]

end ReadResult

/-- An asynchronous stream of items (Rust `Stream`). -/
class AsyncStream (S : Type) (ι : outParam Type) where
  /-- One poll. -/
  pollNext : S → Poll (Option ι) × S

namespace AsyncStream

variable {S ι ε β : Type}

/-- `.next().await`: poll until ready. -/
inductive Next [AsyncStream S ι] : S → Option ι → S → Prop where
  | ready {s o s'} :
    pollNext s = (.ready o, s') →
    Next s o s'
  | pending {s s1 o s'} :
    pollNext s = (.pending, s1) →
    Next s1 o s' →
    Next s o s'

/-- The awaited item is a function of the stream. -/
lemma Next.unique [AsyncStream S ι] {s s1 s2 : S} {o1 o2 : Option ι}
    (n1 : Next s o1 s1) (n2 : Next s o2 s2) : o1 = o2 ∧ s1 = s2 := by
  induction n1 with
  | ready h =>
    cases n2 with
    | ready h' => rw [h] at h'; cases h'; exact ⟨rfl, rfl⟩
    | pending h' _ => rw [h] at h'; cases h'
  | pending h _ ih =>
    cases n2 with
    | ready h' => rw [h] at h'; cases h'
    | pending h' n2 => rw [h] at h'; cases h'; exact ih n2

/-- Two streams that a poll takes to the same result and state have the same next item. -/
lemma next_congr [AsyncStream S ι] {s t s' : S} {o : Option ι} (e : pollNext s = pollNext t) :
    Next s o s' ↔ Next t o s' := by
  constructor
  · intro n
    cases n with
    | ready h => exact .ready (e ▸ h)
    | pending h n => exact .pending (e ▸ h) n
  · intro n
    cases n with
    | ready h => exact .ready (e.trans h)
    | pending h n => exact .pending (e.trans h) n

/-- A pending poll does not change what comes next. -/
lemma next_pending [AsyncStream S ι] {s t s' : S} {o : Option ι} (e : pollNext s = (.pending, t)) :
    Next s o s' ↔ Next t o s' := by
  constructor
  · intro n
    cases n with
    | ready h => rw [e] at h; cases h
    | pending h n => rw [e] at h; cases h; exact n
  · exact .pending e

/-- A loop over a stream that stops at its first `None` or at its first error: the items seen, how it
stopped, and the stream it leaves. -/
inductive Collect [AsyncStream S (Except ε β)] : S → List β → Option ε → S → Prop where
  | none {s s'} :
    Next s none s' →
    Collect s [] none s'
  | error {s e s'} :
    Next s (some (.error e)) s' →
    Collect s [] (some e) s'
  | item {s i s1 is r s'} :
    Next s (some (.ok i)) s1 →
    Collect s1 is r s' →
    Collect s (i :: is) r s'

/-- A loop over a stream is a function of the stream. -/
lemma Collect.unique [AsyncStream S (Except ε β)] {s s1 s2 : S} {is1 is2 : List β} {r1 r2 : Option ε}
    (c1 : Collect s is1 r1 s1) (c2 : Collect s is2 r2 s2) : is1 = is2 ∧ r1 = r2 ∧ s1 = s2 := by
  induction c1 generalizing is2 with
  | none n =>
    cases c2 with
    | none n' => exact ⟨rfl, rfl, (n.unique n').2⟩
    | error n' => cases (n.unique n').1
    | item n' _ => cases (n.unique n').1
  | error n =>
    cases c2 with
    | none n' => cases (n.unique n').1
    | error n' => obtain ⟨e, rfl⟩ := n.unique n'; cases e; exact ⟨rfl, rfl, rfl⟩
    | item n' _ => cases (n.unique n').1
  | item n _ ih =>
    cases c2 with
    | none n' => cases (n.unique n').1
    | error n' => cases (n.unique n').1
    | item n' c2 =>
      obtain ⟨e, rfl⟩ := n.unique n'
      cases e
      obtain ⟨rfl, rfl, rfl⟩ := ih c2
      exact ⟨rfl, rfl, rfl⟩

/-- Streams that await the same items are looped over in the same way. -/
lemma Collect.congr [AsyncStream S (Except ε β)] {s t s' : S} {is : List β} {r : Option ε}
    (h : ∀ o s', Next s o s' ↔ Next t o s') : Collect s is r s' ↔ Collect t is r s' := by
  have one : ∀ {s t : S}, (∀ o s', Next s o s' → Next t o s') →
      Collect s is r s' → Collect t is r s' := by
    intro s t h c
    cases c with
    | none n => exact .none (h _ _ n)
    | error n => exact .error (h _ _ n)
    | item n c => exact .item (h _ _ n) c
  exact ⟨one fun o s' => (h o s').1, one fun o s' => (h o s').2⟩

/-- All the items of a stream, up to its end. -/
inductive Yields [AsyncStream S ι] : S → List ι → S → Prop where
  | none {s s'} :
    Next s none s' →
    Yields s [] s'
  | item {s i s1 is s'} :
    Next s (some i) s1 →
    Yields s1 is s' →
    Yields s (i :: is) s'

/-- The items of a stream are a function of the stream. -/
lemma Yields.unique [AsyncStream S ι] {s s1 s2 : S} {is1 is2 : List ι} (y1 : Yields s is1 s1)
    (y2 : Yields s is2 s2) : is1 = is2 ∧ s1 = s2 := by
  induction y1 generalizing is2 with
  | none n =>
    cases y2 with
    | none n' => exact ⟨rfl, (n.unique n').2⟩
    | item n' _ => cases (n.unique n').1
  | item n _ ih =>
    cases y2 with
    | none n' => cases (n.unique n').1
    | item n' y2 =>
      obtain ⟨e, rfl⟩ := n.unique n'
      cases e
      obtain ⟨rfl, rfl⟩ := ih y2
      exact ⟨rfl, rfl⟩

/-- Polls of a stream that have given some items and neither an error nor the end. -/
inductive Polls [AsyncStream S (Except ε β)] (s : S) : List β → S → Prop where
  | start :
    Polls s [] s
  | pending {is s1 s2} :
    Polls s is s1 →
    pollNext s1 = (.pending, s2) →
    Polls s is s2
  | item {is s1 i s2} :
    Polls s is s1 →
    pollNext s1 = (.ready (some (.ok i)), s2) →
    Polls s (is ++ [i]) s2

/-- Polling is looping over the stream. -/
lemma Polls.collect [AsyncStream S (Except ε β)] {s s1 s' : S} {is js : List β} {r : Option ε}
    (polls : Polls s is s1) (coll : Collect s1 js r s') : Collect s (is ++ js) r s' := by
  induction polls generalizing js with
  | start => exact coll
  | pending _ p ih => exact ih ((Collect.congr fun _ _ => next_pending p).2 coll)
  | item _ p ih =>
    rw [List.append_assoc]
    exact ih (.item (.ready p) coll)

end AsyncStream

/-- A transport, a decoder and the buffer between them (tokio-util `FramedRead`). -/
structure FramedRead (C ε : Type) where
  codec : C
  buffer : Bytes
  isReadable : Bool
  eof : Bool
  hasErrored : Bool
  /-- what the transport will give, end of file after that -/
  reads : List (ReadResult ε)

namespace FramedRead

open ReadResult

variable {C ι ε : Type}

/-- A fresh `FramedRead` (Rust `FramedRead::new`). -/
def new (codec : C) (reads : List (ReadResult ε)) : FramedRead C ε :=
  ⟨codec, [], false, false, false, reads⟩

/-- A read of no bytes: end of file, unless that was reported before. -/
def readZero (s : FramedRead C ε) : Option (Poll (Option (Except ε ι))) × FramedRead C ε :=
  if s.eof then (some (.ready none), s)
  else (none, { s with eof := true, isReadable := true })

/-- The reading half of a turn. -/
def read (s : FramedRead C ε) : Option (Poll (Option (Except ε ι))) × FramedRead C ε :=
  match s.reads with
  | [] => s.readZero
  | .pending :: rs => (some .pending, { s with reads := rs })
  | .error e :: rs => (some (.ready (some (.error e))), { s with reads := rs, hasErrored := true })
  | .data [] :: rs => readZero { s with reads := rs }
  | .data bs :: rs =>
    (none, { s with reads := rs, buffer := s.buffer ++ bs, eof := false, isReadable := true })

variable [Decoder C ι ε]

/-- One turn of the loop of `poll_next`: `none` is another turn. -/
def turn (s : FramedRead C ε) : Option (Poll (Option (Except ε ι))) × FramedRead C ε :=
  if s.hasErrored then
    (some (.ready none), { s with isReadable := false, hasErrored := false })
  else if s.isReadable then
    if s.eof then
      match Decoder.decodeEof s.codec s.buffer with
      | (.error e, c, b) =>
        (some (.ready (some (.error e))), { s with codec := c, buffer := b, hasErrored := true })
      | (.ok none, c, b) =>
        (some (.ready none), { s with codec := c, buffer := b, isReadable := false })
      | (.ok (some i), c, b) =>
        (some (.ready (some (.ok i))), { s with codec := c, buffer := b })
    else
      match Decoder.decode s.codec s.buffer with
      | (.error e, c, b) =>
        (some (.ready (some (.error e))), { s with codec := c, buffer := b, hasErrored := true })
      | (.ok none, c, b) => read { s with codec := c, buffer := b, isReadable := false }
      | (.ok (some i), c, b) =>
        (some (.ready (some (.ok i))), { s with codec := c, buffer := b })
  else s.read

/-- Turns until one of them returns. -/
def pollFuel : Nat → FramedRead C ε → Poll (Option (Except ε ι)) × FramedRead C ε
  | 0, s => (.pending, s)
  | n + 1, s =>
    match s.turn with
    | (some p, s') => (p, s')
    | (none, s') => pollFuel n s'

/-- How many more turns a poll can take: each unfinished turn takes a read or finds the end. -/
def turns (s : FramedRead C ε) : Nat :=
  if s.hasErrored || (s.isReadable && s.eof) then 0 else s.reads.length + 1

/-- `FramedRead::poll_next`. -/
def poll (s : FramedRead C ε) : Poll (Option (Except ε ι)) × FramedRead C ε :=
  pollFuel (s.turns + 1) s

/-- A framed reader is a stream. -/
instance : AsyncStream (FramedRead C ε) (Except ε ι) := ⟨poll⟩

omit [Decoder C ι ε] in
/-- The reading half finishes the poll or gets closer to finishing it. -/
lemma read_turns {s s' : FramedRead C ε} (ne : s.hasErrored = false)
    (h : read (ι := ι) s = (none, s')) : s'.turns < s.reads.length + 1 := by
  have zero : ∀ t : FramedRead C ε, readZero (ι := ι) t = (none, s') → s'.turns = 0 := by
    intro t ht
    unfold readZero at ht
    split at ht
    · cases ht
    · cases ht; simp [turns]
  unfold read at h
  split at h
  · rw [zero _ h]; omega
  · cases h
  · cases h
  · rw [zero _ h]; omega
  · rename_i e
    cases h
    simp [turns, ne, e]

/-- An unfinished turn gets closer to the end of the poll. -/
lemma turn_turns {s s' : FramedRead C ε} (h : s.turn = (none, s')) : s'.turns < s.turns := by
  unfold turn at h
  split at h
  · cases h
  · rename_i ne
    have ne : s.hasErrored = false := by simpa using ne
    split at h
    · split at h
      · split at h <;> cases h
      · rename_i ne' eof
        have lt : s'.turns < s.reads.length + 1 := by
          split at h
          · cases h
          · exact read_turns (s := { s with isReadable := false, codec := _, buffer := _ }) ne h
          · cases h
        simpa [turns, ne, eof] using lt
    · rename_i nr
      have lt := read_turns ne h
      simpa [turns, ne, nr] using lt

/-- Fuel beyond the turns a poll can take does not matter. -/
lemma pollFuel_eq {s : FramedRead C ε} {n m : Nat} (hn : s.turns < n) (hm : s.turns < m) :
    pollFuel n s = pollFuel m s := by
  induction n generalizing s m with
  | zero => omega
  | succ n ih =>
    cases m with
    | zero => omega
    | succ m =>
      simp only [pollFuel]
      split
      · rfl
      · rename_i h
        have lt := turn_turns h
        exact ih (by omega) (by omega)

/-- A poll is one turn, and another poll when the turn does not finish it. -/
lemma poll_eq (s : FramedRead C ε) :
    s.poll = match s.turn with
      | (some p, s') => (p, s')
      | (none, s') => s'.poll := by
  rw [poll, pollFuel]
  split
  · rfl
  · rename_i h
    rw [poll]
    have lt := turn_turns h
    exact pollFuel_eq (by omega) (by omega)

/-! ## What a turn does to the bytes -/

/-- What a call does to the buffer: an item takes it as `R` says, and without an item it stays. -/
def Consumed (R : ι → Bytes → Bytes → Prop) : Except ε (Option ι) → Bytes → Bytes → Prop
  | .ok (some i), b, b' => R i b b'
  | _, b, b' => b' = b

/-- While `P` holds of it, the decoder keeps it and takes its items as `R` says. -/
structure Consumes (P : C → Prop) (R : ι → Bytes → Bytes → Prop) : Prop where
  decode : ∀ {c b r c' b'}, P c → Decoder.decode (ε := ε) c b = (r, c', b') → P c' ∧ Consumed R r b b'
  decodeEof : ∀ {c b r c' b'}, P c → Decoder.decodeEof (ε := ε) c b = (r, c', b') →
    P c' ∧ Consumed R r b b'

/-- What a turn does to the buffer with the bytes it has read. -/
def Turned (R : ι → Bytes → Bytes → Prop) : Option (Poll (Option (Except ε ι))) → Bytes → Bytes → Prop
  | some (.ready (some r)), b, b' => Consumed R (r.map some) b b'
  | _, b, b' => b' = b

/-- From one state to another the stream makes at most one read, and the bytes go where `Turned` says. -/
def Moves (P : C → Prop) (R : ι → Bytes → Bytes → Prop) (s : FramedRead C ε)
    (r : Option (Poll (Option (Except ε ι)))) (s' : FramedRead C ε) : Prop :=
  P s'.codec ∧
    ∃ pre, pre.length ≤ 1 ∧ s.reads = pre ++ s'.reads ∧ Turned R r (s.buffer ++ all pre) s'.buffer

omit [Decoder C ι ε] in
/-- A read of no bytes changes only the flags. -/
lemma readZero_eq {s s' : FramedRead C ε} {r} (h : readZero (ι := ι) s = (r, s')) :
    (r = none ∨ r = some (.ready none)) ∧
      s' = { s with eof := s'.eof, isReadable := s'.isReadable } := by
  unfold readZero at h
  split at h
  · cases h
    exact ⟨.inr rfl, rfl⟩
  · cases h
    exact ⟨.inl rfl, rfl⟩

omit [Decoder C ι ε] in
/-- A read that gives no bytes, or no bytes yet. -/
lemma Moves.idle {P : C → Prop} {R : ι → Bytes → Bytes → Prop} {s s' : FramedRead C ε} {r}
    (pre : List (ReadResult ε)) (p : P s'.codec) (one : pre.length ≤ 1) (reads : s.reads = pre ++ s'.reads)
    (nothing : all pre = [])
    (buffer : s'.buffer = s.buffer) (noItem : ∀ i, r ≠ some (.ready (some (.ok i)))) : Moves P R s r s' := by
  refine ⟨p, pre, one, reads, ?_⟩
  rw [nothing, List.append_nil, buffer]
  match r with
  | none => rfl
  | some .pending => rfl
  | some (.ready none) => rfl
  | some (.ready (some (.error _))) => rfl
  | some (.ready (some (.ok i))) => exact absurd rfl (noItem i)

omit [Decoder C ι ε] in
/-- `read` moves the stream. -/
lemma read_moves {P : C → Prop} {R : ι → Bytes → Bytes → Prop} {s s' : FramedRead C ε} {r}
    (p : P s.codec) (h : s.read = (r, s')) : Moves P R s r s' := by
  unfold read at h
  split at h
  · rename_i e
    obtain ⟨end_, same⟩ := readZero_eq h
    rw [same]
    refine .idle [] p (Nat.zero_le _) rfl rfl rfl fun i => ?_
    rcases end_ with rfl | rfl <;> nofun
  · rename_i rs e
    cases h
    exact .idle [.pending] p (Nat.le_refl 1) e rfl rfl nofun
  · rename_i err rs e
    cases h
    exact .idle [.error err] p (Nat.le_refl 1) e rfl rfl nofun
  · rename_i rs e
    obtain ⟨end_, same⟩ := readZero_eq h
    rw [same]
    refine .idle [.data []] p (Nat.le_refl 1) e rfl rfl fun i => ?_
    rcases end_ with rfl | rfl <;> nofun
  · rename_i bs rs _ e
    cases h
    exact ⟨p, [.data bs], Nat.le_refl 1, e, by simp [Turned, bytes]⟩

omit [Decoder C ι ε] in
/-- A call that ends a turn. -/
lemma Moves.call {P : C → Prop} {R : ι → Bytes → Bytes → Prop} {s s' : FramedRead C ε}
    {r : Except ε (Option ι)} {r'} (p : P s'.codec) (reads : s'.reads = s.reads)
    (taken : Consumed R r s.buffer s'.buffer) (result : Turned R r' s.buffer s'.buffer ↔
      Consumed R r s.buffer s'.buffer) : Moves P R s r' s' := by
  refine ⟨p, [], Nat.zero_le _, reads.symm, ?_⟩
  rw [all_nil, List.append_nil]
  exact result.2 taken

/-- A turn of a stream whose decoder takes its items as `R` says. -/
theorem turn_moves {P : C → Prop} {R : ι → Bytes → Bytes → Prop} (cons : Consumes (ε := ε) P R)
    {s s' : FramedRead C ε} {r} (p : P s.codec) (h : s.turn = (r, s')) : Moves P R s r s' := by
  unfold turn at h
  split at h
  · cases h
    exact .idle [] p (Nat.zero_le _) rfl rfl rfl nofun
  split at h
  · split at h
    · split at h
      all_goals
        rename_i d
        obtain ⟨p', taken⟩ := cons.decodeEof p d
        cases h
        exact .call p' rfl taken Iff.rfl
    · split at h
      · rename_i d
        obtain ⟨p', taken⟩ := cons.decode p d
        cases h
        exact .call p' rfl taken Iff.rfl
      · rename_i c b d
        obtain ⟨p', taken⟩ := cons.decode p d
        -- the decoder waits and has left the buffer, to which the read appends
        have taken : b = s.buffer := taken
        rw [taken] at h
        exact read_moves (s := { s with codec := c, isReadable := false }) p' h
      · rename_i d
        obtain ⟨p', taken⟩ := cons.decode p d
        cases h
        exact .call p' rfl taken Iff.rfl
  · exact read_moves p h

omit [Decoder C ι ε] in
/-- A read that delivers bytes does not end the poll. -/
lemma read_delivers {s s' : FramedRead C ε} {r} (h : read (ι := ι) s = (r, s'))
    (less : (all s'.reads).length < (all s.reads).length) : r = none := by
  have zero : ∀ t : FramedRead C ε, readZero (ι := ι) t = (r, s') → s'.reads = t.reads :=
    fun t ht => by rw [(readZero_eq ht).2]
  unfold read at h
  split at h
  · rw [zero _ h] at less
    exact absurd less (Nat.lt_irrefl _)
  · rename_i e
    cases h
    rw [e] at less
    exact absurd less (Nat.lt_irrefl _)
  · rename_i e
    cases h
    rw [e] at less
    exact absurd less (Nat.lt_irrefl _)
  · rename_i e
    rw [zero _ h, e] at less
    exact absurd less (Nat.lt_irrefl _)
  · cases h
    rfl

/-- A turn that delivers bytes does not end the poll. -/
lemma turn_delivers {s s' : FramedRead C ε} {r} (h : s.turn = (r, s'))
    (less : (all s'.reads).length < (all s.reads).length) : r = none := by
  unfold turn at h
  split at h
  · cases h
    exact absurd less (Nat.lt_irrefl _)
  split at h
  · split at h
    · split at h
      all_goals
        cases h
        exact absurd less (Nat.lt_irrefl _)
    · split at h
      · cases h
        exact absurd less (Nat.lt_irrefl _)
      · exact read_delivers (s := { s with codec := _, buffer := _, isReadable := false }) h less
      · cases h
        exact absurd less (Nat.lt_irrefl _)
  · exact read_delivers h less

omit [Decoder C ι ε] in
/-- The reading half takes a read, or finds the end for the first time, or reports it again. -/
lemma read_progress {s s' : FramedRead C ε} {r} (h : read (ι := ι) s = (r, s')) :
    s'.reads.length < s.reads.length ∨ (s'.reads = s.reads ∧ s.eof = false ∧ s'.eof = true ∧ r = none) ∨
      (s'.reads = s.reads ∧ s'.eof = s.eof ∧ r = some (.ready none)) := by
  unfold read at h
  split at h
  · unfold readZero at h
    split at h
    · cases h
      exact .inr (.inr ⟨rfl, rfl, rfl⟩)
    · rename_i first
      cases h
      exact .inr (.inl ⟨rfl, eq_false_of_ne_true first, rfl, rfl⟩)
  all_goals
    rename_i reads
    refine .inl ?_
    rw [reads]
  · cases h
    exact Nat.lt_succ_self _
  · cases h
    exact Nat.lt_succ_self _
  · obtain ⟨-, same⟩ := readZero_eq h
    rw [same]
    exact Nat.lt_succ_self _
  · cases h
    exact Nat.lt_succ_self _

/-- A turn takes a read, or finds the end for the first time, or finishes the poll. -/
lemma turn_progress {s s' : FramedRead C ε} {r} (h : s.turn = (r, s')) :
    s'.reads.length < s.reads.length ∨ (s'.reads = s.reads ∧ s.eof = false ∧ s'.eof = true ∧ r = none) ∨
      (s'.reads = s.reads ∧ s'.eof = s.eof ∧ ∃ o, r = some (.ready o)) := by
  have reading : ∀ {t : FramedRead C ε}, t.reads = s.reads → t.eof = s.eof → read (ι := ι) t = (r, s') →
      s'.reads.length < s.reads.length ∨ (s'.reads = s.reads ∧ s.eof = false ∧ s'.eof = true ∧ r = none) ∨
        (s'.reads = s.reads ∧ s'.eof = s.eof ∧ ∃ o, r = some (.ready o)) := by
    intro t reads eof h
    obtain less | first | ⟨same, again, rfl⟩ := read_progress h
    · exact .inl (reads ▸ less)
    · exact .inr (.inl (reads ▸ eof ▸ first))
    · exact .inr (.inr ⟨same.trans reads, again.trans eof, _, rfl⟩)
  unfold turn at h
  split at h
  · cases h
    exact .inr (.inr ⟨rfl, rfl, _, rfl⟩)
  split at h
  · split at h
    · split at h
      all_goals
        cases h
        exact .inr (.inr ⟨rfl, rfl, _, rfl⟩)
    · split at h
      · cases h
        exact .inr (.inr ⟨rfl, rfl, _, rfl⟩)
      · exact reading (t := { s with codec := _, buffer := _, isReadable := false }) rfl rfl h
      · cases h
        exact .inr (.inr ⟨rfl, rfl, _, rfl⟩)
  · exact reading rfl rfl h

/-! ## What a poll does to the decoder -/

/-- The item of a call. -/
def callItem : Except ε (Option ι) → Option ι
  | .ok o => o
  | .error _ => none

/-- The item of a turn. -/
def turnItem : Option (Poll (Option (Except ε ι))) → Option ι
  | some (.ready (some (.ok i))) => some i
  | _ => none

/-- A relation between the decoder before, the item handed out and the decoder after, that every call
keeps and that composes up to the first item. -/
structure Tracks (Q : C → Option ι → C → Prop) : Prop where
  refl : ∀ {c}, Q c none c
  trans : ∀ {c c1 o c2}, Q c none c1 → Q c1 o c2 → Q c o c2
  decode : ∀ {c b r c' b'}, Decoder.decode (ε := ε) c b = (r, c', b') → Q c (callItem r) c'
  decodeEof : ∀ {c b r c' b'}, Decoder.decodeEof (ε := ε) c b = (r, c', b') → Q c (callItem r) c'

omit [Decoder C ι ε] in
/-- A read leaves the decoder alone and gives no item. -/
lemma read_codec {s s' : FramedRead C ε} {r} (h : read (ι := ι) s = (r, s')) :
    turnItem r = none ∧ s'.codec = s.codec := by
  have zero : ∀ t : FramedRead C ε, readZero (ι := ι) t = (r, s') →
      turnItem r = none ∧ s'.codec = t.codec := by
    intro t ht
    obtain ⟨none, same⟩ := readZero_eq ht
    rw [same]
    rcases none with rfl | rfl <;> exact ⟨rfl, rfl⟩
  unfold read at h
  split at h
  · exact zero _ h
  · cases h; exact ⟨rfl, rfl⟩
  · cases h; exact ⟨rfl, rfl⟩
  · obtain ⟨noItem, codec⟩ := zero _ h
    exact ⟨noItem, codec⟩
  · cases h; exact ⟨rfl, rfl⟩

/-- A turn of the loop tracks the items. -/
lemma turn_tracks {Q : C → Option ι → C → Prop} (tracks : Tracks (ε := ε) Q) {s s' : FramedRead C ε} {r}
    (h : s.turn = (r, s')) : Q s.codec (turnItem r) s'.codec := by
  unfold turn at h
  split at h
  · cases h
    exact tracks.refl
  split at h
  · split at h
    · split at h
      all_goals
        rename_i d
        cases h
        exact tracks.decodeEof d
    · split at h
      · rename_i d
        cases h
        exact tracks.decode d
      · rename_i d
        obtain ⟨noItem, codec⟩ := read_codec h
        rw [noItem, codec]
        exact tracks.decode d
      · rename_i d
        cases h
        exact tracks.decode d
  · obtain ⟨noItem, codec⟩ := read_codec h
    rw [noItem, codec]
    exact tracks.refl

/-- A poll is related as its turns are: all but the last give no item. -/
theorem poll_tracks {Q : C → Option ι → C → Prop} (tracks : Tracks (ε := ε) Q) (s : FramedRead C ε) :
    Q s.codec (turnItem (some s.poll.1)) s.poll.2.codec := by
  rw [poll]
  generalize s.turns + 1 = n
  induction n generalizing s with
  | zero => exact tracks.refl
  | succ n ih =>
    rw [pollFuel]
    rcases turn : s.turn with ⟨_ | p, s1⟩
    · exact tracks.trans (turn_tracks tracks turn) (ih s1)
    · exact turn_tracks tracks turn

/-- An item leaves the stream readable. -/
lemma turn_item_flags {s s' : FramedRead C ε} {i} (h : s.turn = (some (.ready (some (.ok i))), s')) :
    s'.hasErrored = false ∧ s'.isReadable = true := by
  unfold turn at h
  split at h
  · cases h
  rename_i ne
  have ne : s.hasErrored = false := by simpa using ne
  split at h
  · rename_i rd
    split at h
    · split at h
      · cases h
      · cases h
      · cases h; exact ⟨ne, rd⟩
    · split at h
      · cases h
      · have item := (read_codec h).1
        cases item
      · cases h; exact ⟨ne, rd⟩
  · have item := (read_codec h).1
    cases item

/-- Behind an item the reader is readable and without an error. -/
lemma poll_item_flags {s : FramedRead C ε} {i s'} (h : s.poll = (.ready (some (.ok i)), s')) :
    s'.hasErrored = false ∧ s'.isReadable = true := by
  rw [poll] at h
  generalize s.turns + 1 = n at h
  induction n generalizing s with
  | zero => cases h
  | succ n ih =>
    rw [pollFuel] at h
    rcases turn : s.turn with ⟨_ | p, s1⟩
    · rw [turn] at h
      exact ih h
    · rw [turn] at h
      cases h
      exact turn_item_flags turn

/-- A stream that ends is at the end of its transport. -/
lemma turn_end_flags {s s' : FramedRead C ε} {r} (ok : s.hasErrored = false) (h : s.turn = (r, s')) :
    (r = some (.ready none) → s'.eof = true) ∧ (r = none ∨ r = some .pending → s'.hasErrored = false) := by
  have zero : ∀ {t : FramedRead C ε}, t.hasErrored = false → readZero (ι := ι) t = (r, s') →
      (r = some (.ready none) → s'.eof = true) ∧ (r = none ∨ r = some .pending → s'.hasErrored = false) := by
    intro t ok h
    unfold readZero at h
    split at h
    · rename_i eof
      cases h
      exact ⟨fun _ => eof, fun _ => ok⟩
    · cases h
      exact ⟨fun _ => rfl, fun _ => ok⟩
  have reading : ∀ {t : FramedRead C ε}, t.hasErrored = false → read (ι := ι) t = (r, s') →
      (r = some (.ready none) → s'.eof = true) ∧ (r = none ∨ r = some .pending → s'.hasErrored = false) := by
    intro t ok h
    unfold read at h
    split at h
    · exact zero ok h
    · cases h
      exact ⟨by rintro ⟨⟩, fun _ => ok⟩
    · cases h
      exact ⟨by rintro ⟨⟩, by rintro (h | h) <;> cases h⟩
    · rename_i rs _
      exact zero (t := { t with reads := rs }) ok h
    · cases h
      exact ⟨by rintro ⟨⟩, fun _ => ok⟩
  unfold turn at h
  rw [if_neg (by rw [ok]; exact Bool.false_ne_true)] at h
  split at h
  · split at h
    · rename_i eof
      split at h
      · cases h
        exact ⟨fun _ => eof, by rintro (h | h) <;> cases h⟩
      · cases h
        exact ⟨fun _ => eof, fun _ => ok⟩
      · cases h
        exact ⟨fun _ => eof, fun _ => ok⟩
    · split at h
      · cases h
        exact ⟨by rintro ⟨⟩, by rintro (h | h) <;> cases h⟩
      · exact reading (t := { s with codec := _, buffer := _, isReadable := false }) ok h
      · cases h
        exact ⟨by rintro ⟨⟩, fun _ => ok⟩
  · exact reading ok h

/-- A reader without an error ends only at the end of its transport, and is without an error behind a pending poll. -/
lemma poll_end_flags {s s' : FramedRead C ε} {r} (ok : s.hasErrored = false) (h : s.poll = (r, s')) :
    (r = .ready none → s'.eof = true) ∧ (r = .pending → s'.hasErrored = false) := by
  rw [poll] at h
  generalize s.turns + 1 = n at h
  induction n generalizing s with
  | zero =>
    cases h
    exact ⟨by rintro ⟨⟩, fun _ => ok⟩
  | succ n ih =>
    rw [pollFuel] at h
    rcases turn : s.turn with ⟨_ | p, s1⟩
    · rw [turn] at h
      exact ih ((turn_end_flags ok turn).2 (.inl rfl)) h
    · rw [turn] at h
      cases h
      obtain ⟨ended, unready⟩ := turn_end_flags ok turn
      exact ⟨fun same => ended (congrArg some same), fun same => unready (.inr (congrArg some same))⟩

/-! ## The turns of a live stream -/

/-- Neither failed nor at the end of the transport. -/
structure Live (s : FramedRead C ε) : Prop where
  noError : s.hasErrored = false
  noEof : s.eof = false

/-- The decoder wants more bytes. -/
def Waiting (s : FramedRead C ε) : Prop :=
  s.isReadable = true → Decoder.decode s.codec s.buffer = (.ok none, s.codec, s.buffer)

/-- A readable reader gives what the decoder finds. -/
lemma turn_item {s : FramedRead C ε} (live : s.Live) (rd : s.isReadable = true) {i c b}
    (d : Decoder.decode s.codec s.buffer = (.ok (some i), c, b)) :
    s.turn = (some (.ready (some (.ok i))), { s with codec := c, buffer := b }) := by
  simp [turn, live.noError, live.noEof, rd, d]

/-- A readable reader fails where the decoder fails. -/
lemma turn_error {s : FramedRead C ε} (live : s.Live) (rd : s.isReadable = true) {e c b}
    (d : Decoder.decode s.codec s.buffer = (.error e, c, b)) :
    s.turn = (some (.ready (some (.error e))),
      { s with codec := c, buffer := b, hasErrored := true }) := by
  simp [turn, live.noError, live.noEof, rd, d]

/-- A waiting stream reads. -/
lemma turn_waiting {s : FramedRead C ε} (live : s.Live) (w : s.Waiting) :
    s.turn = read { s with isReadable := false } := by
  cases rd : s.isReadable with
  | true => simp [turn, live.noError, live.noEof, rd, w rd]
  | false =>
    have e : { s with isReadable := false } = s := by rw [← rd]
    rw [e, turn, live.noError, rd]
    rfl

/-- A waiting reader takes a read. -/
lemma turn_data {s : FramedRead C ε} (live : s.Live) (w : s.Waiting) {d rs}
    (h : s.reads = .data d :: rs) (ne : d ≠ []) :
    s.turn = (none, { s with buffer := s.buffer ++ d, isReadable := true, reads := rs }) := by
  obtain ⟨x, d, rfl⟩ := List.exists_cons_of_ne_nil ne
  rw [turn_waiting live w]
  simp [read, h, live.noEof]

/-- A waiting reader is pending with its transport. -/
lemma turn_pending {s : FramedRead C ε} (live : s.Live) (w : s.Waiting) {rs}
    (h : s.reads = .pending :: rs) :
    s.turn = (some .pending, { s with isReadable := false, reads := rs }) := by
  rw [turn_waiting live w]
  simp [read, h]

/-- A waiting reader fails with its transport. -/
lemma turn_readError {s : FramedRead C ε} (live : s.Live) (w : s.Waiting) {e rs}
    (h : s.reads = .error e :: rs) :
    s.turn = (some (.ready (some (.error e))),
      { s with isReadable := false, hasErrored := true, reads := rs }) := by
  rw [turn_waiting live w]
  simp [read, h]

/-- A waiting reader takes a read without bytes as the end. -/
lemma turn_readNothing {s : FramedRead C ε} (live : s.Live) (w : s.Waiting) {rs}
    (h : s.reads = .data [] :: rs) :
    s.turn = (none, { s with eof := true, isReadable := true, reads := rs }) := by
  rw [turn_waiting live w]
  simp [read, h, readZero, live.noEof]

/-- A waiting reader without reads is at the end. -/
lemma turn_eof {s : FramedRead C ε} (live : s.Live) (w : s.Waiting) (h : s.reads = []) :
    s.turn = (none, { s with eof := true, isReadable := true }) := by
  rw [turn_waiting live w]
  simp [read, h, readZero, live.noEof]

/-- At the end of the transport a decoder with nothing more to say ends the stream. -/
lemma turn_ended {s : FramedRead C ε} (ne : s.hasErrored = false) (eof : s.eof = true)
    (rd : s.isReadable = true) {c b} (d : Decoder.decodeEof s.codec s.buffer = (.ok none, c, b)) :
    s.turn = (some (.ready none), { s with codec := c, buffer := b, isReadable := false }) := by
  simp [turn, ne, eof, rd, d]

end FramedRead

end Railscale
