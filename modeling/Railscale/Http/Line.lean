import Railscale.Lib.Decoder

/-!
# Lines

Model of `find_crlf`, which `carriage/src/http/codec.rs` and `carriage/src/http/response_codec.rs`
both define in the same words: the position of the first `\r\n` of a buffer. `findCrlf_line` and
`findCrlf_none` are all that later proofs use of it: the first line of a buffer is found where it
ends, whatever follows, and a buffer without `\r\n` has no line yet.
-/

namespace Railscale.Http

open Bytes

/-- The loop of `find_crlf`: the next `\n` from `start` on, accepted when the byte before it is `\r`.
Each turn moves `start` behind a `\n`, so the length of the buffer bounds the turns. -/
def findCrlfLoop (buf : Bytes) : Nat → Nat → Option Nat
  | 0, _ => none
  | n + 1, start =>
    match memchr lf (buf.drop start) with
    | some pos =>
      let abs := start + pos
      if 0 < abs && buf.getD (abs - 1) 0 == cr then some (abs - 1)
      else findCrlfLoop buf n (abs + 1)
    | none => none

/-- Rust `find_crlf`. -/
def findCrlf (buf : Bytes) : Option Nat := findCrlfLoop buf (buf.length + 1) 0

/-- The byte string has no `\r\n` inside. -/
def NoCrlf (l : Bytes) : Prop := ¬ crlf <:+: l

/-- Whether there is a line end is decided by looking for it. -/
instance (l : Bytes) : Decidable (NoCrlf l) := inferInstanceAs (Decidable (¬ _))

/-- No bytes have no line end. -/
lemma NoCrlf.nil : NoCrlf [] := by decide

/-- A part of bytes without a line end has none. -/
lemma NoCrlf.of_infix {l m : Bytes} (h : NoCrlf m) (inf : l <:+: m) : NoCrlf l :=
  fun h' => h (h'.trans inf)

/-- The bytes behind the first one have none either. -/
lemma NoCrlf.tail {b : UInt8} {l : Bytes} (h : NoCrlf (b :: l)) : NoCrlf l :=
  h.of_infix (List.suffix_cons b l).isInfix

/-- Nor have the bytes in front. -/
lemma NoCrlf.left {l m : Bytes} (h : NoCrlf (l ++ m)) : NoCrlf l :=
  h.of_infix (List.prefix_append l m).isInfix

/-- Every buffer has a first line or has no line ending. -/
lemma line_or_noCrlf (buf : Bytes) :
    NoCrlf buf ∨ ∃ l rest, NoCrlf l ∧ buf = l ++ cr :: lf :: rest := by
  induction buf with
  | nil => exact .inl NoCrlf.nil
  | cons b bs ih =>
    by_cases start : [cr, lf] <+: b :: bs
    · obtain ⟨rest, e⟩ := start
      exact .inr ⟨[], rest, NoCrlf.nil, e.symm⟩
    · rcases ih with ih | ⟨l, rest, hl, rfl⟩
      · exact .inl fun h => (List.infix_cons_iff.1 h).elim start ih
      · refine .inr ⟨b :: l, rest, ?_, rfl⟩
        intro h
        rcases List.infix_cons_iff.1 h with h | h
        · exact start (h.trans (List.prefix_append (b :: l) _))
        · exact hl h

/-! ## A scan without positions -/

/-- The same search, one byte at a time. -/
def scanCrlf (prevCr : Bool) (pos : Nat) : Bytes → Option Nat
  | [] => none
  | b :: bs => if b == lf && prevCr then some (pos - 1) else scanCrlf (b == cr) (pos + 1) bs

/-- The scan skips bytes without a line feed. -/
lemma scanCrlf_skip {q : Bytes} (h : lf ∉ q) (c : Bool) (a : Nat) (t : Bytes) :
    scanCrlf c a (q ++ t) =
      scanCrlf (match q.getLast? with | some b => b == cr | none => c) (a + q.length) t := by
  induction q generalizing c a with
  | nil => rfl
  | cons b q ih =>
    have hb : ¬ b = lf := fun e => h (by simp [e])
    have ih' := ih (fun hm => h (List.mem_cons_of_mem _ hm)) (b == cr) (a + 1)
    simp only [List.cons_append, scanCrlf, beq_iff_eq, hb, Bool.and_eq_true, false_and, if_false, ih']
    cases hq : q.getLast? with
    | none => simp [List.getLast?_eq_none_iff.1 hq]
    | some z => simp [List.getLast?_cons, hq, Nat.add_assoc, Nat.add_comm 1]

/-- The loop is the scan. -/
lemma findCrlfLoop_eq (n : Nat) (pre suf : Bytes) (hn : suf.length < n) :
    findCrlfLoop (pre ++ suf) n pre.length =
      scanCrlf (pre.getLast? == some cr) pre.length suf := by
  induction n generalizing pre suf with
  | zero => omega
  | succ n ih =>
    rw [findCrlfLoop, List.drop_left]
    cases hm : memchr lf suf with
    | none =>
      have skip := scanCrlf_skip (memchr_eq_none.1 hm) (pre.getLast? == some cr) pre.length []
      rw [List.append_nil] at skip
      rw [skip]
      rfl
    | some pos =>
      obtain ⟨q, t, rfl, rfl, hq⟩ := memchr_eq_some hm
      -- both look at the byte before the newline, which may be the last one of the prefix
      have last : (match q.getLast? with | some b => b == cr | none => pre.getLast? == some cr) =
          ((pre ++ q).getLast? == some cr) := by
        cases q using List.reverseRecOn with
        | nil => simp
        | append_singleton q b => simp [← List.append_assoc]
      have look : (0 < pre.length + q.length &&
          (pre ++ (q ++ lf :: t)).getD (pre.length + q.length - 1) 0 == cr) =
          ((pre ++ q).getLast? == some cr) := by
        rw [← List.append_assoc, ← List.length_append]
        generalize pre ++ q = u
        cases u using List.reverseRecOn with
        | nil => simp
        | append_singleton u b => simp
      rw [scanCrlf_skip hq, last]
      simp only [look, scanCrlf, beq_self_eq_true, Bool.true_and]
      split
      · rfl
      · have ih' := ih (pre ++ q ++ [lf]) t (by simp at hn; omega)
        simpa [Nat.add_assoc] using ih'

/-- The search by `memchr` is the scan byte by byte. -/
lemma findCrlf_eq_scan (buf : Bytes) : findCrlf buf = scanCrlf false 0 buf := by
  have h := findCrlfLoop_eq _ [] buf (Nat.lt_succ_self _)
  simpa [findCrlf] using h

/-- The scan finds the end of the first line. -/
lemma scanCrlf_line {l : Bytes} (rest : Bytes) {c : Bool}
    (h : NoCrlf (if c then cr :: l else l)) (a : Nat) :
    scanCrlf c a (l ++ cr :: lf :: rest) = some (a + l.length) := by
  induction l generalizing c a with
  | nil => simp [scanCrlf, show cr ≠ lf from nofun]
  | cons b l ih =>
    have nc : ¬ (b = lf ∧ c = true) := by
      rintro ⟨rfl, rfl⟩
      exact h ⟨[], l, rfl⟩
    have hl : NoCrlf (b :: l) := by
      cases c with
      | false => exact h
      | true => exact h.tail
    have hl' : NoCrlf (if b == cr then cr :: l else l) := by
      by_cases e : b = cr
      · subst e; simpa using hl
      · simpa [e] using hl.tail
    simp only [List.cons_append, scanCrlf, Bool.and_eq_true, beq_iff_eq, nc, if_false, ih hl',
      List.length_cons, Option.some.injEq]
    omega

/-- The scan finds nothing where there is no line end. -/
lemma scanCrlf_none {l : Bytes} {c : Bool} (h : NoCrlf (if c then cr :: l else l)) (a : Nat) :
    scanCrlf c a l = none := by
  induction l generalizing c a with
  | nil => rfl
  | cons b l ih =>
    have nc : ¬ (b = lf ∧ c = true) := by
      rintro ⟨rfl, rfl⟩
      exact h ⟨[], l, rfl⟩
    have hl : NoCrlf (b :: l) := by
      cases c with
      | false => exact h
      | true => exact h.tail
    have hl' : NoCrlf (if b == cr then cr :: l else l) := by
      by_cases e : b = cr
      · subst e; simpa using hl
      · simpa [e] using hl.tail
    simp only [scanCrlf, Bool.and_eq_true, beq_iff_eq, nc, if_false, ih hl']

/-! ## What the search finds -/

/-- The first line of a buffer ends where `find_crlf` says, whatever follows it. -/
theorem findCrlf_line {l : Bytes} (h : NoCrlf l) (rest : Bytes) :
    findCrlf (l ++ cr :: lf :: rest) = some l.length := by
  rw [findCrlf_eq_scan, scanCrlf_line rest (by simpa using h), Nat.zero_add]

/-- A buffer without a line ending has no line. -/
theorem findCrlf_none {buf : Bytes} : findCrlf buf = none ↔ NoCrlf buf := by
  constructor
  · intro h
    rcases line_or_noCrlf buf with hb | ⟨l, rest, hl, rfl⟩
    · exact hb
    · rw [findCrlf_line hl] at h
      cases h
  · intro h
    rw [findCrlf_eq_scan]
    exact scanCrlf_none (by simpa using h) 0

/-- The first line and the rest are determined. -/
lemma line_unique {l l' rest rest' : Bytes} (hl : NoCrlf l) (hl' : NoCrlf l')
    (e : l ++ cr :: lf :: rest = l' ++ cr :: lf :: rest') : l = l' ∧ rest = rest' := by
  have len : some l.length = some l'.length := by
    rw [← findCrlf_line hl rest, ← findCrlf_line hl' rest', e]
  obtain ⟨el, er⟩ := List.append_inj e (Option.some.inj len)
  simp only [List.cons.injEq, true_and] at er
  exact ⟨el, er⟩

/-- The line with its end. -/
lemma take_line (l rest : Bytes) : (l ++ cr :: lf :: rest).take (l.length + 2) = l ++ crlf := by
  have e : l ++ cr :: lf :: rest = (l ++ crlf) ++ rest := by simp
  rw [e, List.take_left' (by simp)]

/-- The rest behind the line. -/
lemma drop_line (l rest : Bytes) : (l ++ cr :: lf :: rest).drop (l.length + 2) = rest := by
  have e : l ++ cr :: lf :: rest = (l ++ crlf) ++ rest := by simp
  rw [e, List.drop_left' (by simp)]

/-- Only a line feed can complete a line ending. -/
lemma NoCrlf.concat {l : Bytes} (h : NoCrlf l) {b : UInt8} (ne : b ≠ lf) : NoCrlf (l ++ [b]) := by
  rintro ⟨s, t, e⟩
  cases t using List.reverseRecOn with
  | nil =>
    have last : some lf = some b := by simpa using congrArg List.getLast? e
    exact ne (Option.some.inj last).symm
  | append_singleton t c =>
    have e : s ++ crlf ++ t ++ [c] = l ++ [b] := by simpa using e
    exact h ⟨s, t, (List.append_inj' e rfl).1⟩

/-- A line ending that is cut short is not a line ending. -/
lemma NoCrlf.concat_cr {l : Bytes} (h : NoCrlf l) : NoCrlf (l ++ [cr]) := h.concat (by decide)

/-! ## Decoders of lines -/

/-- A decoder that waits for the end of a line and then takes the line or fails is incremental. -/
lemma outcome_line {C ι ε α : Type} [Decoder C ι ε] (atoms : ι → List α) {c : C}
    (wait : ∀ b, NoCrlf b → Decoder.decode c b = (.ok none, c, b))
    (line : ∀ l, NoCrlf l →
      (∃ i c', ∀ rest, Decoder.decode c (l ++ cr :: lf :: rest) = (.ok (some i), c', rest)) ∨
      (∃ err c', ∀ rest, Decoder.decode c (l ++ cr :: lf :: rest) =
        (.error err, c', l ++ cr :: lf :: rest)))
    (b : Bytes) : Decoder.Outcome atoms c b := by
  have waits : ∀ {b}, NoCrlf b → Decoder.Waits c b :=
    fun h _ hp => wait _ (h.of_infix hp.isInfix)
  rcases line_or_noCrlf b with h | ⟨l, rest, hl, rfl⟩
  · exact .wait (waits h)
  have e : ∀ rest, l ++ cr :: lf :: rest = (l ++ [cr]) ++ [lf] ++ rest := by simp
  rcases line l hl with ⟨i, c', d⟩ | ⟨err, c', d⟩
  · rw [e]
    refine .item (by simp) (Decoder.feedAll_token atoms (waits hl.concat_cr) ?_) (e rest ▸ d rest)
    simpa using d []
  · refine .error ?_ (d rest)
    rw [e]
    exact Decoder.feedAll_error atoms (waits hl.concat_cr) (by simpa using d []) rest

end Railscale.Http
