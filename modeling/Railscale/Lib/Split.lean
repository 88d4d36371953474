import Railscale.Lib.Text

/-!
# Cutting text

The part of Rust's `str` that cuts text at a character, at a substring or at white space: `rfind`, `split(..).next()`,
`split(..).nth(1)`, `split_whitespace` and `trim_start_matches`.
-/

namespace Railscale

namespace Str

/-- The text of an ASCII literal. -/
def lit (s : String) : Str := s.toList.map Char.toNat

/-- Rust `rfind` with a character. -/
def rfind (c : Nat) (s : Str) : Option Nat := (s.reverse.findIdx? (· == c)).map (s.length - 1 - ·)

/-- Rust `split(c).next()` with a character. -/
def upTo (c : Nat) (s : Str) : Str := s.takeWhile (· != c)

/-- Rust `trim_start_matches` with a character. -/
def trimStart (c : Nat) (s : Str) : Str := s.dropWhile (· == c)

/-- The parts before and behind the first occurrence of a substring. -/
def splitOnce (pat : Str) : Str → Option (Str × Str)
  | [] => none
  | c :: s =>
    if pat.isPrefixOf (c :: s) then some ([], (c :: s).drop pat.length)
    else (splitOnce pat s).map fun (front, rest) => (c :: front, rest)

/-- Rust `split(pat).next()` with a substring that is not empty. -/
def splitFirst (pat s : Str) : Str := ((splitOnce pat s).map Prod.fst).getD s

/-- Rust `split(pat).nth(1)` with a substring that is not empty. -/
def splitSecond (pat s : Str) : Option Str := (splitOnce pat s).map fun (_, rest) => splitFirst pat rest

/-- Rust `split_whitespace`. -/
def words (s : Str) : List Str := (s.splitOnP isWhitespace).filter (!·.isEmpty)

/-! ## Characters -/

/-- A character that does not occur is not found. -/
lemma rfind_none {c : Nat} {s : Str} (h : c ∉ s) : rfind c s = none := by
  rw [rfind, Option.map_eq_none_iff, List.findIdx?_eq_none_iff]
  intro x mem
  rw [beq_eq_false_iff_ne]
  rintro rfl
  exact h (List.mem_reverse.1 mem)

/-- The last occurrence is where none follows. -/
lemma rfind_append_cons {c : Nat} {p s : Str} (h : c ∉ s) : rfind c (p ++ c :: s) = some p.length := by
  have found : (p ++ c :: s).reverse.findIdx? (· == c) = some s.length := by
    rw [List.reverse_append, List.reverse_cons, List.append_assoc, List.findIdx?_append]
    have none : s.reverse.findIdx? (· == c) = none := by
      rw [List.findIdx?_eq_none_iff]
      intro x mem
      rw [beq_eq_false_iff_ne]
      rintro rfl
      exact h (List.mem_reverse.1 mem)
    rw [none, List.singleton_append, List.findIdx?_cons, if_pos (beq_self_eq_true c)]
    simp
  rw [rfind, found, Option.map_some, List.length_append, List.length_cons]
  congr 1
  omega

/-- Without the character the text is whole. -/
lemma upTo_of_not_mem {c : Nat} {s : Str} (h : c ∉ s) : upTo c s = s := by
  rw [upTo, List.takeWhile_eq_self_iff]
  intro x mem
  rw [bne_iff_ne]
  rintro rfl
  exact h mem

/-- The text is cut at the first occurrence. -/
lemma upTo_append_cons {c : Nat} {p : Str} (h : c ∉ p) (s : Str) : upTo c (p ++ c :: s) = p := by
  have all : ∀ x ∈ p, (x != c) = true := by
    intro x mem
    rw [bne_iff_ne]
    rintro rfl
    exact h mem
  rw [upTo, List.takeWhile_append_of_pos all, List.takeWhile_cons, bne_self_eq_false]
  exact List.append_nil p

/-- In front of the character there is nothing. -/
lemma upTo_cons_self (c : Nat) (s : Str) : upTo c (c :: s) = [] := by
  rw [upTo, List.takeWhile_cons, bne_self_eq_false]
  rfl

/-- Another character comes in front of the cut. -/
lemma upTo_cons_of_ne {c x : Nat} (ne : x ≠ c) (s : Str) : upTo c (x :: s) = x :: upTo c s := by
  rw [upTo, List.takeWhile_cons, if_pos (bne_iff_ne.2 ne)]
  rfl

/-- The character does not occur in front of its first occurrence. -/
lemma not_mem_upTo (c : Nat) (s : Str) : c ∉ upTo c s := by
  intro mem
  have other := List.mem_takeWhile_imp mem
  rw [bne_self_eq_false] at other
  cases other

/-- Trimming takes all of the characters at the start. -/
lemma trimStart_eq_iff {c : Nat} {s t : Str} :
    trimStart c s = t ↔ (∃ n, s = List.replicate n c ++ t) ∧ t.head? ≠ some c := by
  constructor
  · rintro rfl
    induction s with
    | nil => exact ⟨⟨0, rfl⟩, nofun⟩
    | cons x s ih =>
      rw [trimStart, List.dropWhile_cons]
      by_cases same : x = c
      · subst same
        obtain ⟨⟨n, whole⟩, start⟩ := ih
        rw [if_pos (beq_self_eq_true x)]
        exact ⟨⟨n + 1, congrArg (x :: ·) whole⟩, start⟩
      · rw [if_neg (mt eq_of_beq same)]
        exact ⟨⟨0, rfl⟩, fun head => same (Option.some.inj head)⟩
  · rintro ⟨⟨n, rfl⟩, start⟩
    have slashes : ∀ x ∈ List.replicate n c, (x == c) = true :=
      fun x mem => beq_iff_eq.2 (List.eq_of_mem_replicate mem)
    rw [trimStart, List.dropWhile_append_of_pos slashes]
    cases t with
    | nil => rfl
    | cons x t =>
      have differs : ¬ (x == c) = true := fun same => start (congrArg some (eq_of_beq same))
      rw [List.dropWhile_cons, if_neg differs]

/-! ## Substrings -/

variable {pat : Str}

/-- The text is cut where the pattern begins for the first time. -/
lemma splitFirst_cons (pat : Str) (c : Nat) (s : Str) :
    splitFirst pat (c :: s) = if pat.isPrefixOf (c :: s) then [] else c :: splitFirst pat s := by
  rw [splitFirst, splitOnce]
  split
  · rfl
  · rw [splitFirst]
    cases splitOnce pat s with
    | none => rfl
    | some cut => rfl

/-- Where a substring is not found, it does not occur. -/
lemma splitOnce_eq_none {s : Str} (ne : pat ≠ []) : splitOnce pat s = none ↔ ¬ pat <:+: s := by
  induction s with
  | nil =>
    refine iff_of_true rfl fun occurs => ne ?_
    exact List.eq_nil_of_infix_nil occurs
  | cons c s ih =>
    rw [splitOnce, List.infix_cons_iff, not_or, ← List.isPrefixOf_iff_prefix]
    split
    · rename_i here
      simp [here]
    · rename_i here
      simp [here, ih]

/-- What is found is the first occurrence. -/
lemma splitOnce_eq_some {s front rest : Str} (found : splitOnce pat s = some (front, rest)) :
    s = front ++ pat ++ rest ∧ ∀ front' rest', s = front' ++ pat ++ rest' → front.length ≤ front'.length := by
  induction s generalizing front with
  | nil => cases found
  | cons c s ih =>
    rw [splitOnce] at found
    split at found
    · rename_i here
      obtain ⟨rfl, rfl⟩ := Prod.mk.inj (Option.some.inj found)
      obtain ⟨rest, here⟩ := List.isPrefixOf_iff_prefix.1 here
      rw [← here, List.drop_left]
      exact ⟨rfl, fun _ _ _ => Nat.zero_le _⟩
    · rename_i here
      obtain ⟨⟨front, rest⟩, later, same⟩ := Option.map_eq_some_iff.1 found
      obtain ⟨rfl, rfl⟩ := Prod.mk.inj same
      obtain ⟨rfl, first⟩ := ih later
      refine ⟨rfl, fun front' rest' cut => ?_⟩
      cases front' with
      | nil =>
        refine absurd (List.isPrefixOf_iff_prefix.2 ?_) here
        rw [cut, List.nil_append]
        exact List.prefix_append _ _
      | cons c' front' =>
        obtain ⟨-, cut⟩ := List.cons.inj cut
        exact Nat.succ_le_succ (first front' rest' cut)

/-- The first occurrence is found where the front of the text does not have the first character. -/
lemma splitOnce_append {c : Nat} {tail front : Str} (h : c ∉ front) (rest : Str) :
    splitOnce (c :: tail) (front ++ (c :: tail) ++ rest) = some (front, rest) := by
  induction front with
  | nil =>
    rw [List.nil_append, List.cons_append, splitOnce, if_pos]
    · simp
    · simp [List.isPrefixOf_iff_prefix]
  | cons x front ih =>
    rw [List.mem_cons, not_or] at h
    rw [List.cons_append, List.cons_append, splitOnce, if_neg, ih h.2]
    · rfl
    · rw [List.isPrefixOf_iff_prefix, List.cons_prefix_cons]
      exact fun starts => h.1 starts.1

/-! ## Words -/

/-- A word ends at the next white space. -/
lemma words_cons {w : Str} (ne : w ≠ []) (plain : ∀ c ∈ w, isWhitespace c = false) {c : Nat}
    (space : isWhitespace c = true)
    (s : Str) : words (w ++ c :: s) = w :: words s := by
  rw [words, List.splitOnP_append_cons_of_forall_mem plain c space, List.filter_cons_of_pos]
  · rfl
  · rw [Bool.not_eq_true', List.isEmpty_eq_false_iff]
    exact ne

/-- White space in front of a text takes no part in its words. -/
lemma words_space {c : Nat} (space : isWhitespace c = true) (s : Str) : words (c :: s) = words s := by
  rw [words, List.splitOnP_cons_eq_if_modifyHead, if_pos space]
  rfl

/-- White space in front makes no word. -/
lemma words_spaces {lead : Str} (spaces : ∀ c ∈ lead, isWhitespace c = true) (s : Str) :
    words (lead ++ s) = words s := by
  induction lead with
  | nil => rfl
  | cons c lead ih =>
    rw [List.cons_append, words_space (spaces c List.mem_cons_self),
      ih fun c mem => spaces c (List.mem_cons_of_mem _ mem)]

/-- A text that does not go on with a word. -/
def Ends (s : Str) : Prop := ∀ c ∈ s.head?, isWhitespace c = true

/-- A word of a text, between what is no part of it. -/
lemma words_around {lead w rest : Str} (spaces : ∀ c ∈ lead, isWhitespace c = true) (ne : w ≠ [])
    (plain : ∀ c ∈ w, isWhitespace c = false) (ends : Ends rest) : words (lead ++ (w ++ rest)) = w :: words rest := by
  rw [words_spaces spaces]
  cases rest with
  | nil =>
    have whole : w.splitOnP isWhitespace = [w]  := List.splitOnP_eq_singleton plain
    rw [List.append_nil, words, whole, List.filter_cons_of_pos]
    · rfl
    · rw [Bool.not_eq_true', List.isEmpty_eq_false_iff]
      exact ne
  | cons c rest =>
    have space : isWhitespace c = true := ends c rfl
    rw [words_cons ne plain space, words_space space]

/-- The first word of a text, and where it stands. -/
lemma words_eq_cons {s w : Str} {ws : List Str} (h : words s = w :: ws) :
    ∃ lead rest, s = lead ++ (w ++ rest) ∧ words rest = ws ∧ (∀ c ∈ lead, isWhitespace c = true) ∧ w ≠ [] ∧
      (∀ c ∈ w, isWhitespace c = false) ∧ Ends rest := by
  induction s with
  | nil => cases h
  | cons c s ih =>
    cases space : isWhitespace c with
    | true =>
      rw [words_space space] at h
      obtain ⟨lead, rest, rfl, tail, spaces, word⟩ := ih h
      exact ⟨c :: lead, rest, rfl, tail, List.forall_mem_cons.2 ⟨space, spaces⟩, word⟩
    | false =>
      -- the word goes on up to the next white space
      have parts := List.takeWhile_append_dropWhile (p := fun c => !isWhitespace c) (l := c :: s)
      have here : (c :: s).takeWhile (fun c => !isWhitespace c) ≠ [] := by
        rw [List.takeWhile_cons_of_pos (by rw [space]; rfl)]
        exact List.cons_ne_nil _ _
      have plain : ∀ x ∈ (c :: s).takeWhile (fun c => !isWhitespace c), isWhitespace x = false := by
        intro x mem
        have inside := List.mem_takeWhile_imp mem
        rw [Bool.not_eq_true'] at inside
        exact inside
      have ends : Ends ((c :: s).dropWhile fun c => !isWhitespace c) := by
        intro x mem
        have stops := List.head?_dropWhile_not (fun c => !isWhitespace c) (c :: s)
        rw [Option.mem_def.1 mem] at stops
        simpa only [Bool.not_eq_false'] using stops
      have none : ∀ c ∈ ([] : Str), isWhitespace c = true := fun _ mem => absurd mem List.not_mem_nil
      rw [← parts, ← List.nil_append (List.takeWhile _ _ ++ _), words_around none here plain ends] at h
      obtain ⟨rfl, rfl⟩ := List.cons.inj h
      exact ⟨[], _, parts.symm, rfl, none, here, plain, ends⟩

/-- The second word of a text can be replaced. -/
lemma words_second {s t : Str} (h : (words s)[1]? = some t) :
    ∃ front back, s = front ++ (t ++ back) ∧
      ∀ t' : Str, t' ≠ [] → (∀ c ∈ t', isWhitespace c = false) → (words (front ++ (t' ++ back)))[1]? = some t' := by
  obtain ⟨w, ws, all⟩ : ∃ w ws, words s = w :: t :: ws := by
    cases all : words s with
    | nil =>
      rw [all] at h
      cases h
    | cons w ws =>
      rw [all] at h
      cases ws with
      | nil => cases h
      | cons t' ws =>
        cases h
        exact ⟨w, ws, rfl⟩
  obtain ⟨lead, rest, rfl, later, spaces, ne, plain, ends⟩ := words_eq_cons all
  obtain ⟨between, back, rfl, -, gap, ne', plain', ends'⟩ := words_eq_cons later
  -- something stands between the two words
  have some_space : between ≠ [] := by
    rintro rfl
    obtain ⟨c, t, rfl⟩ := List.exists_cons_of_ne_nil ne'
    have space : isWhitespace c = true := ends c rfl
    rw [plain' c List.mem_cons_self] at space
    cases space
  refine ⟨lead ++ (w ++ between), back, by simp only [List.append_assoc], fun t' ne'' plain'' => ?_⟩
  have ends'' : Ends (between ++ (t' ++ back)) := by
    obtain ⟨c, between, rfl⟩ := List.exists_cons_of_ne_nil some_space
    rintro _ ⟨⟩
    exact gap c List.mem_cons_self
  have whole : lead ++ (w ++ between) ++ (t' ++ back) = lead ++ (w ++ (between ++ (t' ++ back))) := by
    simp only [List.append_assoc]
  rw [whole, words_around spaces ne plain ends'', words_around gap ne'' plain'' ends']
  rfl

end Str

end Railscale
