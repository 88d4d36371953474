import Railscale.Lib.Bytes
import Mathlib.Data.List.TakeWhile
import Mathlib.Tactic.Ring

/-!
# Text

The part of Rust's `str` that the parsers use: UTF-8 validation (`std::str::from_utf8`), trimming of
Unicode white space (`str::trim`) and the integer parsers of a 64-bit target (`str::parse::<usize>`,
`usize::from_str_radix`). A `str` is the list of its Unicode scalar values.
-/

namespace Railscale

/-- A `str`, as the list of its Unicode scalar values. -/
abbrev Str := List Nat

namespace Str

/-- A text as it stands in the text of an error. -/
def string (s : Str) : String := String.ofList (s.map Char.ofNat)

/-- A UTF-8 continuation byte. -/
def isCont (b : UInt8) : Bool := 0x80 ≤ b && b ≤ 0xBF

/-- The payload of a continuation byte. -/
def cont (b : UInt8) : Nat := b.toNat - 0x80

/-- UTF-8 validation and decoding (Rust `std::str::from_utf8`): overlong forms, surrogates and values
above `U+10FFFF` are rejected. -/
def fromUtf8 : Bytes → Option Str
  | [] => some []
  | b0 :: rest =>
    if b0 < 0x80 then
      (fromUtf8 rest).map (b0.toNat :: ·)
    else if 0xC2 ≤ b0 && b0 ≤ 0xDF then
      match rest with
      | b1 :: rest =>
        if isCont b1 then
          (fromUtf8 rest).map (((b0.toNat - 0xC0) * 64 + cont b1) :: ·)
        else none
      | _ => none
    else if 0xE0 ≤ b0 && b0 ≤ 0xEF then
      match rest with
      | b1 :: b2 :: rest =>
        if isCont b1 && isCont b2 && (b0 != 0xE0 || 0xA0 ≤ b1) && (b0 != 0xED || b1 ≤ 0x9F) then
          (fromUtf8 rest).map (((b0.toNat - 0xE0) * 4096 + cont b1 * 64 + cont b2) :: ·)
        else none
      | _ => none
    else if 0xF0 ≤ b0 && b0 ≤ 0xF4 then
      match rest with
      | b1 :: b2 :: b3 :: rest =>
        if isCont b1 && isCont b2 && isCont b3 && (b0 != 0xF0 || 0x90 ≤ b1)
            && (b0 != 0xF4 || b1 ≤ 0x8F) then
          (fromUtf8 rest).map
            (((b0.toNat - 0xF0) * 262144 + cont b1 * 4096 + cont b2 * 64 + cont b3) :: ·)
        else none
      | _ => none
    else none

/-- The Unicode `White_Space` property (Rust `char::is_whitespace`). -/
def isWhitespace (c : Nat) : Bool :=
  (9 ≤ c && c ≤ 13) || c == 0x20 || c == 0x85 || c == 0xA0 || c == 0x1680
    || (0x2000 ≤ c && c ≤ 0x200A) || c == 0x2028 || c == 0x2029 || c == 0x202F || c == 0x205F
    || c == 0x3000

/-- Removal of leading and trailing white space (Rust `str::trim`). -/
def trim (s : Str) : Str :=
  ((s.dropWhile isWhitespace).reverse.dropWhile isWhitespace).reverse

/-- The value of a digit in a radix up to 36 (Rust `char::to_digit`). -/
def toDigit (radix : Nat) (c : Nat) : Option Nat :=
  let d :=
    if 48 ≤ c && c ≤ 57 then c - 48
    else if 97 ≤ c && c ≤ 122 then c - 87
    else if 65 ≤ c && c ≤ 90 then c - 55
    else radix
  if d < radix then some d else none

/-- `usize::MAX + 1` on a 64-bit target. -/
abbrev usizeBound : Nat := 2 ^ 64

/-- One digit of the checked accumulation of `from_str_radix`. -/
def pushDigit (radix : Nat) (acc c : Nat) : Option Nat := do
  let d ← toDigit radix c
  if acc * radix + d < usizeBound then some (acc * radix + d) else none

/-- The integer parser (Rust `usize::from_str_radix`): a single leading `+` is accepted, a lone sign
and the empty string are not, and an overflow is an error. -/
def fromStrRadix (radix : Nat) : Str → Option Nat
  | [] => none
  | [43] => none
  | [45] => none
  | 43 :: ds => ds.foldlM (pushDigit radix) 0
  | ds => ds.foldlM (pushDigit radix) 0

/-- The decimal parser (Rust `str::parse::<usize>`). -/
def parseUsize (s : Str) : Option Nat := fromStrRadix 10 s

/-! ## ASCII text -/

/-- ASCII bytes at the front decode to themselves. -/
lemma fromUtf8_ascii {bs : Bytes} (h : ∀ b ∈ bs, b < 0x80) (rest : Bytes) :
    fromUtf8 (bs ++ rest) = (fromUtf8 rest).map (bs.map UInt8.toNat ++ ·) := by
  induction bs with
  | nil => simp
  | cons b bs ih =>
    have hb : b < 0x80 := h b List.mem_cons_self
    have ih := ih fun x hx => h x (List.mem_cons_of_mem _ hx)
    rw [List.cons_append, fromUtf8.eq_def]
    simp only [hb, if_true, ih]
    cases fromUtf8 rest with
    | none => rfl
    | some s => rfl

/-- Trimming takes off the white space behind a text without any. -/
lemma trim_append {s t : Str} (hs : ∀ c ∈ s, isWhitespace c = false)
    (ht : ∀ c ∈ t, isWhitespace c = true) : trim (s ++ t) = s := by
  have keep : ∀ u v : Str, (∀ c ∈ u, isWhitespace c = false) → (u = [] → v = []) →
      (u ++ v).dropWhile isWhitespace = u ++ v := by
    intro u v hu nil
    cases u with
    | nil =>
      rw [nil rfl]
      rfl
    | cons c u =>
      have here : ¬ isWhitespace c = true := by rw [hu c List.mem_cons_self]; nofun
      rw [List.cons_append, List.dropWhile_cons_of_neg here]
  have drop : ∀ u v : Str, (∀ c ∈ u, isWhitespace c = true) →
      (u ++ v).dropWhile isWhitespace = v.dropWhile isWhitespace :=
    fun u v hu => List.dropWhile_append_of_pos hu
  have back : ∀ c ∈ s.reverse, isWhitespace c = false := fun c hc => hs c (List.mem_reverse.1 hc)
  have stop := keep s.reverse [] back fun _ => rfl
  rw [List.append_nil] at stop
  cases s with
  | nil =>
    rw [List.nil_append, trim, ← List.append_nil t, drop t [] ht]
    rfl
  | cons c s =>
    rw [trim, keep _ t hs nofun, List.reverse_append,
      drop t.reverse _ fun c hc => ht c (List.mem_reverse.1 hc), stop, List.reverse_reverse]

/-- The value of a list of digits. -/
def value (radix : Nat) (s : Str) : Nat :=
  s.foldl (fun acc c => acc * radix + (toDigit radix c).getD 0) 0

/-- The checked accumulation computes the value of the digits when it fits a `usize`. -/
lemma foldlM_pushDigit {radix : Nat} {ds : Str} (pos : 0 < radix)
    (dig : ∀ c ∈ ds, (toDigit radix c).isSome) :
    ∀ acc, ds.foldlM (pushDigit radix) acc =
      if ds.foldl (fun acc c => acc * radix + (toDigit radix c).getD 0) acc < usizeBound ∨ ds = []
      then some (ds.foldl (fun acc c => acc * radix + (toDigit radix c).getD 0) acc) else none := by
  induction ds with
  | nil => intro acc; simp
  | cons c ds ih =>
    intro acc
    obtain ⟨d, hd⟩ := Option.isSome_iff_exists.1 (dig c (by simp))
    have ih' := ih (fun x hx => dig x (List.mem_cons_of_mem _ hx))
    have grow : ∀ (ds : Str) (a : Nat),
        a ≤ ds.foldl (fun acc c => acc * radix + (toDigit radix c).getD 0) a := by
      intro ds
      induction ds with
      | nil => intro a; exact Nat.le_refl a
      | cons c ds ih =>
        intro a
        refine Nat.le_trans ?_ (ih _)
        exact Nat.le_trans (Nat.le_mul_of_pos_right a pos) (Nat.le_add_right _ _)
    simp only [List.foldlM_cons, List.foldl_cons, pushDigit, hd, Option.getD_some,
      Option.bind_eq_bind, Option.bind_some, reduceCtorEq, or_false]
    by_cases lt : acc * radix + d < usizeBound
    -- an overflow cannot be undone: the value only grows from digit to digit
    · simp only [lt, if_true, Option.bind_some, ih']
      by_cases e : ds = []
      · subst e; simp [lt]
      · simp [e]
    · have big := grow ds (acc * radix + d)
      have : ¬ ds.foldl (fun acc c => acc * radix + (toDigit radix c).getD 0) (acc * radix + d)
          < usizeBound := by omega
      simp [lt, this]

/-- A digit is none of the signs. -/
lemma toDigit_sign {radix c : Nat} (dig : (toDigit radix c).isSome) : c ≠ 43 ∧ c ≠ 45 := by
  constructor
  · rintro rfl
    simp [toDigit] at dig
  · rintro rfl
    simp [toDigit] at dig

/-- The integer parser reads digits whose value fits a `usize`. -/
lemma fromStrRadix_digits {radix : Nat} {ds : Str} (pos : 0 < radix) (ne : ds ≠ [])
    (dig : ∀ c ∈ ds, (toDigit radix c).isSome) (fits : value radix ds < usizeBound) :
    fromStrRadix radix ds = some (value radix ds) := by
  have fold := foldlM_pushDigit pos dig 0
  rw [if_pos (.inl fits)] at fold
  obtain ⟨c, ds, rfl⟩ := List.exists_cons_of_ne_nil ne
  obtain ⟨plus, minus⟩ := toDigit_sign (dig c List.mem_cons_self)
  rw [fromStrRadix.eq_def]
  split
  · contradiction
  · exact absurd (List.cons.inj ‹_›).1 plus
  · exact absurd (List.cons.inj ‹_›).1 minus
  · exact absurd (List.cons.inj ‹_›).1 plus
  · exact fold

/-! ## What the parsers accept -/

/-- The sequences that UTF-8 has for one scalar value. -/
inductive Encodes : Bytes → Nat → Prop where
  /-- An ASCII byte. -/
  | one {b0} :
    b0 < 0x80 →
    Encodes [b0] b0.toNat
  /-- A lead byte and one continuation byte. -/
  | two {b0 b1} :
    ¬ b0 < 0x80 →
    (0xC2 ≤ b0 && b0 ≤ 0xDF) = true →
    isCont b1 = true →
    Encodes [b0, b1] ((b0.toNat - 0xC0) * 64 + cont b1)
  /-- A lead byte and two continuation bytes, neither overlong nor a surrogate. -/
  | three {b0 b1 b2} :
    ¬ b0 < 0x80 →
    ¬ (0xC2 ≤ b0 && b0 ≤ 0xDF) = true →
    (0xE0 ≤ b0 && b0 ≤ 0xEF) = true →
    (isCont b1 && isCont b2 && (b0 != 0xE0 || 0xA0 ≤ b1) && (b0 != 0xED || b1 ≤ 0x9F)) = true →
    Encodes [b0, b1, b2] ((b0.toNat - 0xE0) * 4096 + cont b1 * 64 + cont b2)
  /-- A lead byte and three continuation bytes, neither overlong nor above `U+10FFFF`. -/
  | four {b0 b1 b2 b3} :
    ¬ b0 < 0x80 →
    ¬ (0xC2 ≤ b0 && b0 ≤ 0xDF) = true →
    ¬ (0xE0 ≤ b0 && b0 ≤ 0xEF) = true →
    (0xF0 ≤ b0 && b0 ≤ 0xF4) = true →
    (isCont b1 && isCont b2 && isCont b3 && (b0 != 0xF0 || 0x90 ≤ b1) && (b0 != 0xF4 || b1 ≤ 0x8F)) = true →
    Encodes [b0, b1, b2, b3] ((b0.toNat - 0xF0) * 262144 + cont b1 * 4096 + cont b2 * 64 + cont b3)

/-- What encodes a scalar value decodes to it, whatever follows. -/
lemma Encodes.fromUtf8_append {lead : Bytes} {c : Nat} (enc : Encodes lead c) (rest : Bytes) :
    fromUtf8 (lead ++ rest) = (fromUtf8 rest).map (c :: ·) := by
  cases enc with
  | @one b0 lt =>
    have step := fromUtf8.eq_def (b0 :: rest)
    simp only [lt, if_true] at step
    exact step
  | @two b0 b1 one two shape =>
    have step := fromUtf8.eq_def (b0 :: b1 :: rest)
    simp only [one, two, shape, if_false, if_true] at step
    exact step
  | @three b0 b1 b2 one two three shape =>
    have step := fromUtf8.eq_def (b0 :: b1 :: b2 :: rest)
    simp only [one, two, three, shape, if_false, if_true] at step
    exact step
  | @four b0 b1 b2 b3 one two three four shape =>
    have step := fromUtf8.eq_def (b0 :: b1 :: b2 :: b3 :: rest)
    simp only [one, two, three, four, shape, if_false, if_true] at step
    exact step

/-- A text that decodes begins with what encodes its first character. -/
lemma encodes_of_fromUtf8 {b : UInt8} {bs : Bytes} {s : Str} (h : fromUtf8 (b :: bs) = some s) :
    ∃ lead rest c t, b :: bs = lead ++ rest ∧ s = c :: t ∧ Encodes lead c ∧ fromUtf8 rest = some t := by
  rw [fromUtf8.eq_def] at h
  dsimp only at h
  -- the branches that are left after the splits are the four that go on
  split at h
  · rename_i one
    obtain ⟨t, tail, rfl⟩ := Option.map_eq_some_iff.1 h
    exact ⟨[b], bs, _, t, rfl, rfl, .one one, tail⟩
  rename_i one
  split at h
  · rename_i two
    split at h
    · rename_i b1 rest
      split at h
      · rename_i shape
        obtain ⟨t, tail, rfl⟩ := Option.map_eq_some_iff.1 h
        exact ⟨[b, b1], rest, _, t, rfl, rfl, .two one two shape, tail⟩
      · cases h
    · cases h
  rename_i two
  split at h
  · rename_i three
    split at h
    · rename_i b1 b2 rest
      split at h
      · rename_i shape
        obtain ⟨t, tail, rfl⟩ := Option.map_eq_some_iff.1 h
        exact ⟨[b, b1, b2], rest, _, t, rfl, rfl, .three one two three shape, tail⟩
      · cases h
    · cases h
  rename_i three
  split at h
  · rename_i four
    split at h
    · rename_i b1 b2 b3 rest
      split at h
      · rename_i shape
        obtain ⟨t, tail, rfl⟩ := Option.map_eq_some_iff.1 h
        exact ⟨[b, b1, b2, b3], rest, _, t, rfl, rfl, .four one two three four shape, tail⟩
      · cases h
    · cases h
  · cases h

/-- A lead byte that is not the least of its kind is above it. -/
lemma lt_toNat_of_ne {b least : UInt8} (le : least ≤ b) (ne : b ≠ least) : least.toNat < b.toNat :=
  Nat.lt_of_le_of_ne (UInt8.le_iff_toNat_le.1 le) fun e => ne (UInt8.toNat.inj e).symm

/-- What encodes a scalar value is one ASCII byte, or the value is not ASCII. -/
lemma Encodes.cases_ascii {lead : Bytes} {c : Nat} (enc : Encodes lead c) :
    (∃ b, lead = [b] ∧ c = b.toNat ∧ b < 0x80) ∨ 0x80 ≤ c := by
  cases enc with
  | @one b0 lt => exact .inl ⟨b0, rfl, rfl, lt⟩
  | @two b0 b1 _ two _ =>
    simp only [Bool.and_eq_true, decide_eq_true_eq, UInt8.le_iff_toNat_le] at two
    have least : 194 ≤ b0.toNat := two.1
    right
    omega
  | @three b0 b1 b2 _ _ three shape =>
    simp only [Bool.and_eq_true, Bool.or_eq_true, bne_iff_ne, decide_eq_true_eq] at three shape
    right
    by_cases least : b0 = 0xE0
    -- an overlong form is not accepted
    · have second : 0xA0 ≤ b1 := shape.1.2.resolve_left (not_not.2 least)
      have second : 160 ≤ b1.toNat := UInt8.le_iff_toNat_le.1 second
      have : 32 ≤ cont b1 := Nat.le_sub_of_add_le second
      omega
    · have lead : 224 < b0.toNat := lt_toNat_of_ne three.1 least
      omega
  | @four b0 b1 b2 b3 _ _ _ four shape =>
    simp only [Bool.and_eq_true, Bool.or_eq_true, bne_iff_ne, decide_eq_true_eq] at four shape
    right
    by_cases least : b0 = 0xF0
    · have second : 0x90 ≤ b1 := shape.1.2.resolve_left (not_not.2 least)
      have second : 144 ≤ b1.toNat := UInt8.le_iff_toNat_le.1 second
      have : 16 ≤ cont b1 := Nat.le_sub_of_add_le second
      omega
    · have lead : 240 < b0.toNat := lt_toNat_of_ne four.1 least
      omega

/-- Only nothing decodes to nothing. -/
lemma fromUtf8_eq_nil {bs : Bytes} (h : fromUtf8 bs = some []) : bs = [] := by
  cases bs with
  | nil => rfl
  | cons b rest =>
    obtain ⟨lead, rest, c, t, -, same, -⟩ := encodes_of_fromUtf8 h
    cases same

/-- A text that decodes to more than nothing is the encoding of its first character and the rest. -/
lemma fromUtf8_eq_cons {bs : Bytes} {c : Nat} {t : Str} (h : fromUtf8 bs = some (c :: t)) :
    ∃ lead rest, bs = lead ++ rest ∧ Encodes lead c ∧ fromUtf8 rest = some t := by
  cases bs with
  | nil => cases h
  | cons b bs =>
    obtain ⟨lead, rest, c', t', e, same, enc, tail⟩ := encodes_of_fromUtf8 h
    obtain ⟨rfl, rfl⟩ := List.cons.inj same
    exact ⟨lead, rest, e, enc, tail⟩

/-- Bytes that decode to ASCII text are that text. -/
lemma ascii_of_fromUtf8 {bs : Bytes} {s : Str} (h : fromUtf8 bs = some s) (ascii : ∀ c ∈ s, c < 0x80) :
    bs.map UInt8.toNat = s := by
  induction s generalizing bs with
  | nil => rw [fromUtf8_eq_nil h, List.map_nil]
  | cons c s ih =>
    obtain ⟨lead, rest, rfl, enc, tail⟩ := fromUtf8_eq_cons h
    obtain ⟨b, rfl, rfl, -⟩ | big := enc.cases_ascii
    · rw [List.singleton_append, List.map_cons, ih tail fun c hc => ascii c (List.mem_cons_of_mem _ hc)]
    · exact absurd (ascii c List.mem_cons_self) (Nat.not_lt.2 big)

/-- What trimming takes off is white space. -/
lemma trim_cases (s : Str) :
    ∃ lead trail, s = lead ++ trim s ++ trail ∧ (∀ c ∈ lead, isWhitespace c = true) ∧
      ∀ c ∈ trail, isWhitespace c = true := by
  have front := List.takeWhile_append_dropWhile (p := isWhitespace) (l := s)
  have back := List.takeWhile_append_dropWhile (p := isWhitespace) (l := (s.dropWhile isWhitespace).reverse)
  refine ⟨s.takeWhile isWhitespace, ((s.dropWhile isWhitespace).reverse.takeWhile isWhitespace).reverse, ?_, ?_, ?_⟩
  · rw [trim, List.append_assoc, ← List.reverse_append, back, List.reverse_reverse, front]
  · exact fun c hc => List.mem_takeWhile_imp hc
  · exact fun c hc => List.mem_takeWhile_imp (List.mem_reverse.1 hc)

/-- Trimming takes off the white space around a text without any. -/
lemma trim_around {lead s trail : Str} (hl : ∀ c ∈ lead, isWhitespace c = true) (hs : ∀ c ∈ s, isWhitespace c = false)
    (ht : ∀ c ∈ trail, isWhitespace c = true) : trim (lead ++ s ++ trail) = s := by
  rw [List.append_assoc, trim, List.dropWhile_append_of_pos hl, ← trim]
  exact trim_append hs ht

/-- A number as the integer parsers spell it: an optional `+`, and digits. -/
inductive Numeral (radix : Nat) : Str → Nat → Prop where
  | mk {sign ds} :
    sign = [] ∨ sign = [43] →
    ds ≠ [] →
    (∀ c ∈ ds, (toDigit radix c).isSome) →
    value radix ds < usizeBound →
    Numeral radix (sign ++ ds) (value radix ds)

/-- A digit is a letter or a decimal digit. -/
lemma toDigit_cases {radix c : Nat} (dig : (toDigit radix c).isSome) :
    48 ≤ c ∧ c ≤ 57 ∨ 97 ≤ c ∧ c ≤ 122 ∨ 65 ≤ c ∧ c ≤ 90 := by
  by_contra none
  have big : ¬ (48 ≤ c && c ≤ 57) = true ∧ ¬ (97 ≤ c && c ≤ 122) = true ∧ ¬ (65 ≤ c && c ≤ 90) = true := by
    simp only [Bool.and_eq_true, decide_eq_true_eq]
    omega
  simp [toDigit, big.1, big.2.1, big.2.2] at dig

/-- The printable ASCII characters are no white space. -/
lemma isWhitespace_eq_false {c : Nat} (lo : 33 ≤ c) (hi : c < 0x80) : isWhitespace c = false := by
  simp only [isWhitespace, Bool.or_eq_false_iff, Bool.and_eq_false_iff, decide_eq_false_iff_not, beq_eq_false_iff_ne]
  omega

/-- A numeral is ASCII text without white space. -/
lemma Numeral.plain {radix : Nat} {s : Str} {n : Nat} (num : Numeral radix s n) :
    ∀ c ∈ s, isWhitespace c = false ∧ c < 0x80 := by
  obtain ⟨sign, -, dig, -⟩ := num
  intro c hc
  rcases List.mem_append.1 hc with hc | hc
  · rcases sign with rfl | rfl
    · cases hc
    · rw [List.mem_singleton.1 hc]
      decide
  · have shape := toDigit_cases (dig c hc)
    exact ⟨isWhitespace_eq_false (by omega) (by omega), by omega⟩

/-- A text that is folded to a number has only digits. -/
lemma digits_of_foldlM {radix : Nat} {ds : Str} {acc n : Nat} (h : ds.foldlM (pushDigit radix) acc = some n) :
    ∀ c ∈ ds, (toDigit radix c).isSome := by
  induction ds generalizing acc with
  | nil => nofun
  | cons c ds ih =>
    obtain ⟨acc', push, rest⟩ := Option.bind_eq_some_iff.1 h
    obtain ⟨d, digit, -⟩ := Option.bind_eq_some_iff.1 push
    refine List.forall_mem_cons.2 ⟨?_, ih rest⟩
    rw [digit]
    rfl

/-- A text that is folded to a number has the value of the number, which is within the bound. -/
lemma value_of_foldlM {radix : Nat} {ds : Str} {n : Nat} (pos : 0 < radix) (ne : ds ≠ [])
    (h : ds.foldlM (pushDigit radix) 0 = some n) :
    (∀ c ∈ ds, (toDigit radix c).isSome) ∧ value radix ds < usizeBound ∧ value radix ds = n := by
  have dig := digits_of_foldlM h
  rw [foldlM_pushDigit pos dig] at h
  obtain ⟨fits, e⟩ := Option.ite_none_right_eq_some.1 h
  exact ⟨dig, fits.resolve_right ne, Option.some.inj e⟩

/-- The integer parser reads the numerals. -/
lemma fromStrRadix_eq_some {radix : Nat} {s : Str} {n : Nat} (pos : 0 < radix) :
    fromStrRadix radix s = some n ↔ Numeral radix s n := by
  constructor
  · intro h
    rw [fromStrRadix.eq_def] at h
    split at h
    · cases h
    · cases h
    · cases h
    · rename_i ds ne
      obtain ⟨dig, fits, rfl⟩ := value_of_foldlM pos ne h
      exact @Numeral.mk radix [43] ds (.inr rfl) ne dig fits
    · rename_i ne _ _ _
      obtain ⟨dig, fits, rfl⟩ := value_of_foldlM pos ne h
      exact @Numeral.mk radix [] s (.inl rfl) ne dig fits
  · rintro ⟨sign, ne, dig, fits⟩
    rename_i sign' ds
    rcases sign with rfl | rfl
    · exact fromStrRadix_digits pos ne dig fits
    · have fold := foldlM_pushDigit pos dig 0
      rw [if_pos (.inl fits)] at fold
      obtain ⟨c, ds, rfl⟩ := List.exists_cons_of_ne_nil ne
      exact fold

/-- A number with white space around it. -/
def Padded (radix : Nat) (s : Str) (n : Nat) : Prop :=
  ∃ lead num trail, s = lead ++ num ++ trail ∧ (∀ c ∈ lead, isWhitespace c = true) ∧
    (∀ c ∈ trail, isWhitespace c = true) ∧ Numeral radix num n

/-- Trimming and parsing reads the numbers with white space around them. -/
lemma fromStrRadix_trim {radix : Nat} {s : Str} {n : Nat} (pos : 0 < radix) :
    fromStrRadix radix (trim s) = some n ↔ Padded radix s n := by
  rw [fromStrRadix_eq_some pos]
  constructor
  · intro num
    obtain ⟨lead, trail, whole, hl, ht⟩ := trim_cases s
    exact ⟨lead, trim s, trail, whole, hl, ht, num⟩
  · rintro ⟨lead, num, trail, rfl, hl, ht, numeral⟩
    rw [trim_around hl (fun c hc => (numeral.plain c hc).1) ht]
    exact numeral

/-! ## Texts in pieces -/

/-- A text in front decodes apart from what follows it. -/
lemma fromUtf8_append {bs : Bytes} {s : Str} (h : fromUtf8 bs = some s) (rest : Bytes) :
    fromUtf8 (bs ++ rest) = (fromUtf8 rest).map (s ++ ·) := by
  induction s generalizing bs with
  | nil =>
    rw [fromUtf8_eq_nil h]
    exact Option.map_id'.symm
  | cons c s ih =>
    obtain ⟨lead, bs, rfl, enc, tail⟩ := fromUtf8_eq_cons h
    rw [List.append_assoc, enc.fromUtf8_append, ih tail, Option.map_map]
    rfl

/-- The bytes of a text in two parts are those of the parts. -/
lemma fromUtf8_split {bs : Bytes} {s t : Str} (h : fromUtf8 bs = some (s ++ t)) :
    ∃ bs1 bs2, bs = bs1 ++ bs2 ∧ fromUtf8 bs1 = some s ∧ fromUtf8 bs2 = some t := by
  induction s generalizing bs with
  | nil => exact ⟨[], bs, rfl, rfl, h⟩
  | cons c s ih =>
    obtain ⟨lead, rest, rfl, enc, tail⟩ := fromUtf8_eq_cons h
    obtain ⟨bs1, bs2, rfl, front, back⟩ := ih tail
    refine ⟨lead ++ bs1, bs2, (List.append_assoc _ _ _).symm, ?_, back⟩
    rw [enc.fromUtf8_append, front]
    rfl

end Str

end Railscale
