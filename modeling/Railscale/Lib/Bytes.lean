import Mathlib.Data.List.Basic
import Mathlib.Tactic.Lemma

/-!
# Byte strings

The byte-level vocabulary of the Rust standard library and of the `memchr` crate: byte strings as
lists, the first and the last position of a byte (`memchr`/`memrchr`), ASCII case folding
(`eq_ignore_ascii_case`) and string literals. A `Bytes`, a `&[u8]` and a `BytesMut` are all a
`Bytes` here: none of the code below depends on how the bytes are shared or allocated.
-/

namespace Railscale

/-- A byte string (Rust `Bytes`, `BytesMut`, `&[u8]`). -/
abbrev Bytes := List UInt8

namespace Bytes

/-- The bytes of a string literal (Rust `b"..."`). -/
def lit (s : String) : Bytes := s.toUTF8.data.toList

/-- `\r`. -/
abbrev cr : UInt8 := 13

/-- `\n`. -/
abbrev lf : UInt8 := 10

/-- `b' '`. -/
abbrev sp : UInt8 := 32

/-- `b'\t'`. -/
abbrev tab : UInt8 := 9

/-- `b"\r\n"`. -/
abbrev crlf : Bytes := [cr, lf]

/-- The first position of a byte (Rust `memchr::memchr`). -/
def memchr (b : UInt8) (s : Bytes) : Option Nat := s.findIdx? (· == b)

/-- The last position of a byte (Rust `memchr::memrchr`). -/
def memrchr (b : UInt8) (s : Bytes) : Option Nat :=
  (memchr b s.reverse).map (s.length - 1 - ·)

/-- ASCII lower case of one byte (Rust `u8::to_ascii_lowercase`). -/
def toAsciiLower (b : UInt8) : UInt8 := if 65 ≤ b && b ≤ 90 then b + 32 else b

/-- ASCII case-insensitive equality (Rust `eq_ignore_ascii_case`). -/
def eqIgnoreAsciiCase (s t : Bytes) : Bool := s.map toAsciiLower == t.map toAsciiLower

/-- Lower case stays as it is. -/
lemma toAsciiLower_idem (b : UInt8) : toAsciiLower (toAsciiLower b) = toAsciiLower b := by
  unfold toAsciiLower
  split
  · rename_i capital
    have small : ¬ (65 ≤ b + 32 && b + 32 ≤ 90) = true := by
      simp only [Bool.and_eq_true, decide_eq_true_eq, UInt8.le_iff_toNat_le, UInt8.toNat_add, UInt8.toNat_ofNat]
        at capital ⊢
      omega
    rw [if_neg small]
  · rfl

/-- A byte that does not occur has no first position. -/
lemma memchr_eq_none {b : UInt8} {s : Bytes} : memchr b s = none ↔ b ∉ s := by
  simp only [memchr, List.findIdx?_eq_none_iff, beq_eq_false_iff_ne]
  constructor
  · intro h hb
    exact h b hb rfl
  · intro h x hx e
    exact h (e ▸ hx)

/-- The first occurrence of a byte after a prefix without it is right behind the prefix. -/
lemma memchr_append_cons {b : UInt8} {p s : Bytes} (h : b ∉ p) :
    memchr b (p ++ b :: s) = some p.length := by
  induction p with
  | nil => simp [memchr, List.findIdx?_cons]
  | cons a p ih =>
    have ha : a ≠ b := fun e => h (by simp [e])
    have ih' := ih (fun hb => h (List.mem_cons_of_mem _ hb))
    simp only [memchr, List.cons_append, List.findIdx?_cons, beq_iff_eq, ha, if_false] at ih' ⊢
    rw [ih']; rfl

/-- A found position splits the string at the byte, which does not occur before it. -/
lemma memchr_eq_some {b : UInt8} {s : Bytes} {n : Nat} (h : memchr b s = some n) :
    ∃ p t, s = p ++ b :: t ∧ p.length = n ∧ b ∉ p := by
  induction s generalizing n with
  | nil => simp [memchr] at h
  | cons a s ih =>
    by_cases ha : a = b
    · subst ha
      simp only [memchr, List.findIdx?_cons, beq_self_eq_true, if_true, Option.some.injEq] at h
      exact ⟨[], s, rfl, h, List.not_mem_nil⟩
    · simp only [memchr, List.findIdx?_cons, beq_iff_eq, ha, if_false, Option.map_eq_some_iff] at h
      obtain ⟨m, hm, rfl⟩ := h
      obtain ⟨p, t, rfl, rfl, hp⟩ := ih hm
      exact ⟨a :: p, t, rfl, rfl, by simp [hp, Ne.symm ha]⟩

/-- The last occurrence of a byte before a suffix without it is right before the suffix. -/
lemma memrchr_append_cons {b : UInt8} {p s : Bytes} (h : b ∉ s) :
    memrchr b (p ++ b :: s) = some p.length := by
  have e : (p ++ b :: s).reverse = s.reverse ++ b :: p.reverse := by simp
  rw [memrchr, e, memchr_append_cons (by simpa using h)]
  simp only [Option.map_some, List.length_append, List.length_cons, List.length_reverse,
    Option.some.injEq]
  omega

end Bytes

end Railscale
