import Railscale.Lib.Bytes
import Mathlib.Data.Nat.Bitwise
import Mathlib.Data.UInt

/-!
# Fields at an offset

Reading bytes, big-endian numbers and slices at an offset of a byte string, as Rust's `d[pos]` and
`&d[i..j]` do: an offset outside the string is a panic. The lemmas read a field back wherever it stands:
`d` is only known to begin like the string that has the field, so the same lemma serves a whole message
and a message that was cut off. On bytes of which nothing is known, `Finds` says that a computation does not
panic, and its rules follow the computation read by read.
-/

namespace Railscale

/-- The ways in which indexing fails. -/
inductive Panic where
  | indexOutOfBounds
  deriving DecidableEq, Repr

/-- A computation that may panic. -/
abbrev Checked (α : Type) := Except Panic α

namespace Bytes

/-- Rust `d[pos]`. -/
def byteAt (d : Bytes) (pos : Nat) : Checked UInt8 :=
  match d[pos]? with
  | some b => .ok b
  | none => .error .indexOutOfBounds

/-- Rust `((d[pos] as usize) << 8) | (d[pos + 1] as usize)`. -/
def u16At (d : Bytes) (pos : Nat) : Checked Nat := do
  let hi ← byteAt d pos
  let lo ← byteAt d (pos + 1)
  return (hi.toNat <<< 8) ||| lo.toNat

/-- Rust `&d[i..j]`. -/
def slice (d : Bytes) (i j : Nat) : Checked Bytes :=
  if i ≤ j ∧ j ≤ d.length then .ok ((d.take j).drop i) else .error .indexOutOfBounds

/-- The two bytes of a number below `2 ^ 16`, the high one first. -/
def beU16 (n : Nat) : Bytes := [UInt8.ofNat (n / 256), UInt8.ofNat n]

/-- A big-endian `u16` has two bytes. -/
@[simp] lemma length_beU16 (n : Nat) : (beU16 n).length = 2 := rfl

/-- A field that was read is passed on. -/
@[simp] lemma ok_bind {α β : Type} (a : α) (f : α → Checked β) : (Except.ok a >>= f : Checked β) = f a := rfl

/-- A byte within the data is read without panic. -/
lemma byteAt_ok {d : Bytes} {pos : Nat} (lt : pos < d.length) : ∃ b, byteAt d pos = .ok b :=
  ⟨d[pos], by rw [byteAt, List.getElem?_eq_getElem lt]⟩

/-- A byte is read in a prefix of the data as in the data. -/
lemma byteAt_prefix {d l r : Bytes} {b : UInt8} {pos : Nat} (h : d <+: l ++ b :: r) (here : pos = l.length)
    (lt : pos < d.length) : byteAt d pos = .ok b := by
  subst here
  obtain ⟨t, e⟩ := h
  have whole : (d ++ t)[l.length]? = some b := by
    rw [e, List.getElem?_append_right (Nat.le_refl _), Nat.sub_self]
    rfl
  rw [List.getElem?_append_left lt] at whole
  rw [byteAt, whole]

/-- The two halves of a number below `2 ^ 16`. -/
lemma or_halves {n : Nat} (lt : n < 2 ^ 16) :
    ((UInt8.ofNat (n / 256)).toNat <<< 8) ||| (UInt8.ofNat n).toNat = n := by
  have hi : (UInt8.ofNat (n / 256)).toNat = n / 256 := by
    rw [UInt8.toNat_ofNat']
    exact Nat.mod_eq_of_lt (by omega)
  have lo : (UInt8.ofNat n).toNat = n % 256 := UInt8.toNat_ofNat'
  rw [hi, lo, ← Nat.shiftLeft_add_eq_or_of_lt (Nat.mod_lt n (by decide)), Nat.shiftLeft_eq]
  omega

/-- Two numbers below 2 ^ 16 are equal if their bytes are. -/
lemma beU16_inj {n m : Nat} (hn : n < 2 ^ 16) (hm : m < 2 ^ 16) (e : beU16 n = beU16 m) : n = m := by
  injection e with hi e
  injection e with lo _
  rw [← or_halves hn, ← or_halves hm, hi, lo]

/-- The number of two bytes is below `2 ^ 16`, and they are its bytes. -/
lemma beU16_or (hi lo : UInt8) :
    (hi.toNat <<< 8) ||| lo.toNat < 2 ^ 16 ∧ beU16 ((hi.toNat <<< 8) ||| lo.toNat) = [hi, lo] := by
  have hi_lt := hi.toNat_lt
  have lo_lt := lo.toNat_lt
  rw [← Nat.shiftLeft_add_eq_or_of_lt lo_lt, Nat.shiftLeft_eq]
  refine ⟨by omega, ?_⟩
  have high : (hi.toNat * 2 ^ 8 + lo.toNat) / 256 = hi.toNat := by omega
  have low : UInt8.ofNat (hi.toNat * 2 ^ 8 + lo.toNat) = lo := by
    apply UInt8.toNat.inj
    rw [UInt8.toNat_ofNat']
    omega
  rw [beU16, high, low, UInt8.ofNat_toNat]

/-- A `u16` is read in a prefix of the data as in the data. -/
lemma u16At_prefix {d l r : Bytes} {n pos : Nat} (h : d <+: l ++ (beU16 n ++ r)) (here : pos = l.length)
    (lt : pos + 2 ≤ d.length) (fits : n < 2 ^ 16) : u16At d pos = .ok n := by
  have hi : byteAt d pos = .ok (UInt8.ofNat (n / 256)) :=
    byteAt_prefix (r := UInt8.ofNat n :: r) h here (by omega)
  have lo : byteAt d (pos + 1) = .ok (UInt8.ofNat n) := by
    refine byteAt_prefix (l := l ++ [UInt8.ofNat (n / 256)]) (r := r) ?_ ?_ (by omega)
    · rw [List.append_assoc]
      exact h
    · rw [here, List.length_append]
      rfl
  rw [u16At, hi, ok_bind, lo, ok_bind, or_halves fits]
  rfl

/-- A byte of a string that is known. -/
lemma byteAt_eq {d l r : Bytes} {b : UInt8} {pos : Nat} (e : d = l ++ b :: r) (here : pos = l.length) :
    byteAt d pos = .ok b := by
  subst e
  refine byteAt_prefix (List.prefix_refl _) here ?_
  rw [here, List.length_append, List.length_cons]
  omega

/-- A number of a string that is known. -/
lemma u16At_eq {d l r : Bytes} {n pos : Nat} (e : d = l ++ (beU16 n ++ r)) (here : pos = l.length)
    (fits : n < 2 ^ 16) : u16At d pos = .ok n := by
  subst e
  refine u16At_prefix (List.prefix_refl _) here ?_ fits
  rw [here, List.length_append, List.length_append, length_beU16]
  omega

/-- A slice that begins and ends with a part of the data is that part. -/
lemma slice_append {l bs r : Bytes} {i j : Nat} (start : i = l.length) (stop : j = l.length + bs.length) :
    slice (l ++ (bs ++ r)) i j = .ok bs := by
  subst start stop
  rw [slice, if_pos ⟨Nat.le_add_right _ _, by simp⟩, ← List.append_assoc, ← List.length_append,
    List.take_left, List.drop_left]

/-! ## Reading without a panic -/

/-- The computation does not panic, and what it finds is so. -/
def Finds {α : Type} (P : α → Prop) (x : Checked (Option α)) : Prop := ∃ r, x = .ok r ∧ ∀ a ∈ r, P a

namespace Finds

variable {α : Type} {P : α → Prop}

/-- Nothing is found without panic. -/
lemma nothing : Finds P (pure none) := ⟨none, rfl, nofun⟩

/-- What is found meets the property if it does. -/
lemma found {a : α} (h : P a) : Finds P (pure (some a)) := ⟨some a, rfl, fun _ e => Option.some.inj e ▸ h⟩

/-- A check that ends the computation without a result. -/
lemma check {c : Prop} [Decidable c] {x : Checked (Option α)} (go : ¬ c → Finds P x) :
    Finds P (if c then pure none else x) := by
  split
  · exact nothing
  · rename_i h
    exact go h

/-- A byte within the data is read, and the search goes on with it. -/
lemma byte {d : Bytes} {pos : Nat} {f : UInt8 → Checked (Option α)} (lt : pos < d.length)
    (go : ∀ b, byteAt d pos = .ok b → Finds P (f b)) : Finds P (byteAt d pos >>= f) := by
  obtain ⟨b, here⟩ := byteAt_ok lt
  rw [here, ok_bind]
  exact go b here

/-- A `u16` within the data is read, and the search goes on with it. -/
lemma u16 {d : Bytes} {pos : Nat} {f : Nat → Checked (Option α)} (lt : pos + 2 ≤ d.length)
    (go : ∀ n, u16At d pos = .ok n → Finds P (f n)) : Finds P (u16At d pos >>= f) := by
  obtain ⟨hi, first⟩ := byteAt_ok (show pos < d.length by omega)
  obtain ⟨lo, second⟩ := byteAt_ok (show pos + 1 < d.length by omega)
  have here : u16At d pos = .ok ((hi.toNat <<< 8) ||| lo.toNat) := by
    rw [u16At, first, ok_bind, second, ok_bind]
    rfl
  rw [here, ok_bind]
  exact go _ here

/-- A range within the data is read, and the search goes on with it. -/
lemma slice {d : Bytes} {i j : Nat} {f : Bytes → Checked (Option α)} (le : i ≤ j) (inside : j ≤ d.length)
    (go : Finds P (f ((d.take j).drop i))) : Finds P (Bytes.slice d i j >>= f) := by
  rw [Bytes.slice, if_pos ⟨le, inside⟩, ok_bind]
  exact go

/-- One computation after another. -/
lemma bind {β : Type} {Q : β → Prop} {x : Checked (Option α)} {f : Option α → Checked (Option β)} (h : Finds P x)
    (none : Finds Q (f none)) (some : ∀ a, x = .ok (some a) → P a → Finds Q (f (some a))) : Finds Q (x >>= f) := by
  obtain ⟨r, here, all⟩ := h
  rw [here, ok_bind]
  cases r with
  | none => exact none
  | some a => exact some a here (all a rfl)

/-- A weaker property is met too. -/
lemma mono {Q : α → Prop} {x : Checked (Option α)} (h : Finds P x) (le : ∀ a, P a → Q a) : Finds Q x := by
  obtain ⟨r, here, all⟩ := h
  exact ⟨r, here, fun a mem => le a (all a mem)⟩

end Finds

end Bytes

end Railscale
