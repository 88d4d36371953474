import Railscale.Lib.Bytes
import Mathlib.Data.UInt
import Mathlib.Tactic.Ring

/-!
# Records of fields

Readers that take a field off the front of a byte string: so many bytes, a little-endian number, and records to the
end of the string. A reader and a writer fit when the reader gives back what was written and leaves the rest alone,
whatever the rest is (`Reads`), so the fields of a record are read one after the other and records one behind
another (`readAll_flatMap`).
-/

namespace Railscale

namespace Bytes

/-! ## Numbers -/

/-- The little-endian bytes of a number (Rust `to_le_bytes`), as many as the width says. -/
def leBytes : Nat → Nat → Bytes
  | 0, _ => []
  | width + 1, n => UInt8.ofNat n :: leBytes width (n / 256)

/-- The number of little-endian bytes (Rust `from_le_bytes`). -/
def leNat (bs : Bytes) : Nat := bs.foldr (fun b n => b.toNat + 256 * n) 0

/-- A little-endian number has its width. -/
@[simp] lemma length_leBytes (width n : Nat) : (leBytes width n).length = width := by
  induction width generalizing n with
  | zero => rfl
  | succ width ih => rw [leBytes, List.length_cons, ih]

/-- A number is read back when it fits the width. -/
lemma leNat_leBytes (width : Nat) {n : Nat} (fits : n < 256 ^ width) : leNat (leBytes width n) = n := by
  induction width generalizing n with
  | zero =>
    rw [pow_zero, Nat.lt_one_iff] at fits
    rw [fits]
    rfl
  | succ width ih =>
    have low : (UInt8.ofNat n).toNat = n % 256 := UInt8.toNat_ofNat'
    have high : leNat (leBytes width (n / 256)) = n / 256 := by
      refine ih (Nat.div_lt_of_lt_mul ?_)
      rw [← pow_succ']
      exact fits
    show (UInt8.ofNat n).toNat + 256 * leNat (leBytes width (n / 256)) = n
    rw [low, high]
    exact Nat.mod_add_div n 256

/-! ## Readers -/

/-- A reader: what it reads and the rest, or nothing. -/
abbrev Reader (α : Type) := Bytes → Option (α × Bytes)

/-- The next bytes, so many of them. -/
def takeExact (n : Nat) : Reader Bytes := fun d => if n ≤ d.length then some (d.take n, d.drop n) else none

/-- The next number of the width. -/
def takeLe (width : Nat) : Reader Nat := fun d => (takeExact width d).map fun (bs, rest) => (leNat bs, rest)

/-- As many bytes as asked for are taken from the front. -/
lemma takeExact_append {n : Nat} {bs : Bytes} (len : bs.length = n) (rest : Bytes) :
    takeExact n (bs ++ rest) = some (bs, rest) := by
  subst len
  rw [takeExact, if_pos (by rw [List.length_append]; exact Nat.le_add_right _ _), List.take_left, List.drop_left]

/-- A little-endian number is read back. -/
lemma takeLe_append (width : Nat) {n : Nat} (fits : n < 256 ^ width) (rest : Bytes) :
    takeLe width (leBytes width n ++ rest) = some (n, rest) := by
  rw [takeLe, takeExact_append (length_leBytes width n), Option.map_some]
  exact congrArg (fun k => some (k, rest)) (leNat_leBytes width fits)

/-- Going on behind the bytes that were written. -/
lemma takeExact_bind {α : Type} {n : Nat} {bs : Bytes} (len : bs.length = n) (rest : Bytes)
    (next : Bytes × Bytes → Option α) : (takeExact n (bs ++ rest) >>= next) = next (bs, rest) := by
  rw [takeExact_append len]
  rfl

/-- Going on behind a number that was written. -/
lemma takeLe_bind {α : Type} (width : Nat) {n : Nat} (fits : n < 256 ^ width) (rest : Bytes)
    (next : Nat × Bytes → Option α) : (takeLe width (leBytes width n ++ rest) >>= next) = next (n, rest) := by
  rw [takeLe_append width fits]
  rfl

section all

variable {α β : Type}

/-- Records up to the end of the string. Every record takes something. -/
def readAll (read : Reader α) (d : Bytes) : Option (List α) :=
  if d = [] then some []
  else
    match read d with
    | none => none
    | some (a, rest) => if rest.length < d.length then (readAll read rest).map (a :: ·) else none
termination_by d.length

/-- The reader gives back what the writer has written, before any rest. -/
structure Reads (read : Reader α) (written : Bytes) (a : α) : Prop where
  back : ∀ rest, read (written ++ rest) = some (a, rest)
  some : written ≠ []

/-- Records are read back one behind the other. -/
theorem readAll_flatMap {read : Reader α} {write : β → Bytes} {f : β → α} {bs : List β}
    (reads : ∀ b ∈ bs, Reads read (write b) (f b)) : readAll read (bs.flatMap write) = some (bs.map f) := by
  induction bs with
  | nil => rw [List.flatMap_nil, readAll, if_pos rfl, List.map_nil]
  | cons b bs ih =>
    have first := reads b List.mem_cons_self
    have ih := ih fun b hb => reads b (List.mem_cons_of_mem _ hb)
    have ne : write b ++ bs.flatMap write ≠ [] := List.append_ne_nil_of_left_ne_nil first.some _
    have shorter : (bs.flatMap write).length < (write b ++ bs.flatMap write).length := by
      rw [List.length_append]
      exact Nat.lt_add_of_pos_left (List.length_pos_iff.2 first.some)
    rw [List.flatMap_cons, readAll, if_neg ne, first.back, List.map_cons]
    dsimp only
    rw [if_pos shorter, ih, Option.map_some]

/-- Reading the members of a list, each of which can be read. -/
lemma mapM_map {γ : Type} {read : β → Option γ} {f : α → β} {g : α → γ} {as : List α}
    (reads : ∀ a ∈ as, read (f a) = some (g a)) : (as.map f).mapM read = some (as.map g) := by
  induction as with
  | nil => rfl
  | cons a as ih =>
    have ih := ih fun a ha => reads a (List.mem_cons_of_mem _ ha)
    rw [List.map_cons, List.mapM_cons, reads a List.mem_cons_self, ih]
    rfl

end all

/-! ## Padding -/

/-- The bytes that are missing to a multiple of four. -/
def padding (n : Nat) : Nat := (4 - n % 4) % 4

/-- The padding fills up to a multiple of four. -/
lemma dvd_padding (n : Nat) : 4 ∣ n + padding n := by
  rw [padding]
  omega

end Bytes

end Railscale
