import Mathlib.Algebra.GroupWithZero.Nat
import Railscale.Atom.Frame
import Railscale.Lib.Stable

/-!
# Phased buffers

Model of `train_track/src/atom/phase.rs`. A `PhasedBuffer` takes frames and passthrough data, each with a phase, and is
put in the order of the phases by a stable sort. However the calls of `reorder` lie between the pushes, the last one
leaves the phases in order, and in each phase what was pushed to it in the order of the pushes (`reordered_of_calls`).
-/

namespace Railscale

/-- Rust `PhasedFrame`, with the `Phase` that is its associated type. -/
class PhasedFrame (F : Type) (P : outParam Type) [Frame F] where
  phase : F → P

namespace PhasedBuffer

/-- Rust `Entry`. -/
inductive Entry (P : Type) where
  | framed (phase : P) (data : Bytes)
  | passthrough (phase : P) (data : Bytes)

variable {P : Type}

/-- Rust `Entry::phase`. -/
def Entry.phase : Entry P → P
  | .framed phase _ => phase
  | .passthrough phase _ => phase

/-- Rust `Entry::data` and `Entry::into_data`. -/
def Entry.data : Entry P → Bytes
  | .framed _ data => data
  | .passthrough _ data => data

end PhasedBuffer

open PhasedBuffer (Entry)

/-- Rust `PhasedBuffer`. -/
structure PhasedBuffer (P : Type) where
  entries : List (Entry P)
  byteCount : Nat

namespace PhasedBuffer

variable {P : Type}

/-- Rust `PhasedBuffer::new`. -/
def new : PhasedBuffer P := ⟨[], 0⟩

/-- Rust `PhasedBuffer::push_frame`. -/
def pushFrame {F : Type} [Frame F] [PhasedFrame F P] (b : PhasedBuffer P) (frame : F) : PhasedBuffer P :=
  let data := Frame.asBytes frame
  ⟨b.entries ++ [.framed (PhasedFrame.phase frame) data], b.byteCount + data.length⟩

/-- Rust `PhasedBuffer::push_passthrough`. -/
def pushPassthrough (b : PhasedBuffer P) (phase : P) (data : Bytes) : PhasedBuffer P :=
  ⟨b.entries ++ [.passthrough phase data], b.byteCount + data.length⟩

/-- Rust `PhasedBuffer::is_empty`. -/
def isEmpty (b : PhasedBuffer P) : Bool := b.entries.isEmpty

/-- Rust `PhasedBuffer::drain`. -/
def drain (b : PhasedBuffer P) : List Bytes := b.entries.map Entry.data

/-- Rust `PhasedBuffer::freeze`. -/
def freeze (b : PhasedBuffer P) : Bytes := b.entries.flatMap Entry.data

variable [LinearOrder P]

/-- Rust `PhasedBuffer::reorder`. Entries of one phase compare as equal, and `sort_by` is stable. -/
def reorder (b : PhasedBuffer P) : PhasedBuffer P := { b with entries := Stable.sortBy Entry.phase b.entries }

/-- Rust `PhasedBuffer::phases_present`. `Vec::dedup` drops what is equal to the element before it. -/
def phasesPresent (b : PhasedBuffer P) : List P := Stable.keys Entry.phase b.entries

/-! ## Any calls -/

/-- The calls that change a buffer. -/
inductive Call (F P : Type) where
  | pushFrame (frame : F)
  | pushPassthrough (phase : P) (data : Bytes)
  | reorder

variable {F : Type} [Frame F] [PhasedFrame F P]

/-- A call. -/
def call (b : PhasedBuffer P) : Call F P → PhasedBuffer P
  | .pushFrame frame => b.pushFrame frame
  | .pushPassthrough phase data => b.pushPassthrough phase data
  | .reorder => b.reorder

omit [LinearOrder P] in
/-- What a call pushes. -/
def Call.entry : Call F P → List (Entry P)
  | .pushFrame frame => [.framed (PhasedFrame.phase frame) (Frame.asBytes frame)]
  | .pushPassthrough phase data => [.passthrough phase data]
  | .reorder => []

omit [LinearOrder P] in
/-- The phases that the calls push to. -/
def pushedPhases (calls : List (Call F P)) : List P := (calls.flatMap Call.entry).map Entry.phase

/-- What the calls push to a phase, in order. -/
def pushedTo (calls : List (Call F P)) (p : P) : Bytes :=
  (Stable.having Entry.phase p (calls.flatMap Call.entry)).flatMap Entry.data

/-- The count is of the bytes that are there. -/
def Counted (b : PhasedBuffer P) : Prop := b.byteCount = b.freeze.length

omit [LinearOrder P] in
/-- The frozen buffer has the bytes of all entries. -/
lemma freeze_length (b : PhasedBuffer P) : b.freeze.length = (b.entries.map fun e => e.data.length).sum :=
  List.length_flatMap

omit [LinearOrder P] in
/-- A push counts what it adds. -/
lemma Counted.push {b : PhasedBuffer P} (counted : Counted b) (e : Entry P) :
    Counted ⟨b.entries ++ [e], b.byteCount + e.data.length⟩ := by
  have before : b.byteCount = (b.entries.map fun e => e.data.length).sum := counted.trans (freeze_length b)
  apply Eq.trans ?_ (freeze_length _).symm
  simp only [before, List.map_append, List.sum_append, List.map_cons, List.map_nil, List.sum_cons, List.sum_nil,
    Nat.add_zero]

/-- A reorder keeps the count. -/
lemma Counted.reorder {b : PhasedBuffer P} (counted : Counted b) : Counted b.reorder := by
  have before : b.byteCount = (b.entries.map fun e => e.data.length).sum := counted.trans (freeze_length b)
  have same : (b.reorder.entries.map fun e => e.data.length).sum = (b.entries.map fun e => e.data.length).sum :=
    ((Stable.sortBy_perm b.entries).map _).sum_nat
  exact before.trans (same.symm.trans (freeze_length _).symm)

/-- Every call keeps the count. -/
lemma Counted.call {b : PhasedBuffer P} (counted : Counted b) (c : Call F P) : Counted (b.call c) := by
  cases c with
  | pushFrame frame => exact counted.push (.framed (PhasedFrame.phase frame) (Frame.asBytes frame))
  | pushPassthrough phase data => exact counted.push (.passthrough phase data)
  | reorder => exact counted.reorder

/-- So do any calls. -/
lemma counted_of_calls (calls : List (Call F P)) {b : PhasedBuffer P} (counted : Counted b) :
    Counted (calls.foldl call b) := by
  induction calls generalizing b with
  | nil => exact counted
  | cons c calls ih => exact ih (counted.call c)

/-- A call leaves, up to a sorting, what was there and what it pushes. -/
lemma sorted_of_call (b : PhasedBuffer P) (c : Call F P) (rest : List (Entry P)) :
    Stable.sortBy Entry.phase ((b.call c).entries ++ rest) =
      Stable.sortBy Entry.phase (b.entries ++ (c.entry ++ rest)) := by
  cases c with
  | pushFrame frame => exact congrArg _ (List.append_assoc _ _ _)
  | pushPassthrough phase data => exact congrArg _ (List.append_assoc _ _ _)
  | reorder => exact Stable.sortBy_append_sortBy b.entries rest

/-- So do the calls, however the sortings lie between the pushes. -/
lemma sorted_of_calls (calls : List (Call F P)) (b : PhasedBuffer P) :
    (calls.foldl call b).reorder.entries = Stable.sortBy Entry.phase (b.entries ++ calls.flatMap Call.entry) := by
  induction calls generalizing b with
  | nil => exact congrArg (Stable.sortBy Entry.phase) (List.append_nil b.entries).symm
  | cons c calls ih => exact (ih (b.call c)).trans (sorted_of_call b c _)

/-- After any calls the count is of the bytes that are there, `drain` and `freeze` give the same bytes, and a `reorder`
gives the phases that were pushed to in order, and in each of them what was pushed to it, in the order of the pushes. -/
theorem reordered_of_calls (calls : List (Call F P)) :
    (calls.foldl call new).byteCount = (calls.foldl call new).freeze.length ∧
      (calls.foldl call new).drain.flatten = (calls.foldl call new).freeze ∧
      (calls.foldl call new).reorder.phasesPresent.Pairwise (· < ·) ∧
      (∀ p, p ∈ (calls.foldl call new).reorder.phasesPresent ↔ p ∈ pushedPhases calls) ∧
      (calls.foldl call new).reorder.freeze =
        (calls.foldl call new).reorder.phasesPresent.flatMap (pushedTo calls) := by
  have all : (calls.foldl call new).reorder.entries = Stable.sortBy Entry.phase (calls.flatMap Call.entry) :=
    sorted_of_calls calls new
  have sorted : Stable.SortedBy Entry.phase (calls.foldl call new).reorder.entries := Stable.sortedBy_sortBy _
  refine ⟨counted_of_calls calls rfl, ?_, Stable.keys_sorted sorted, fun p => ?_, ?_⟩
  · exact List.flatMap_def.symm
  · rw [phasesPresent, Stable.mem_keys sorted, all, pushedPhases, List.mem_map]
    constructor
    · rintro ⟨e, mem, same⟩
      exact ⟨e, (Stable.sortBy_perm _).mem_iff.1 mem, same⟩
    · rintro ⟨e, mem, same⟩
      exact ⟨e, (Stable.sortBy_perm _).mem_iff.2 mem, same⟩
  · have parts : (calls.foldl call new).reorder.entries =
        (calls.foldl call new).reorder.phasesPresent.flatMap
          fun p => Stable.having Entry.phase p (calls.flatMap Call.entry) := by
      conv_lhs => rw [Stable.eq_flatMap_having sorted]
      simp only [all, Stable.having_sortBy, phasesPresent]
    have data := congrArg (fun entries => entries.flatMap Entry.data) parts
    exact data.trans List.flatMap_assoc

end PhasedBuffer

end Railscale
