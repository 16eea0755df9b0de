import Mathlib.Data.List.Basic
import Mathlib.Logic.Function.Basic
import Mathlib.Tactic.Common

/-! # Filling a buffer

Memory from the start of a buffer on, with the index of the next store. The memory has no end,
so that a store behind the declared size is a store like any other, and every index stored at
is kept: that none is out of bounds is then a fact about the run.
-/
namespace VirtiosoMux.FillBuffer
variable {α β : Type*}

structure Buffer (α : Type*) where
  mem : Nat → α
  idx : Nat
  stores : List Nat

namespace Buffer

def ofMemory (mem : Nat → α) : Buffer α := ⟨mem, 0, []⟩

def push (b : Buffer α) (x : α) : Buffer α :=
  { mem := Function.update b.mem b.idx x, idx := b.idx + 1, stores := b.stores ++ [b.idx] }

/-- The index goes back to the start; the memory stays. -/
def rewind (b : Buffer α) : Buffer α := { b with idx := 0 }

def filled (b : Buffer α) : List α := (List.range b.idx).map b.mem

def pushAll (b : Buffer α) (xs : List α) : Buffer α := xs.foldl push b

/-- Every store so far has been in bounds, and the next may be the first that is not. -/
structure Within (b : Buffer α) (size : Nat) : Prop where
  stores : ∀ i ∈ b.stores, i < size
  idx : b.idx ≤ size

/-! ### Contents -/

@[simp] theorem filled_ofMemory (mem : Nat → α) : (ofMemory mem).filled = [] := rfl
@[simp] theorem filled_rewind (b : Buffer α) : b.rewind.filled = [] := rfl
@[simp] theorem idx_push (b : Buffer α) (x : α) : (b.push x).idx = b.idx + 1 := rfl

@[simp] theorem length_filled (b : Buffer α) : b.filled.length = b.idx := by
  simp [filled]

@[simp] theorem filled_push (b : Buffer α) (x : α) : (b.push x).filled = b.filled ++ [x] := by
  have hbefore : (List.range b.idx).map (Function.update b.mem b.idx x) = (List.range b.idx).map b.mem := by
    apply List.map_congr_left
    intro i hi
    exact Function.update_of_ne (Nat.ne_of_lt (List.mem_range.mp hi)) x b.mem
  simp [filled, push, List.range_succ, hbefore]

@[simp] theorem filled_pushAll (b : Buffer α) (xs : List α) : (b.pushAll xs).filled = b.filled ++ xs := by
  induction xs generalizing b with
  | nil => simp [pushAll]
  | cons x xs ih =>
    have hrest := ih (b.push x)
    simpa [pushAll] using hrest

@[simp] theorem idx_pushAll (b : Buffer α) (xs : List α) : (b.pushAll xs).idx = b.idx + xs.length := by
  rw [← length_filled, filled_pushAll, List.length_append, length_filled]

theorem pushAll_append (b : Buffer α) (xs ys : List α) : b.pushAll (xs ++ ys) = (b.pushAll xs).pushAll ys :=
  List.foldl_append

/-- A loop whose rounds each store a few elements. -/
theorem foldl_pushAll {step : Buffer α → β → Buffer α} {code : β → List α}
    (hstep : ∀ b x, step b x = b.pushAll (code x)) (b : Buffer α) (xs : List β) :
    xs.foldl step b = b.pushAll (xs.flatMap code) := by
  induction xs generalizing b with
  | nil => rfl
  | cons x xs ih => rw [List.foldl_cons, ih, hstep, List.flatMap_cons, pushAll_append]

/-! ### Bounds -/

theorem within_ofMemory (mem : Nat → α) (size : Nat) : (ofMemory mem).Within size :=
  ⟨List.forall_mem_nil _, Nat.zero_le size⟩

theorem Within.rewind {b : Buffer α} {size : Nat} (h : b.Within size) : b.rewind.Within size :=
  ⟨h.stores, Nat.zero_le size⟩

theorem Within.push {b : Buffer α} {size : Nat} (h : b.Within size) (hroom : b.idx < size) (x : α) :
    (b.push x).Within size := by
  constructor
  · intro i hi
    rcases List.mem_append.mp hi with hi | hi
    · exact h.stores i hi
    · exact List.mem_singleton.mp hi ▸ hroom
  · exact hroom

theorem Within.pushAll {b : Buffer α} {size : Nat} (h : b.Within size) {xs : List α}
    (hroom : b.idx + xs.length ≤ size) : (b.pushAll xs).Within size := by
  induction xs generalizing b with
  | nil => exact h
  | cons x xs ih =>
    rw [List.length_cons] at hroom
    exact ih (h.push (by omega) x) (by rw [idx_push]; omega)

/-- A buffer filled from its start. -/
theorem within_filling (mem : Nat → α) {xs : List α} {size : Nat} (hlen : xs.length ≤ size) :
    ((ofMemory mem).pushAll xs).Within size := by
  apply (within_ofMemory mem size).pushAll
  rw [show (ofMemory mem).idx = 0 from rfl, Nat.zero_add]
  exact hlen

end Buffer

end VirtiosoMux.FillBuffer
