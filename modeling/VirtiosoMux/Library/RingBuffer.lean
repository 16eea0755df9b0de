import Mathlib.Data.List.Basic
import Mathlib.Data.Nat.ModEq
import Mathlib.Tactic.Common

/-! # Ring buffers

A ring of `n` slots between two indices. Equal indices mean that it is empty, so the slot
before the head stays free and `n - 1` elements fit. The contents are a queue.
-/
namespace VirtiosoMux

structure RingBuffer (α : Type*) where
  head : ℕ
  tail : ℕ
  slots : ℕ → α

namespace RingBuffer
variable {α : Type*} {n : ℕ} {r : RingBuffer α}

def next (n i : ℕ) : ℕ := (i + 1) % n

structure InBounds (n : ℕ) (r : RingBuffer α) : Prop where
  head : r.head < n
  tail : r.tail < n

def used (n : ℕ) (r : RingBuffer α) : ℕ := (r.tail + n - r.head) % n

def contents (n : ℕ) (r : RingBuffer α) : List α := (List.range (r.used n)).map fun k => r.slots ((r.head + k) % n)

def put (n : ℕ) (r : RingBuffer α) (x : α) : RingBuffer α :=
  { r with slots := Function.update r.slots r.tail x, tail := next n r.tail }

def take (n : ℕ) (r : RingBuffer α) : RingBuffer α := { r with head := next n r.head }

theorem next_lt (h : 0 < n) (i : ℕ) : next n i < n := Nat.mod_lt _ h

theorem InBounds.pos (h : r.InBounds n) : 0 < n := Nat.zero_lt_of_lt h.head

theorem InBounds.put (h : r.InBounds n) (x : α) : (r.put n x).InBounds n := ⟨h.head, next_lt h.pos _⟩

theorem InBounds.take (h : r.InBounds n) : (r.take n).InBounds n := ⟨next_lt h.pos _, h.tail⟩

theorem length_contents (n : ℕ) (r : RingBuffer α) : (r.contents n).length = r.used n := by simp [contents]

/-! ### Counting -/

theorem used_lt (h : r.InBounds n) : r.used n < n := Nat.mod_lt _ h.pos

/-- The tail lies `used` slots behind the head. -/
theorem head_add_used (h : r.InBounds n) : (r.head + r.used n) % n = r.tail := by
  have hsum : r.head + (r.tail + n - r.head) = r.tail + n := by
    have hhead := h.head
    omega
  rw [used, Nat.add_mod_mod, hsum, Nat.add_mod_right, Nat.mod_eq_of_lt h.tail]

theorem slot_inj {i k l : ℕ} (hk : k < n) (hl : l < n) (h : (i + k) % n = (i + l) % n) : k = l := by
  have hmod : k ≡ l [MOD n] := Nat.ModEq.add_left_cancel' i h
  exact hmod.eq_of_lt_of_lt hk hl

/-- The number of used slots is the distance from the head to the tail. -/
theorem used_unique (h : r.InBounds n) {k : ℕ} (hk : k < n) (htail : (r.head + k) % n = r.tail) : r.used n = k := by
  apply slot_inj (used_lt h) hk
  rw [head_add_used h, htail]

theorem used_eq_zero_iff (h : r.InBounds n) : r.used n = 0 ↔ r.head = r.tail := by
  have hself : (r.head + 0) % n = r.head := Nat.mod_eq_of_lt h.head
  constructor
  · intro hzero
    rw [← head_add_used h, hzero, hself]
  · intro heq
    exact used_unique h h.pos (hself.trans heq)

/-- The tail may move as long as the ring does not fill its last slot. -/
theorem next_tail_eq_head_iff (h : r.InBounds n) : next n r.tail = r.head ↔ r.used n + 1 = n := by
  have hnext : next n r.tail = (r.head + (r.used n + 1)) % n := by
    rw [next, ← head_add_used h, Nat.mod_add_mod, Nat.add_assoc]
  have hlt := used_lt h
  rw [hnext]
  constructor
  · intro heq
    by_contra hne
    have hzero : r.used n + 1 = 0 := by
      apply slot_inj (i := r.head) (by omega) h.pos
      rw [heq, Nat.add_zero, Nat.mod_eq_of_lt h.head]
    omega
  · intro hfull
    rw [hfull, Nat.add_mod_right, Nat.mod_eq_of_lt h.head]

theorem used_put (h : r.InBounds n) (hroom : next n r.tail ≠ r.head) (x : α) : (r.put n x).used n = r.used n + 1 := by
  have hlt := used_lt h
  have hnot : ¬ r.used n + 1 = n := fun hfull => hroom ((next_tail_eq_head_iff h).mpr hfull)
  apply used_unique (h.put x) (by omega)
  change (r.head + (r.used n + 1)) % n = next n r.tail
  rw [next, ← head_add_used h, Nat.mod_add_mod, Nat.add_assoc]

theorem used_take (h : r.InBounds n) (hne : r.head ≠ r.tail) : r.used n = (r.take n).used n + 1 := by
  have hpos : r.used n ≠ 0 := fun hzero => hne ((used_eq_zero_iff h).mp hzero)
  have hlt := used_lt h
  have hrest : (r.take n).used n = r.used n - 1 := by
    apply used_unique h.take (by omega)
    change (next n r.head + (r.used n - 1)) % n = r.tail
    rw [next, Nat.mod_add_mod, Nat.add_assoc, Nat.add_sub_cancel' (Nat.pos_of_ne_zero hpos), head_add_used h]
  omega

/-! ### The queue -/

theorem contents_empty (h : r.InBounds n) (heq : r.head = r.tail) : r.contents n = [] := by
  rw [contents, (used_eq_zero_iff h).mpr heq]
  rfl

theorem contents_put (h : r.InBounds n) (hroom : next n r.tail ≠ r.head) (x : α) :
    (r.put n x).contents n = r.contents n ++ [x] := by
  have hold : ∀ k < r.used n, (r.put n x).slots ((r.head + k) % n) = r.slots ((r.head + k) % n) := by
    intro k hk
    apply Function.update_of_ne
    intro heq
    rw [← head_add_used h] at heq
    exact Nat.ne_of_lt hk (slot_inj (Nat.lt_trans hk (used_lt h)) (used_lt h) heq)
  have hnew : (r.put n x).slots ((r.head + r.used n) % n) = x := by
    rw [head_add_used h]
    exact Function.update_self _ _ _
  rw [contents, used_put h hroom, List.range_succ, List.map_append, contents]
  congr 1
  · apply List.map_congr_left
    intro k hk
    exact hold k (List.mem_range.mp hk)
  · rw [List.map_singleton]
    exact congrArg (· :: []) hnew

theorem contents_take (h : r.InBounds n) (hne : r.head ≠ r.tail) :
    r.contents n = r.slots r.head :: (r.take n).contents n := by
  rw [contents, used_take h hne, List.range_succ_eq_map, List.map_cons, List.map_map, Nat.add_zero, Nat.mod_eq_of_lt h.head]
  congr 1
  apply List.map_congr_left
  intro k _
  have hslot : (next n r.head + k) % n = (r.head + (k + 1)) % n := by
    rw [next, Nat.mod_add_mod, Nat.add_assoc, Nat.add_comm 1 k]
  change r.slots ((r.head + (k + 1)) % n) = r.slots ((next n r.head + k) % n)
  rw [hslot]

end RingBuffer

end VirtiosoMux
