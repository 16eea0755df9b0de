import Mathlib.Data.List.Basic
import Mathlib.Tactic.Common

/-! # Escape doubling over an arbitrary alphabet

A frame body is written with every escape symbol doubled, so that a single
escape symbol followed by anything else can delimit it. Nothing here depends on
which symbol is the escape or on what the delimiters are.
-/
namespace VirtiosoMux.ByteStuffing
variable {α : Type*} [DecidableEq α]

def stuff (esc : α) : List α → List α
  | [] => []
  | x :: xs => if x = esc then esc :: x :: stuff esc xs else x :: stuff esc xs

/-- Read a doubled body up to the first escape that is not followed by another. -/
def unstuff (esc : α) : List α → List α
  | [] => []
  | [x] => if x = esc then [] else [x]
  | x :: y :: rest =>
    if x = esc then if y = esc then esc :: unstuff esc rest else []
    else x :: unstuff esc (y :: rest)

variable (esc : α)

@[simp] theorem stuff_nil : stuff esc [] = [] := rfl

@[simp] theorem stuff_cons_esc (xs : List α) : stuff esc (esc :: xs) = esc :: esc :: stuff esc xs := by
  simp [stuff]

@[simp] theorem stuff_cons_of_ne {x : α} (h : x ≠ esc) (xs : List α) :
    stuff esc (x :: xs) = x :: stuff esc xs := by
  simp [stuff, h]

@[simp] theorem stuff_append (xs ys : List α) : stuff esc (xs ++ ys) = stuff esc xs ++ stuff esc ys := by
  induction xs with
  | nil => rfl
  | cons x xs ih =>
    by_cases h : x = esc
    · subst h; simp [ih]
    · simp [h, ih]

theorem length_stuff_le (xs : List α) : (stuff esc xs).length ≤ 2 * xs.length := by
  induction xs with
  | nil => simp
  | cons x xs ih =>
    simp only [stuff]
    split <;> simp only [List.length_cons] <;> omega

/-- A stuffed body followed by a lone escape is read back exactly. -/
theorem unstuff_stuff_append {y : α} (hy : y ≠ esc) (xs rest : List α) :
    unstuff esc (stuff esc xs ++ esc :: y :: rest) = xs := by
  induction xs with
  | nil => simp [unstuff, hy]
  | cons x xs ih =>
    by_cases h : x = esc
    · subst h
      simp [unstuff, ih]
    · cases hs : stuff esc xs with
      | nil => simp [h, hs, unstuff] at ih ⊢; simpa [hs, unstuff, hy] using ih
      | cons z zs => simpa [h, hs, unstuff] using ih

theorem unstuff_stuff (xs : List α) : unstuff esc (stuff esc xs) = xs := by
  induction xs with
  | nil => rfl
  | cons x xs ih =>
    by_cases h : x = esc
    · subst h
      simp [unstuff, ih]
    · cases hs : stuff esc xs with
      | nil =>
        rw [hs] at ih
        simp [h, unstuff, ← ih]
      | cons z zs => simpa [h, hs, unstuff] using ih

/-! ### Pairs -/

def pending (l : List α) : Bool := l.foldl (fun waits x => !waits && decide (x = esc)) false

theorem pending_pair (y : α) (rest : List α) : pending esc (esc :: y :: rest) = pending esc rest := by
  simp [pending]

/-- A stuffed body leaves no pair open. -/
theorem pending_stuff_append (xs rest : List α) : pending esc (stuff esc xs ++ rest) = pending esc rest := by
  induction xs with
  | nil => rfl
  | cons x xs ih =>
    by_cases h : x = esc
    · subst h
      rw [stuff_cons_esc, List.cons_append, List.cons_append, pending_pair, ih]
    · rw [stuff_cons_of_ne esc h, List.cons_append]
      have hplain : pending esc (x :: (stuff esc xs ++ rest)) = pending esc (stuff esc xs ++ rest) := by
        simp [pending, h]
      rw [hplain, ih]

end VirtiosoMux.ByteStuffing
