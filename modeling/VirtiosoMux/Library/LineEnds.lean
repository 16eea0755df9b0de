import Mathlib.Data.List.Basic
import Mathlib.Tactic.Common

/-! # Completing line ends

A line ends with two marks in either order. A transducer remembers which of them it has seen
and writes the missing one before the next symbol that is no mark. Nothing is removed, and a
text that has been completed once is left as it is.
-/
namespace VirtiosoMux.LineEnds
variable {α : Type*}

/-- The mark seen since the last symbol or complete line end. -/
inductive Half
  | clear
  | lf
  | cr
deriving DecidableEq

inductive Inserted (p : α → Prop) : List α → List α → Prop
  | nil : Inserted p [] []
  | keep (x : α) {xs ys : List α} (h : Inserted p xs ys) : Inserted p (x :: xs) (x :: ys)
  | insert {y : α} (hy : p y) {xs ys : List α} (h : Inserted p xs ys) : Inserted p xs (y :: ys)

theorem Inserted.sublist {p : α → Prop} {xs ys : List α} (h : Inserted p xs ys) : xs.Sublist ys := by
  induction h with
  | nil => exact .slnil
  | keep x _ ih => exact ih.cons_cons x
  | insert _ _ ih => exact ih.cons _

section Transducer
variable [DecidableEq α] (lf cr : α)

def IsMark (x : α) : Prop := x = lf ∨ x = cr

instance (x : α) : Decidable (IsMark lf cr x) := inferInstanceAs (Decidable (_ ∨ _))

def next (h : Half) (x : α) : Half :=
  if x = lf then if h = .cr then .clear else .lf
  else if x = cr then if h = .lf then .clear else .cr
  else .clear

def missing : Half → List α
  | .clear => []
  | .lf => [cr]
  | .cr => [lf]

def emit (h : Half) (x : α) : List α := if IsMark lf cr x then [x] else missing lf cr h ++ [x]

def after (h : Half) (xs : List α) : Half := xs.foldl (next lf cr) h

def output : Half → List α → List α
  | _, [] => []
  | h, x :: xs => emit lf cr h x ++ output (next lf cr h x) xs

/-- The text with its line ends completed, except for one at its end. -/
def complete (xs : List α) : List α := output lf cr .clear xs

end Transducer

section Runs
variable [DecidableEq α] {lf cr : α}

theorem after_append (h : Half) (xs ys : List α) : after lf cr h (xs ++ ys) = after lf cr (after lf cr h xs) ys :=
  List.foldl_append

theorem output_append (h : Half) (xs ys : List α) :
    output lf cr h (xs ++ ys) = output lf cr h xs ++ output lf cr (after lf cr h xs) ys := by
  induction xs generalizing h with
  | nil => rfl
  | cons x xs ih =>
    simp only [List.cons_append, output, ih, List.append_assoc]
    rfl

variable (lf cr)

/-- A symbol is written last, behind at most one mark. -/
theorem emit_eq (h : Half) (x : α) :
    emit lf cr h x = [x] ∨ ¬ IsMark lf cr x ∧ h ≠ .clear ∧ ∃ m, IsMark lf cr m ∧ emit lf cr h x = [m, x] := by
  unfold emit
  split
  · exact .inl rfl
  · rename_i hx
    cases h with
    | clear => exact .inl rfl
    | lf => exact .inr ⟨hx, by simp, cr, .inr rfl, rfl⟩
    | cr => exact .inr ⟨hx, by simp, lf, .inl rfl, rfl⟩

theorem emit_length_pos (h : Half) (x : α) : 1 ≤ (emit lf cr h x).length := by
  rcases emit_eq lf cr h x with heq | ⟨-, -, m, -, heq⟩
  · simp [heq]
  · simp [heq]

theorem length_le_output (h : Half) (xs : List α) : xs.length ≤ (output lf cr h xs).length := by
  induction xs generalizing h with
  | nil => simp [output]
  | cons x xs ih =>
    have hx := emit_length_pos lf cr h x
    have hrest := ih (next lf cr h x)
    simp only [output, List.length_append, List.length_cons]
    omega

/-! ### Nothing is lost -/

theorem inserted_output (h : Half) (xs : List α) : Inserted (IsMark lf cr) xs (output lf cr h xs) := by
  induction xs generalizing h with
  | nil => exact .nil
  | cons x xs ih =>
    rw [output]
    rcases emit_eq lf cr h x with heq | ⟨-, -, m, hm, heq⟩
    · rw [heq]
      exact .keep x (ih _)
    · rw [heq]
      exact .insert hm (.keep x (ih _))

/-! ### A completed text is complete -/

variable {lf cr} (hne : lf ≠ cr)
include hne

/-- What has been written for a symbol is written again as it is, and leaves the same mark open. -/
theorem output_emit (h : Half) (x : α) :
    output lf cr h (emit lf cr h x) = emit lf cr h x ∧ after lf cr h (emit lf cr h x) = next lf cr h x := by
  by_cases hx : IsMark lf cr x
  · simp [emit, hx, output, after]
  · have hlf : x ≠ lf := fun heq => hx (.inl heq)
    have hcr : x ≠ cr := fun heq => hx (.inr heq)
    cases h with
    | clear => simp [emit, hx, missing, output, after]
    | lf => simp [emit, IsMark, missing, output, after, next, hlf, hcr, hne.symm]
    | cr => simp [emit, IsMark, missing, output, after, next, hlf, hcr, hne]

theorem output_output (h : Half) (xs : List α) : output lf cr h (output lf cr h xs) = output lf cr h xs := by
  induction xs generalizing h with
  | nil => rfl
  | cons x xs ih =>
    obtain ⟨hout, hafter⟩ := output_emit hne h x
    rw [output, output_append, hout, hafter, ih]

theorem complete_complete (xs : List α) : complete lf cr (complete lf cr xs) = complete lf cr xs :=
  output_output hne .clear xs

omit hne in
/-- In a complete text no mark is open before a symbol. -/
theorem clear_of_complete {xs ys : List α} {x : α} (hx : ¬ IsMark lf cr x)
    (hc : complete lf cr (xs ++ x :: ys) = xs ++ x :: ys) : after lf cr .clear xs = .clear := by
  rcases emit_eq lf cr (after lf cr .clear xs) x with heq | ⟨-, -, m, -, heq⟩
  · by_contra hopen
    have hmiss : missing lf cr (after lf cr .clear xs) = [] := by
      simpa [emit, hx] using heq
    cases hafter : after lf cr .clear xs with
    | clear => exact hopen hafter
    | lf => simp [hafter, missing] at hmiss
    | cr => simp [hafter, missing] at hmiss
  · -- one symbol more would have been written than read
    have hlen := congrArg List.length hc
    have hxs := length_le_output lf cr .clear xs
    have hys := length_le_output lf cr (next lf cr (after lf cr .clear xs) x) ys
    rw [complete, output_append, output, heq] at hlen
    simp only [List.length_append, List.length_cons, List.length_nil] at hlen
    omega

omit hne in
/-- Behind a symbol no mark is open. -/
theorem after_symbol (h : Half) (xs : List α) {x : α} (hx : ¬ IsMark lf cr x) : after lf cr h (xs ++ [x]) = .clear := by
  have hlf : x ≠ lf := fun heq => hx (.inl heq)
  have hcr : x ≠ cr := fun heq => hx (.inr heq)
  simp [after, next, hlf, hcr]

omit hne in
/-- Repeating one mark leaves it open. -/
theorem after_same {m : α} {half h : Half} (hstep : ∀ h, h = .clear ∨ h = half → next lf cr h m = half) {run : List α}
    (hm : ∀ x ∈ run, x = m) (hrun : run ≠ []) (hh : h = .clear ∨ h = half) : after lf cr h run = half := by
  induction run generalizing h with
  | nil => exact absurd rfl hrun
  | cons x rest ih =>
    have hx : x = m := hm x List.mem_cons_self
    have hnext : next lf cr h x = half := by
      rw [hx]
      exact hstep h hh
    cases rest with
    | nil => exact hnext
    | cons y rest =>
      change after lf cr (next lf cr h x) (y :: rest) = half
      rw [hnext]
      exact ih (fun z hz => hm z (List.mem_cons_of_mem x hz)) (List.cons_ne_nil _ _) (.inr rfl)

/-- A maximal run of marks before a symbol of a complete text has both marks. -/
theorem run_of_complete {xs run ys : List α} {x : α} (hc : complete lf cr (xs ++ run ++ x :: ys) = xs ++ run ++ x :: ys)
    (hrun : run ≠ []) (hmarks : ∀ y ∈ run, IsMark lf cr y) (hbefore : ∀ y ∈ xs.getLast?, ¬ IsMark lf cr y)
    (hx : ¬ IsMark lf cr x) : lf ∈ run ∧ cr ∈ run := by
  have hstart : after lf cr .clear xs = .clear := by
    rcases List.eq_nil_or_concat' xs with rfl | ⟨zs, z, rfl⟩
    · rfl
    · exact after_symbol .clear zs (hbefore z (by simp))
  have hclear : after lf cr .clear run = .clear := by
    have hend := clear_of_complete hx hc
    rwa [after_append, hstart] at hend
  -- a run of one mark would leave it open
  constructor
  · by_contra hno
    have hall : ∀ y ∈ run, y = cr := fun y hy => (hmarks y hy).resolve_left fun heq => hno (heq ▸ hy)
    have hopen : after lf cr .clear run = .cr := by
      apply after_same _ hall hrun (.inl rfl)
      rintro h (rfl | rfl) <;> simp [next, hne.symm]
    rw [hclear] at hopen
    cases hopen
  · by_contra hno
    have hall : ∀ y ∈ run, y = lf := fun y hy => (hmarks y hy).resolve_right fun heq => hno (heq ▸ hy)
    have hopen : after lf cr .clear run = .lf := by
      apply after_same _ hall hrun (.inl rfl)
      rintro h (rfl | rfl) <;> simp [next]
    rw [hclear] at hopen
    cases hopen

end Runs

end VirtiosoMux.LineEnds
