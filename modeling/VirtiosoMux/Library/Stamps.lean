import Mathlib.Data.List.Basic
import Mathlib.Data.List.Induction
import Mathlib.Tactic.Common

/-! # Stamps at line starts

Each symbol comes with the stamp it would get. A writer that only remembers the last symbol
stamps the first one and those behind a symbol that ends a line. Two writers with different
ends of a line write the same text only if nothing stands behind a symbol they differ on.
-/
namespace VirtiosoMux.Stamps
variable {α : Type*}

/-- The writer; `start` tells whether it stands at the start of a line. -/
def stamped (ends : α → Bool) : Bool → List (List α × α) → List α
  | _, [] => []
  | start, (stamp, x) :: rest => (if start then stamp else []) ++ x :: stamped ends (ends x) rest

def atStart (ends : α → Bool) (start : Bool) : List (List α × α) → Bool
  | [] => start
  | (_, x) :: rest => atStart ends (ends x) rest

/-- A stamp before the symbol `i` exactly if `i` is the first or the one before it ends a line. -/
def marked (ends : α → Bool) (l : List (List α × α)) : List α :=
  l.zipIdx.flatMap (fun p => (if p.2 = 0 ∨ (l[p.2 - 1]?).any (fun q => ends q.2) then p.1.1 else []) ++ [p.1.2])

variable (ends : α → Bool)

theorem stamped_snoc (start : Bool) (l : List (List α × α)) (stamp : List α) (x : α) :
    stamped ends start (l ++ [(stamp, x)]) =
      stamped ends start l ++ ((if atStart ends start l then stamp else []) ++ [x]) := by
  induction l generalizing start with
  | nil => cases start <;> simp [stamped, atStart]
  | cons p rest ih =>
    obtain ⟨s, y⟩ := p
    rw [List.cons_append, stamped, stamped, ih, atStart]
    simp only [List.append_assoc, List.cons_append]

theorem atStart_snoc (start : Bool) (l : List (List α × α)) (stamp : List α) (x : α) :
    atStart ends start (l ++ [(stamp, x)]) = ends x := by
  induction l generalizing start with
  | nil => rfl
  | cons p rest ih => exact ih (ends p.2)

/-- At the start of the text and behind the end of a line. -/
theorem atStart_iff (l : List (List α × α)) :
    atStart ends true l = true ↔ l.length = 0 ∨ (l[l.length - 1]?).any (fun q => ends q.2) := by
  induction l using List.reverseRecOn with
  | nil => simp [atStart]
  | append_singleton l p _ =>
    obtain ⟨s, x⟩ := p
    rw [atStart_snoc]
    simp

/-- The writer marks the positions. -/
theorem stamped_eq_marked (l : List (List α × α)) : stamped ends true l = marked ends l := by
  induction l using List.reverseRecOn with
  | nil => rfl
  | append_singleton l p ih =>
    obtain ⟨s, x⟩ := p
    have hbefore : ∀ i < l.length, (l ++ [(s, x)])[i]? = l[i]? := fun i hi => List.getElem?_append_left hi
    rw [stamped_snoc, ih, marked, marked, List.zipIdx_append, List.flatMap_append]
    congr 1
    · apply List.flatMap_congr
      rintro ⟨q, i⟩ hq
      have hi : i < l.length := List.snd_lt_of_mem_zipIdx hq
      rw [hbefore (i - 1) (by omega)]
    · have hlast : (l.length = 0 ∨ ((l ++ [(s, x)])[l.length - 1]?).any (fun q => ends q.2)) ↔
          atStart ends true l = true := by
        rw [atStart_iff]
        rcases Nat.eq_zero_or_pos l.length with hzero | hpos
        · simp [hzero]
        · rw [hbefore (l.length - 1) (by omega)]
      simp only [List.zipIdx_singleton, List.flatMap_singleton, Nat.zero_add, hlast]

/-! ### Two writers -/

section Compare
variable {ends' : α → Bool} (hends : ∀ x, ends x = true → ends' x = true)
include hends

theorem length_stamped_le {start start' : Bool} (hstart : start = true → start' = true) (l : List (List α × α)) :
    (stamped ends start l).length ≤ (stamped ends' start' l).length := by
  induction l generalizing start start' with
  | nil => exact Nat.le_refl 0
  | cons p rest ih =>
    obtain ⟨s, x⟩ := p
    have hrest := ih (hends x)
    have hstamp : (if start then s else []).length ≤ (if start' then s else []).length := by
      by_cases h : start = true
      · exact Nat.le_of_eq (by rw [if_pos h, if_pos (hstart h)])
      · rw [if_neg h]
        exact Nat.zero_le _
    simp only [stamped, List.length_append, List.length_cons]
    omega

/-- A stamp more makes a longer text. -/
theorem stamped_ne {l : List (List α × α)} (hl : l ≠ []) (hstamps : ∀ p ∈ l, p.1 ≠ []) :
    stamped ends' true l ≠ stamped ends false l := by
  intro heq
  cases l with
  | nil => exact hl rfl
  | cons p rest =>
    obtain ⟨s, x⟩ := p
    have hpos := List.length_pos_of_ne_nil (hstamps (s, x) List.mem_cons_self)
    have hrest := length_stamped_le ends hends (hends x) rest
    have hlen := congrArg List.length heq
    simp only [stamped, if_true, Bool.false_eq_true, if_false, List.nil_append, List.length_append, List.length_cons]
      at hlen hpos
    omega

/-- Only the last symbol may be an end of a line for one writer and not for the other. -/
theorem stamped_eq_iff (start : Bool) {l : List (List α × α)} (hstamps : ∀ p ∈ l, p.1 ≠ []) :
    stamped ends' start l = stamped ends start l ↔ ∀ x ∈ (l.map Prod.snd).dropLast, ends' x = true → ends x = true := by
  induction l generalizing start with
  | nil => simp [stamped]
  | cons p rest ih =>
    obtain ⟨s, x⟩ := p
    have hrest := fun q hq => hstamps q (List.mem_cons_of_mem _ hq)
    rw [stamped, stamped, List.append_cancel_left_eq, List.cons_eq_cons]
    cases rest with
    | nil => simp [stamped]
    | cons q rest =>
      have hlast : ((((s, x) :: q :: rest).map Prod.snd).dropLast) = x :: ((q :: rest).map Prod.snd).dropLast := rfl
      rw [hlast, List.forall_mem_cons]
      cases hx : ends x with
      | true => simp [hends x hx, ih true hrest]
      | false =>
        cases hx' : ends' x with
        | false => simp [ih false hrest]
        | true => simpa using stamped_ne ends hends (List.cons_ne_nil q rest) hrest

end Compare

end VirtiosoMux.Stamps
