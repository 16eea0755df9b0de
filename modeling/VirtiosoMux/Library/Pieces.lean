import Mathlib.Data.List.Basic
import Mathlib.Tactic.Common

/-! # Cutting a list into pieces of bounded length

The pieces a loop takes from the front of its data, each as long as the bound allows.
-/
namespace VirtiosoMux.Pieces
variable {α : Type*}

/-- Pieces of `size` elements, the last one possibly shorter. -/
def pieces (size : Nat) (data : List α) : List (List α) :=
  if _h : data.length = 0 ∨ size = 0 then [] else data.take size :: pieces size (data.drop size)
termination_by data.length
decreasing_by
  simp only [List.length_drop]
  omega

theorem pieces_nil (size : Nat) : pieces size ([] : List α) = [] := by
  rw [pieces]
  simp

theorem pieces_cons {size : Nat} (hs : 0 < size) {data : List α} (hd : data ≠ []) :
    pieces size data = data.take size :: pieces size (data.drop size) := by
  have hpos := List.length_pos_of_ne_nil hd
  rw [pieces, dif_neg (by omega)]

/-- Data within the bound is one piece. -/
theorem pieces_short {size : Nat} {data : List α} (hd : data ≠ []) (hlen : data.length ≤ size) : pieces size data = [data] := by
  have hpos := List.length_pos_of_ne_nil hd
  rw [pieces_cons (by omega) hd, List.take_of_length_le hlen, List.drop_eq_nil_of_le hlen, pieces_nil]

theorem pieces_flatten {size : Nat} (hs : 0 < size) (data : List α) : (pieces size data).flatten = data := by
  induction data using pieces.induct size with
  | case1 data h =>
    have hd : data = [] := List.eq_nil_of_length_eq_zero (by omega)
    subst hd
    simp [pieces_nil]
  | case2 data h ih =>
    have hd : data ≠ [] := fun hd => h (.inl (by rw [hd]; rfl))
    rw [pieces_cons hs hd, List.flatten_cons, ih, List.take_append_drop]

theorem pieces_length_le {size : Nat} (hs : 0 < size) (data : List α) : ∀ p ∈ pieces size data, p.length ≤ size := by
  induction data using pieces.induct size with
  | case1 data h =>
    have hd : data = [] := List.eq_nil_of_length_eq_zero (by omega)
    subst hd
    simp [pieces_nil]
  | case2 data h ih =>
    have hd : data ≠ [] := fun hd => h (.inl (by rw [hd]; rfl))
    intro p hp
    rw [pieces_cons hs hd] at hp
    rcases List.mem_cons.mp hp with rfl | hp
    · rw [List.length_take]
      omega
    · exact ih p hp

/-- The number of pieces is the length divided by the size, rounded up. -/
theorem pieces_count {size : Nat} (hs : 0 < size) (data : List α) :
    (pieces size data).length = (data.length + (size - 1)) / size := by
  induction data using pieces.induct size with
  | case1 data h =>
    have hd : data = [] := List.eq_nil_of_length_eq_zero (by omega)
    subst hd
    rw [pieces_nil]
    exact (Nat.div_eq_of_lt (by simp only [List.length_nil]; omega)).symm
  | case2 data h ih =>
    have hd : data ≠ [] := fun hd => h (.inl (by rw [hd]; rfl))
    have hpos := List.length_pos_of_ne_nil hd
    rw [pieces_cons hs hd, List.length_cons, ih, List.length_drop]
    rcases Nat.le_total size data.length with hle | hle
    · rw [← Nat.add_div_right _ hs]
      congr 1
      omega
    · rw [Nat.sub_eq_zero_of_le hle, Nat.div_eq_of_lt (by omega)]
      exact (Nat.div_eq_of_lt_le (by omega) (by omega)).symm

end VirtiosoMux.Pieces
