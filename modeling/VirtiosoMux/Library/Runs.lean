import Mathlib.Data.List.Induction
import Mathlib.Tactic.Common

/-! # Runs of a partial step function

A system is a partial function from a state and an action to a state. A run may be
restricted by a condition on the state in which each action is taken.
-/
namespace VirtiosoMux.Machine
variable {σ α : Type*}

/-- Finite runs of `step` all of whose steps satisfy `ok` in the state they start from. -/
inductive Runs (step : σ → α → Option σ) (ok : σ → α → Prop) : σ → List α → σ → Prop
  | refl (s : σ) : Runs step ok s [] s
  | snoc {s t u : σ} {as : List α} {a : α} (hr : Runs step ok s as t) (ha : ok t a) (hs : step t a = some u) :
      Runs step ok s (as ++ [a]) u

variable {step : σ → α → Option σ} {ok : σ → α → Prop}

/-- What holds at the start and is kept by every permitted step holds at the end. -/
theorem Runs.invariant {Inv : σ → Prop} (hstep : ∀ s a t, Inv s → ok s a → step s a = some t → Inv t)
    {s t : σ} {as : List α} (hr : Runs step ok s as t) (hs : Inv s) : Inv t := by
  induction hr with
  | refl => exact hs
  | snoc _ ha hs' ih => exact hstep _ _ _ ih ha hs'

theorem Runs.trans {s t u : σ} {as bs : List α} (ha : Runs step ok s as t) (hb : Runs step ok t bs u) :
    Runs step ok s (as ++ bs) u := by
  induction hb with
  | refl => simpa using ha
  | snoc _ hok hs ih =>
    rw [← List.append_assoc]
    exact .snoc ih hok hs

theorem Runs.split {s u : σ} {as bs : List α} (h : Runs step ok s (as ++ bs) u) :
    ∃ t, Runs step ok s as t ∧ Runs step ok t bs u := by
  induction bs using List.reverseRecOn generalizing u with
  | nil => exact ⟨u, by simpa using h, .refl u⟩
  | append_singleton bs b ih =>
    rw [← List.append_assoc] at h
    generalize hall : as ++ bs ++ [b] = all at h
    cases h with
    | refl => simp at hall
    | snoc hr ha hs =>
      obtain ⟨rfl, hb⟩ := List.append_inj' hall rfl
      cases hb
      obtain ⟨t, h₁, h₂⟩ := ih hr
      exact ⟨t, h₁, .snoc h₂ ha hs⟩

/-- The first step of a run. -/
theorem Runs.head {s u : σ} {a : α} {as : List α} (h : Runs step ok s (a :: as) u) :
    ∃ t, ok s a ∧ step s a = some t ∧ Runs step ok t as u := by
  obtain ⟨t, h₁, h₂⟩ := Runs.split (show Runs step ok s ([a] ++ as) u from h)
  generalize hone : [a] = one at h₁
  cases h₁ with
  | refl => simp at hone
  | snoc hr ha hs =>
    obtain ⟨rfl, hb⟩ := List.append_inj' (show [] ++ [a] = _ from hone) rfl
    cases hb
    generalize hnil : ([] : List α) = none at hr
    cases hr with
    | refl => exact ⟨t, ha, hs, h₂⟩
    | snoc => simp at hnil

theorem Runs.nil_eq {s u : σ} (h : Runs step ok s [] u) : u = s := by
  generalize hnil : ([] : List α) = none at h
  cases h with
  | refl => rfl
  | snoc => simp at hnil

/-- A run of actions that are permitted in every state. -/
theorem Runs.permitted {ok' : σ → α → Prop} {s t : σ} {as : List α} (h : Runs step ok s as t)
    (hok : ∀ u, ∀ a ∈ as, ok' u a) : Runs step ok' s as t := by
  induction h with
  | refl => exact .refl _
  | snoc _ _ hs ih =>
    exact .snoc (ih fun u a ha => hok u a (List.mem_append_left _ ha)) (hok _ _ (List.mem_append_right _ List.mem_cons_self)) hs

/-- Where a permitted step that lowers the measure is there as long as the goal is not, the goal can be
reached. -/
theorem Runs.exists_goal {Inv Goal : σ → Prop} {m : σ → Nat}
    (hstep : ∀ s, Inv s → ¬ Goal s → ∃ a t, ok s a ∧ step s a = some t ∧ Inv t ∧ m t < m s) {s : σ} (hs : Inv s) :
    ∃ as t, Runs step ok s as t ∧ Inv t ∧ Goal t := by
  induction hk : m s using Nat.strongRecOn generalizing s with
  | ind k ih =>
    by_cases hg : Goal s
    · exact ⟨[], s, .refl s, hs, hg⟩
    · obtain ⟨a, t, ha, hst, ht, hlt⟩ := hstep s hs hg
      obtain ⟨as, u, hr, hu, hgu⟩ := ih (m t) (hk ▸ hlt) ht rfl
      exact ⟨a :: as, u, (Runs.snoc (.refl s) ha hst).trans hr, hu, hgu⟩

/-- A successful fold of the step function is a run if its actions are permitted in any state. -/
theorem runs_of_foldlM {s t : σ} {as : List α} (hok : ∀ u, ∀ a ∈ as, ok u a) (h : as.foldlM step s = some t) :
    Runs step ok s as t := by
  induction as using List.reverseRecOn generalizing t with
  | nil =>
    simp only [List.foldlM_nil, Option.pure_def, Option.some.injEq] at h
    exact h ▸ .refl s
  | append_singleton as a ih =>
    rw [List.foldlM_append] at h
    obtain ⟨u, hu, ht⟩ := Option.bind_eq_some_iff.mp h
    exact .snoc (ih (fun u a ha => hok u a (List.mem_append_left _ ha)) hu) (hok u a (by simp)) (by simpa using ht)

/-- A fold that checks the condition before each step is a run. -/
theorem runs_of_guarded [∀ u a, Decidable (ok u a)] {s t : σ} {as : List α}
    (h : as.foldlM (fun u a => if ok u a then step u a else none) s = some t) : Runs step ok s as t := by
  induction as using List.reverseRecOn generalizing t with
  | nil =>
    simp only [List.foldlM_nil, Option.pure_def, Option.some.injEq] at h
    exact h ▸ .refl s
  | append_singleton as a ih =>
    rw [List.foldlM_append] at h
    obtain ⟨u, hu, ht⟩ := Option.bind_eq_some_iff.mp h
    simp only [List.foldlM_cons, List.foldlM_nil, bind_pure] at ht
    split at ht
    · rename_i hok
      exact .snoc (ih hu) hok ht
    · cases ht

end VirtiosoMux.Machine
