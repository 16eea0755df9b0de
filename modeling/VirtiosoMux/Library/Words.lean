import Mathlib.Data.List.DropRight

/-! # Words between separators

A text is a sequence of words with runs of a separator between, before and after them.
Collapsing the runs and stripping the ends keeps the words and nothing else of the text.
-/
namespace VirtiosoMux.Words
variable {α : Type*} [DecidableEq α] (sep : α)

def words (t : List α) : List (List α) := (t.splitOn sep).filter (fun w => decide (w ≠ []))

def join (ws : List (List α)) : List α := [sep].intercalate ws

def collapse : List α → List α
  | [] => []
  | c :: rest => if c = sep ∧ rest.head? = some sep then collapse rest else c :: collapse rest

def strip (t : List α) : List α := (t.dropWhile (· == sep)).rdropWhile (· == sep)

def IsWord (w : List α) : Prop := w ≠ [] ∧ sep ∉ w

/-! ### The words of a text -/

theorem words_nil : words sep [] = [] := by simp [words]

theorem words_append_cons (t u : List α) : words sep (t ++ sep :: u) = words sep t ++ words sep u := by
  simp [words, List.splitOn_append_cons_self]

theorem words_cons (t : List α) : words sep (sep :: t) = words sep t := by
  simpa [words_nil] using words_append_cons sep [] t

variable {sep}

theorem words_of_isWord {w : List α} (hw : IsWord sep w) : words sep w = [w] := by
  simp [words, List.splitOn_eq_singleton hw.2, hw.1]

theorem notMem_of_mem_splitOn {t : List α} : ∀ w ∈ t.splitOn sep, sep ∉ w := by
  induction t with
  | nil => simp
  | cons c rest ih =>
    rw [List.splitOn_cons_eq_if_modifyHead]
    split
    · simpa using ih
    · rename_i hc
      cases hparts : rest.splitOn sep with
      | nil => simp
      | cons w ws =>
        rw [hparts] at ih
        simp only [List.modifyHead_cons, List.mem_cons, forall_eq_or_imp] at ih ⊢
        refine ⟨?_, ih.2⟩
        simp only [not_or]
        exact ⟨fun heq => hc (by simp [heq]), ih.1⟩

theorem isWord_of_mem_words {t : List α} {w : List α} (hw : w ∈ words sep t) : IsWord sep w := by
  obtain ⟨hmem, hne⟩ := List.mem_filter.mp hw
  exact ⟨by simpa using hne, notMem_of_mem_splitOn w hmem⟩

/-- The words of joined words. -/
theorem words_join {ws : List (List α)} (hws : ∀ w ∈ ws, IsWord sep w) : words sep (join sep ws) = ws := by
  cases ws with
  | nil => exact words_nil sep
  | cons w rest =>
    rw [words, join, List.splitOn_intercalate sep (fun w hw => (hws w hw).2) (List.cons_ne_nil _ _)]
    apply List.filter_eq_self.mpr
    intro v hv
    simpa using (hws v hv).1

omit [DecidableEq α] in
theorem join_cons_cons (c : α) (w : List α) (ws : List (List α)) : join sep ((c :: w) :: ws) = c :: join sep (w :: ws) :=
  List.intercalate_cons_cons_left

omit [DecidableEq α] in
theorem join_letter (c : α) (ws : List (List α)) (hne : ws ≠ []) : join sep ([c] :: ws) = c :: sep :: join sep ws := by
  rw [join, List.intercalate_cons_of_ne_nil hne]
  rfl

/-! ### A letter before a text -/

section Letter
variable {c : α} (hc : c ≠ sep)
include hc

theorem words_letter : words sep [c] = [[c]] :=
  words_of_isWord ⟨List.cons_ne_nil _ _, by simpa using Ne.symm hc⟩

theorem words_letter_sep (t : List α) : words sep (c :: sep :: t) = [c] :: words sep t := by
  rw [show c :: sep :: t = [c] ++ sep :: t from rfl, words_append_cons, words_letter hc]
  rfl

/-- Before another letter it prolongs the first word. -/
theorem words_letter_letter {d : α} (hd : d ≠ sep) (t : List α) :
    ∃ w ws, words sep (d :: t) = w :: ws ∧ words sep (c :: d :: t) = (c :: w) :: ws := by
  cases hparts : t.splitOn sep with
  | nil => exact absurd hparts (List.splitOn_ne_nil sep t)
  | cons w ws =>
    refine ⟨d :: w, ws.filter (fun v => decide (v ≠ [])), ?_, ?_⟩
    · simp [words, List.splitOn_cons_eq_if_modifyHead, hd, hparts]
    · simp [words, List.splitOn_cons_eq_if_modifyHead, hc, hd, hparts]

theorem words_letter_ne_nil (t : List α) : words sep (c :: t) ≠ [] := by
  cases t with
  | nil => simp [words_letter hc]
  | cons d t =>
    by_cases hd : d = sep
    · subst hd
      simp [words_letter_sep hc]
    · obtain ⟨w, ws, -, heq⟩ := words_letter_letter hc hd t
      simp [heq]

end Letter

theorem words_eq_nil {t : List α} (h : words sep t = []) : ∀ c ∈ t, c = sep := by
  induction t with
  | nil => simp
  | cons c rest ih =>
    by_cases hc : c = sep
    · subst hc
      rw [words_cons] at h
      simpa using ih h
    · exact absurd h (words_letter_ne_nil hc rest)

theorem getLast?_of_words_nil {t : List α} (h : words sep t = []) : (sep :: t).getLast? = some sep := by
  have hall : ∀ c ∈ sep :: t, c = sep := by simpa using words_eq_nil h
  rw [List.getLast?_eq_some_getLast (List.cons_ne_nil sep t), hall _ (List.getLast_mem _)]

/-! ### Collapsing and stripping -/

/-- A separator is left at an end of the text that had one. -/
theorem collapse_eq (t : List α) : collapse sep t =
    (if t.head? = some sep then [sep] else []) ++ join sep (words sep t) ++
      (if words sep t ≠ [] ∧ t.getLast? = some sep then [sep] else []) := by
  induction t with
  | nil => simp [collapse, words_nil, join]
  | cons c rest ih =>
    cases rest with
    | nil =>
      by_cases hc : c = sep
      · subst hc
        simp [collapse, words_cons, words_nil, join]
      · simp [collapse, words_letter hc, join, hc]
    | cons d t =>
      rw [collapse]
      by_cases hc : c = sep
      · subst hc
        rw [words_cons]
        by_cases hd : d = c
        · subst hd
          rw [if_pos ⟨rfl, rfl⟩, ih]
          simp [words_cons]
        · rw [if_neg (by simp [hd]), ih]
          simp [hd]
      · rw [if_neg (by simp [hc]), ih]
        by_cases hd : d = sep
        · subst hd
          rw [words_letter_sep hc, words_cons]
          by_cases hw : words d t = []
          · have hlast : (c :: d :: t).getLast? = some d := by simpa using getLast?_of_words_nil hw
            simp [hw, hlast, hc, join]
          · simp [hw, hc, join_letter c _ hw]
        · obtain ⟨w, ws, hrest, heq⟩ := words_letter_letter hc hd t
          rw [hrest, heq, join_cons_cons]
          simp [hc, hd]

omit [DecidableEq α] in
/-- Joined words have a letter at either end. -/
theorem join_ends {ws : List (List α)} (hws : ∀ w ∈ ws, IsWord sep w) :
    (join sep ws).head? ≠ some sep ∧ (join sep ws).getLast? ≠ some sep := by
  induction ws with
  | nil => simp [join]
  | cons w rest ih =>
    obtain ⟨hne, hsep⟩ := hws w List.mem_cons_self
    obtain ⟨c, w, rfl⟩ := List.exists_cons_of_ne_nil hne
    have hlast : (c :: w).getLast? ≠ some sep := fun h => hsep (List.mem_of_getLast? h)
    have hhead : c ≠ sep := fun h => hsep (h ▸ List.mem_cons_self)
    cases rest with
    | nil => simpa [join, hhead] using hlast
    | cons v rest =>
      obtain ⟨-, ihlast⟩ := ih fun u hu => hws u (List.mem_cons_of_mem _ hu)
      obtain ⟨d, v, rfl⟩ := List.exists_cons_of_ne_nil (hws v (by simp)).1
      refine ⟨by simpa [join_cons_cons] using hhead, ?_⟩
      rw [join, List.intercalate_cons_of_ne_nil (List.cons_ne_nil _ _)]
      change ((c :: w) ++ [sep] ++ join sep ((d :: v) :: rest)).getLast? ≠ some sep
      rw [join_cons_cons] at ihlast ⊢
      rwa [List.getLast?_append_of_ne_nil _ (List.cons_ne_nil _ _)]

/-- What is left is the words with one separator between neighbours. -/
theorem strip_collapse (t : List α) : strip sep (collapse sep t) = join sep (words sep t) := by
  have hws : ∀ w ∈ words sep t, IsWord sep w := fun w hw => isWord_of_mem_words hw
  obtain ⟨hhead, hlast⟩ := join_ends hws
  have hdrop : (collapse sep t).dropWhile (· == sep) =
      join sep (words sep t) ++ (if words sep t ≠ [] ∧ t.getLast? = some sep then [sep] else []) := by
    rw [collapse_eq]
    cases hw : words sep t with
    | nil =>
      split <;> simp [join]
    | cons w rest =>
      have hne : join sep (w :: rest) ≠ [] := by
        intro h0
        have := words_join hws
        rw [hw, h0, words_nil] at this
        cases this
      obtain ⟨c, u, hcu⟩ := List.exists_cons_of_ne_nil hne
      have hc : c ≠ sep := by
        rw [hw, hcu] at hhead
        simpa using hhead
      rw [hcu]
      split <;> simp [hc]
  have hkeep : (join sep (words sep t)).rdropWhile (· == sep) = join sep (words sep t) := by
    apply List.rdropWhile_eq_self_iff.mpr
    intro hne heq
    apply hlast
    rw [List.getLast?_eq_some_getLast hne]
    simpa using heq
  rw [strip, hdrop]
  split
  · rw [List.rdropWhile_concat_pos _ _ _ (by simp), hkeep]
  · rw [List.append_nil, hkeep]

end VirtiosoMux.Words
