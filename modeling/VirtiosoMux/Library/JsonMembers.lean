import VirtiosoMux.Library.JsonReader

/-! # Members of JSON objects as dictionaries

A dictionary is a list of pairs with distinct keys. An assignment replaces the value in its place or
adds a pair at the end, and an update assigns all pairs of another dictionary in their order.
-/
namespace VirtiosoMux.Json

theorem setMember_of_mem {members : List (Text × Document)} {m : Text × Document} (h : m.1 ∈ members.map Prod.fst) :
    setMember members m = members.map (fun e => if e.1 = m.1 then m else e) := by
  obtain ⟨e, he, heq⟩ := List.mem_map.mp h
  rw [setMember, if_pos]
  exact List.any_eq_true.mpr ⟨e, he, beq_iff_eq.mpr heq⟩

theorem setMember_of_notMem {members : List (Text × Document)} {m : Text × Document} (h : m.1 ∉ members.map Prod.fst) :
    setMember members m = members ++ [m] := by
  rw [setMember, if_neg]
  intro hany
  obtain ⟨e, he, heq⟩ := List.any_eq_true.mp hany
  exact h (List.mem_map.mpr ⟨e, he, beq_iff_eq.mp heq⟩)

theorem setMember_keys (members : List (Text × Document)) (m : Text × Document) : (setMember members m).map Prod.fst =
    if m.1 ∈ members.map Prod.fst then members.map Prod.fst else members.map Prod.fst ++ [m.1] := by
  split
  · rename_i hmem
    rw [setMember_of_mem hmem, List.map_map]
    refine List.map_congr_left ?_
    intro e _
    by_cases he : e.1 = m.1
    · simp [he]
    · simp [he]
  · rename_i hmem
    rw [setMember_of_notMem hmem, List.map_append]
    rfl

theorem mem_setMember {members : List (Text × Document)} {m e : Text × Document} (h : e ∈ setMember members m) :
    e = m ∨ e ∈ members := by
  by_cases hmem : m.1 ∈ members.map Prod.fst
  · rw [setMember_of_mem hmem] at h
    obtain ⟨x, hx, rfl⟩ := List.mem_map.mp h
    split
    · exact .inl rfl
    · exact .inr hx
  · rw [setMember_of_notMem hmem] at h
    rcases List.mem_append.mp h with h | h
    · exact .inr h
    · exact .inl (List.mem_singleton.mp h)

theorem nodup_setMember {members : List (Text × Document)} (h : (members.map Prod.fst).Nodup) (m : Text × Document) :
    ((setMember members m).map Prod.fst).Nodup := by
  rw [setMember_keys]
  split
  · exact h
  · rename_i hmem
    exact List.nodup_append.mpr ⟨h, List.nodup_singleton _, by rintro a ha b hb rfl; exact hmem (List.mem_singleton.mp hb ▸ ha)⟩

theorem ofPairs_keys (pairs : List (Text × Document)) : ((ofPairs pairs).map Prod.fst).Nodup := by
  induction pairs using List.reverseRecOn with
  | nil => exact List.nodup_nil
  | append_singleton pairs m ih =>
    rw [ofPairs, List.foldl_append]
    exact nodup_setMember ih m

theorem mem_ofPairs {pairs : List (Text × Document)} {e : Text × Document} (h : e ∈ ofPairs pairs) : e ∈ pairs := by
  induction pairs using List.reverseRecOn with
  | nil => cases h
  | append_singleton pairs m ih =>
    rw [ofPairs, List.foldl_append] at h
    rcases mem_setMember h with rfl | h
    · exact List.mem_append_right _ (List.mem_singleton_self _)
    · exact List.mem_append_left _ (ih h)

/-- Pairs with distinct keys are the dictionary. -/
theorem ofPairs_of_nodup {pairs : List (Text × Document)} (h : (pairs.map Prod.fst).Nodup) : ofPairs pairs = pairs := by
  induction pairs using List.reverseRecOn with
  | nil => rfl
  | append_singleton pairs m ih =>
    rw [List.map_append, List.nodup_append] at h
    obtain ⟨hpairs, -, hnew⟩ := h
    have hfirst := ih hpairs
    rw [ofPairs] at hfirst
    rw [ofPairs, List.foldl_append, hfirst, List.foldl_cons, List.foldl_nil]
    exact setMember_of_notMem fun hmem => hnew _ hmem _ List.mem_cons_self rfl

/-! ### Updates -/

/-- `{**members, **extras}` -/
def update (members extras : List (Text × Document)) : List (Text × Document) := extras.foldl setMember members

theorem update_cons (members : List (Text × Document)) (m : Text × Document) (extras : List (Text × Document)) :
    update members (m :: extras) = update (setMember members m) extras := rfl

theorem nodup_update {members : List (Text × Document)} (h : (members.map Prod.fst).Nodup) (extras : List (Text × Document)) :
    ((update members extras).map Prod.fst).Nodup := by
  induction extras generalizing members with
  | nil => exact h
  | cons m extras ih => exact ih (nodup_setMember h m)

theorem keys_prefix_update (members extras : List (Text × Document)) :
    members.map Prod.fst <+: (update members extras).map Prod.fst := by
  induction extras generalizing members with
  | nil => exact List.prefix_refl _
  | cons m extras ih =>
    refine List.IsPrefix.trans ?_ (ih (setMember members m))
    rw [setMember_keys]
    split
    · exact List.prefix_refl _
    · exact List.prefix_append _ _

theorem mem_update {members extras : List (Text × Document)} {e : Text × Document} (h : e ∈ update members extras) :
    e ∈ members ∨ e ∈ extras := by
  induction extras generalizing members with
  | nil => exact .inl h
  | cons m extras ih =>
    rcases ih h with h | h
    · rcases mem_setMember h with rfl | h
      · exact .inr List.mem_cons_self
      · exact .inl h
    · exact .inr (List.mem_cons_of_mem _ h)

theorem replace_of_notMem {members : List (Text × Document)} {m : Text × Document} (h : m.1 ∉ members.map Prod.fst) :
    members.map (fun e => if e.1 = m.1 then m else e) = members := by
  conv_rhs => rw [← List.map_id members]
  refine List.map_congr_left ?_
  intro e he
  have hne : e.1 ≠ m.1 := fun heq => h (heq ▸ List.mem_map_of_mem he)
  exact if_neg hne

theorem setMember_append_left {first members : List (Text × Document)} {m : Text × Document}
    (h : m.1 ∉ first.map Prod.fst) : setMember (first ++ members) m = first ++ setMember members m := by
  by_cases hmem : m.1 ∈ members.map Prod.fst
  · have hall : m.1 ∈ (first ++ members).map Prod.fst := by
      rw [List.map_append]
      exact List.mem_append_right _ hmem
    rw [setMember_of_mem hall, setMember_of_mem hmem, List.map_append, replace_of_notMem h]
  · have hall : m.1 ∉ (first ++ members).map Prod.fst := by
      rw [List.map_append, List.mem_append, not_or]
      exact ⟨h, hmem⟩
    rw [setMember_of_notMem hall, setMember_of_notMem hmem, List.append_assoc]

theorem update_append_left {first : List (Text × Document)} (members : List (Text × Document))
    {extras : List (Text × Document)} (h : ∀ e ∈ extras, e.1 ∉ first.map Prod.fst) :
    update (first ++ members) extras = first ++ update members extras := by
  induction extras generalizing members with
  | nil => rfl
  | cons m extras ih =>
    obtain ⟨hm, hextras⟩ := List.forall_mem_cons.mp h
    rw [update_cons, update_cons, setMember_append_left hm]
    exact ih (setMember members m) hextras

/-- An update that begins with all keys of the dictionary replaces it. -/
theorem update_of_prefix {members extras : List (Text × Document)} (hkeys : members.map Prod.fst <+: extras.map Prod.fst)
    (hnodup : (extras.map Prod.fst).Nodup) : update members extras = extras := by
  induction extras generalizing members with
  | nil =>
    have hnil : members = [] := List.map_eq_nil_iff.mp (List.prefix_nil.mp hkeys)
    rw [hnil]
    rfl
  | cons e extras ih =>
    rw [List.map_cons, List.nodup_cons] at hnodup
    obtain ⟨hnew, hnodup⟩ := hnodup
    have hfirst : ∀ x ∈ extras, x.1 ∉ [e].map Prod.fst := by
      intro x hx hmem
      rw [List.map_singleton, List.mem_singleton] at hmem
      exact hnew (hmem ▸ List.mem_map_of_mem hx)
    cases members with
    | nil =>
      have hrest : update [] extras = extras := ih List.nil_prefix hnodup
      rw [update_cons, show setMember [] e = [e] ++ [] from rfl, update_append_left [] hfirst, hrest]
      rfl
    | cons m members =>
      rw [List.map_cons, List.map_cons] at hkeys
      obtain ⟨hkey, hkeys⟩ := List.cons_prefix_cons.mp hkeys
      have hnotMem : e.1 ∉ members.map Prod.fst := fun hmem => hnew (hkeys.subset hmem)
      have hset : setMember (m :: members) e = [e] ++ members := by
        rw [setMember_of_mem (by rw [List.map_cons, hkey]; exact List.mem_cons_self), List.map_cons, if_pos hkey,
          replace_of_notMem hnotMem]
        rfl
      rw [update_cons, hset, update_append_left members hfirst, ih hkeys hnodup]
      rfl

end VirtiosoMux.Json
