import VirtiosoMux.Host.StreamTable

/-! # Applying a registry

What the registry reader collects extends the table by distinct selectable identifiers. If
no system call fails, the verdict and the new table depend on the text and on the old table
only.
-/
namespace VirtiosoMux.Host

/-! ### What a scan collects -/

def RegistryScan.table (s : RegistryScan) (t : Table) : Table :=
  { t with
    tags := s.tags, inputEnabled := s.inputEnabled, numProc := s.count, ptyMaxCount := s.count, defaultTagIdx := 0 }

/-- An entry is skipped, or it is new and goes to the next slot. -/
theorem append_cases {s s' : RegistryScan} {streamId : Int} {name : Bytes}
    (h : appendVirtiosoStream s streamId name = some s') :
    (streamId < 0 ∧ s' = s) ∨
    (0 ≤ streamId ∧ ¬ Reserved (UInt8.ofNat streamId.toNat) ∧
      (∀ i < s.count, (s.tags i).value ≠ UInt8.ofNat streamId.toNat ∧ (s.tags i).name ≠ some name) ∧
      s' = { s with
        tags := Function.update s.tags s.count ⟨some name, UInt8.ofNat streamId.toNat⟩
        count := s.count + 1 }) := by
  unfold appendVirtiosoStream at h
  split at h
  · rename_i hneg
    cases h
    exact .inl ⟨hneg, rfl⟩
  split at h
  · cases h
  split at h
  · cases h
  split at h
  · cases h
  rename_i hneg hrange hany _
  cases h
  refine .inr ⟨by omega, ?_, ?_, rfl⟩
  · exact not_reserved_ofNat (by omega) (by omega) (by omega) (by omega)
  · simpa [not_or] using hany

structure RegistryScan.Sound (t : Table) (s : RegistryScan) : Prop where
  clean : (s.table t).Clean
  extends_ : t.Extends (s.table t)

theorem sound_start {t : Table} (hc : t.Clean) :
    RegistryScan.Sound t ⟨t.tags, t.inputEnabled, t.numProc⟩ :=
  ⟨⟨hc.builtin, hc.zero, hc.selectable, hc.distinct⟩, ⟨le_rfl, fun _ _ => rfl⟩⟩

theorem RegistryScan.Sound.append {t : Table} {s s' : RegistryScan} (hs : s.Sound t) {streamId : Int} {name : Bytes}
    (h : appendVirtiosoStream s streamId name = some s') : s'.Sound t := by
  rcases append_cases h with ⟨-, rfl⟩ | ⟨-, hid, hnew, rfl⟩
  · exact hs
  · refine ⟨hs.clean.add hid (fun i hi => (hnew i hi).1) rfl rfl, ?_⟩
    refine hs.extends_.trans ⟨Nat.le_succ _, ?_⟩
    intro i hi
    exact Function.update_of_ne (Nat.ne_of_lt hi) _ _

/-- An accepted object appends its entry and sets the flag of the slot it used. -/
theorem object_cases {dup : Nat → Bool} {s s' : RegistryScan} {objectStart objectEnd : Bytes}
    (h : registryObject dup s objectStart objectEnd = some s') :
    ∃ streamId name s₁, appendVirtiosoStream s streamId name = some s₁ ∧ s'.tags = s₁.tags ∧ s'.count = s₁.count := by
  unfold registryObject at h
  split at h
  · cases h
  split at h
  · cases h
  split at h
  · cases h
  split at h
  · cases h
  rename_i streamId _ _ name _
  cases happ : appendVirtiosoStream s streamId name with
  | none => simp [happ] at h
  | some s₁ =>
    refine ⟨streamId, name, s₁, happ, ?_⟩
    simp only [happ] at h
    split at h <;> cases h <;> exact ⟨rfl, rfl⟩

theorem RegistryScan.Sound.object {dup : Nat → Bool} {t : Table} {s s' : RegistryScan} (hs : s.Sound t)
    {objectStart objectEnd : Bytes} (h : registryObject dup s objectStart objectEnd = some s') : s'.Sound t := by
  obtain ⟨streamId, name, s₁, happ, htags, hcount⟩ := object_cases h
  obtain ⟨hc, hx⟩ := hs.append happ
  have ht : (s'.table t).tags = (s₁.table t).tags := htags
  have hn : (s'.table t).numProc = (s₁.table t).numProc := hcount
  exact ⟨⟨by rw [hn]; exact hc.builtin, by rw [ht]; exact hc.zero, by rw [ht, hn]; exact hc.selectable,
    by rw [ht, hn]; exact hc.distinct⟩, ⟨by rw [hn]; exact hx.numProc, by rw [ht]; exact hx.tags⟩⟩

theorem RegistryScan.Sound.loop {t : Table} {s : RegistryScan} (hs : s.Sound t) (dup : Nat → Bool)
    (streamsEnd pos : Bytes) : (registryLoop dup streamsEnd pos s).1.Sound t := by
  fun_induction registryLoop dup streamsEnd pos s with
  | case1 => exact hs
  | case2 => exact hs
  | case3 => exact hs
  | case4 => exact hs
  | case5 pos s _ _ _ objectEnd _ s' hobject ih => exact ih (hs.object hobject)

/-- The table that a registry leads to when all copies and PTYs can be made, if it is accepted. -/
def registryTable (t : Table) (json : Bytes) : Option Table :=
  match jsonFindArrayAfter json (ascii "\"streams\"") with
  | none => none
  | some (streamsStart, streamsEnd) =>
    let (s, ok) := registryLoop (fun _ => true) streamsEnd streamsStart.tail ⟨t.tags, t.inputEnabled, t.numProc⟩
    if !ok || s.count = t.numProc then none else some (s.table t)

theorem registryTable_sound {t t' : Table} {json : Bytes} (hc : t.Clean) (h : registryTable t json = some t') :
    t'.Clean ∧ t.Extends t' ∧ t.numProc < t'.numProc ∧ t'.ptyMaxCount = t'.numProc := by
  cases harr : jsonFindArrayAfter json (ascii "\"streams\"") with
  | none => simp [registryTable, harr] at h
  | some range =>
    obtain ⟨streamsStart, streamsEnd⟩ := range
    have hsound := (sound_start hc).loop (fun _ => true) streamsEnd streamsStart.tail
    simp only [registryTable, harr, Option.ite_none_left_eq_some, Option.some.injEq, Bool.or_eq_true,
      decide_eq_true_eq, not_or] at h
    obtain ⟨⟨-, hne⟩, rfl⟩ := h
    exact ⟨hsound.clean, hsound.extends_, lt_of_le_of_ne hsound.extends_.numProc (Ne.symm hne), rfl⟩

/-! ### Opening the PTYs -/

def PtysOpen (env : Env) (h : State) : Prop :=
  ∀ i, ((env.now h).pty i).master = true ∧ ((env.now h).pty i).slave = true ∧ ((env.now h).pty i).thread = true

def logOpens (env : Env) (h : State) (i : Nat) : Bool := env.saveOutputPath.isSome && ((env.now h).pty i).logOpen

/-- The slots from `i` on are opened with empty logs; nothing else changes. -/
theorem createRegistryPtys_open {env : Env} (remaining i : Nat) (h : State) (hopen : PtysOpen env h)
    (hcap : i + remaining ≤ ptyCapacity) :
    ∃ h', createRegistryPtys env remaining i h = (h', true) ∧ h'.parser = h.parser ∧
      h'.downlinkAckCount = h.downlinkAckCount ∧
      h'.table = { h.table with ptyMaxCount := if remaining = 0 then h.table.ptyMaxCount else i + remaining } ∧
      (∀ j, i ≤ j → j < i + remaining → (h'.ptyData j).logFd = logOpens env h j ∧ (h'.ptyData j).log = []) ∧
      ∀ j, ¬ (i ≤ j ∧ j < i + remaining) → h'.ptyData j = h.ptyData j := by
  induction remaining generalizing i h with
  | zero => exact ⟨h, rfl, rfl, rfl, rfl, fun j h₁ h₂ => absurd h₂ (by omega), fun _ _ => rfl⟩
  | succ remaining ih =>
    obtain ⟨hm, hs, ht⟩ := hopen i
    have hcap' : ¬ ptyCapacity ≤ i := by omega
    let opened : State := h.setPty i ⟨logOpens env h i, ((env.now h).pty i).deviceName, 0, [], []⟩
    let recorded : State := emitPtySessionRecord env opened i (((h.table.tags i).name).getD [])
    let h₁ : State := { recorded with table := { h.table with ptyMaxCount := i + 1 } }
    have hcreate : createPtyAtIndex env h i (((h.table.tags i).name).getD []) (h.table.inputEnabled i) =
        (recorded, true) := by
      simp only [createPtyAtIndex, hcap', hm, hs, ht, Bool.not_true, Bool.and_false, Bool.false_eq_true, if_false]
      rfl
    obtain ⟨h', hrun, hp, ha, htab, hnew, hold⟩ := ih (i + 1) h₁ hopen (by omega)
    refine ⟨h', ?_, hp, ha, ?_, ?_, ?_⟩
    · simp only [createRegistryPtys, hcreate, if_true]
      exact hrun
    · rw [htab]
      simp only [h₁, Nat.succ_ne_zero, if_false, Table.mk.injEq, true_and, and_true]
      split <;> omega
    · intro j h₁j h₂j
      by_cases hj : j = i
      · subst hj
        rw [hold j (by omega)]
        simp [h₁, recorded, opened, emitPtySessionRecord, State.setPty]
      · exact hnew j (by omega) (by omega)
    · intro j hj
      rw [hold j (by omega)]
      exact Function.update_of_ne (by omega) _ _

/-- The verdict and the table of the registry reader if copies and PTYs can be made. -/
theorem applyVirtiosoRegistryJson_open {env : Env} {g : State} (hdup : ∀ k, (env.now g).xstrndup k = true)
    (hopen : PtysOpen env g) (hc : g.table.Clean) (json : Bytes) :
    match registryTable g.table json with
    | none => (applyVirtiosoRegistryJson env g json).2 = false
    | some t' => ∃ g', applyVirtiosoRegistryJson env g json = (g', true) ∧ g'.table = t' ∧ g'.parser = g.parser ∧
        g'.downlinkAckCount = g.downlinkAckCount ∧
        (∀ j, g.table.numProc ≤ j → j < t'.numProc → (g'.ptyData j).logFd = logOpens env g j ∧ (g'.ptyData j).log = []) ∧
        ∀ j, ¬ (g.table.numProc ≤ j ∧ j < t'.numProc) → g'.ptyData j = g.ptyData j := by
  have hdup : (env.now g).xstrndup = fun _ => true := funext hdup
  cases harr : jsonFindArrayAfter json (ascii "\"streams\"") with
  | none => simp [registryTable, applyVirtiosoRegistryJson, harr]
  | some range =>
    obtain ⟨streamsStart, streamsEnd⟩ := range
    have hsound := (sound_start hc).loop (fun _ => true) streamsEnd streamsStart.tail
    generalize hloop : registryLoop (fun _ => true) streamsEnd streamsStart.tail
      ⟨g.table.tags, g.table.inputEnabled, g.table.numProc⟩ = res at hsound
    obtain ⟨s, ok⟩ := res
    by_cases hrej : (!ok || decide (s.count = g.table.numProc)) = true
    · simp [registryTable, applyVirtiosoRegistryJson, harr, hdup, hloop, hrej]
    · simp only [registryTable, harr, hloop, hrej]
      have hcount : s.count ≤ 256 := hsound.clean.numProc_le
      have hle : g.table.numProc ≤ s.count := hsound.extends_.numProc
      have hne : s.count ≠ g.table.numProc := by simp at hrej; exact hrej.2
      let h₁ : State := { g with table := { g.table with
        tags := s.tags, inputEnabled := s.inputEnabled, numProc := s.count, defaultTagIdx := 0 } }
      obtain ⟨g', hrun, hp, ha, ht, hnew, hold⟩ := createRegistryPtys_open (s.count - g.table.numProc)
        g.table.numProc h₁ hopen (by simp only [ptyCapacity, virtiosoMaxPtyCount]; omega)
      rw [Nat.add_sub_cancel' hle] at ht hnew hold
      refine ⟨g', ?_, ?_, hp, ha, hnew, hold⟩
      · simp only [applyVirtiosoRegistryJson, harr, hdup, hloop, hrej]
        change (if (createRegistryPtys env (s.count - g.table.numProc) g.table.numProc h₁).2 then _ else _) = _
        rw [hrun]
        rfl
      · rw [ht, if_neg (by omega)]
        rfl

/-- The registry reader in a healthy environment. -/
theorem applyVirtiosoRegistryJson_healthy {env : Env} (he : env.Healthy) {g : State} (hr : g.Ready) (hc : g.table.Clean)
    (json : Bytes) :
    match registryTable g.table json with
    | none => (applyVirtiosoRegistryJson env g json).2 = false
    | some t' => ∃ g', applyVirtiosoRegistryJson env g json = (g', true) ∧ g'.Ready ∧ g'.parser = g.parser ∧
        (∀ i, g'.log i = g.log i) ∧ g'.downlinkAckCount = g.downlinkAckCount ∧ g'.table = t' := by
  have hopen : PtysOpen env g := fun i => ⟨he.master _ i, he.slave _ i, he.thread _ i⟩
  have happly := applyVirtiosoRegistryJson_open (he.xstrndup g.clock) hopen hc json
  cases hreg : registryTable g.table json with
  | none =>
    rw [hreg] at happly
    exact happly
  | some t' =>
    rw [hreg] at happly
    obtain ⟨g', hrun, rfl, hp, ha, hnew, hold⟩ := happly
    obtain ⟨hclean, hx, hlt, hmax⟩ := registryTable_sound hc hreg
    have hlogs : ∀ j, logOpens env g j = true := by
      intro j
      simp [logOpens, he.saves, Env.now, he.logOpen]
    have hlog : ∀ i, g'.log i = g.log i := by
      intro i
      by_cases hi : g.table.numProc ≤ i ∧ i < g'.table.numProc
      · rw [hr.unused i hi.1]
        exact (hnew i hi.1 hi.2).2
      · simp only [State.log, hold i hi]
    refine ⟨g', hrun, ⟨hmax, hclean.builtin, ?_, ?_⟩, hp, hlog, ha, rfl⟩
    · intro i hi
      by_cases hold' : g.table.numProc ≤ i
      · rw [(hnew i hold' hi).1, hlogs]
      · rw [hold i (fun h => hold' h.1)]
        exact hr.logFd i (by omega)
    · intro i hi
      rw [hlog]
      exact hr.unused i (by omega)

end VirtiosoMux.Host
