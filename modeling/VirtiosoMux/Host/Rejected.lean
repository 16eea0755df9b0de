import Mathlib.Data.List.Find
import VirtiosoMux.Host.Invariant
import VirtiosoMux.Host.Steps

/-! # Rejected registries

The registry reader edits the live table. Whatever point it has reached when it gives up, the
failure label undoes the slots it has filled, and the entries in use were never touched.
-/
namespace VirtiosoMux.Host

def streamCount (env : Env) (g : State) (json : Bytes) : Nat :=
  match jsonFindArrayAfter json (ascii "\"streams\"") with
  | none => g.table.numProc
  | some (streamsStart, streamsEnd) =>
    (registryLoop (env.now g).xstrndup streamsEnd streamsStart.tail
      ⟨g.table.tags, g.table.inputEnabled, g.table.numProc⟩).1.count

/-- A scan fills the slots from the old count up to its own and no others. -/
structure RegistryScan.Fills (t : Table) (s : RegistryScan) : Prop where
  count : t.numProc ≤ s.count
  below : ∀ i < t.numProc, s.tags i = t.tags i
  above : ∀ i, s.count ≤ i → s.tags i = t.tags i

theorem loop_fills (dup : Nat → Bool) (streamsEnd pos : Bytes) (t : Table) :
    (registryLoop dup streamsEnd pos ⟨t.tags, t.inputEnabled, t.numProc⟩).1.Fills t := by
  rw [registryLoop_eq]
  apply addEntries_invariant (I := fun s => s.Fills t)
  · intro s e s' hs _ hadd
    rcases addEntry_cases hadd with ⟨-, rfl⟩ | ⟨-, -, -, -, rfl⟩
    · exact hs
    · have hcount := hs.count
      constructor
      · exact Nat.le_succ_of_le hcount
      · intro i hi
        exact (Function.update_of_ne (by omega) _ _).trans (hs.below i hi)
      · intro i hi
        exact (Function.update_of_ne (Nat.ne_of_gt hi) _ _).trans (hs.above i (Nat.le_of_succ_le hi))
  · exact ⟨Nat.le_refl _, fun _ _ => rfl, fun _ _ => rfl⟩

/-- A call that fails found no array, or it left through the failure label. -/
theorem rejected_cases {env : Env} {g g' : State} {json : Bytes}
    (hrej : applyVirtiosoRegistryJson env g json = (g', false)) :
    g' = g ∧ streamCount env g json = g.table.numProc ∨
    ∃ (s : RegistryScan) (h : State), s.Fills g.table ∧ s.count = streamCount env g json ∧ h.table.tags = s.tags ∧
      (h.table.defaultTagIdx = g.table.defaultTagIdx ∨ h.table.defaultTagIdx = 0) ∧
      g' = rejectRegistry h g.table.numProc s.count := by
  unfold applyVirtiosoRegistryJson at hrej
  unfold streamCount
  cases harr : jsonFindArrayAfter json (ascii "\"streams\"") with
  | none =>
    simp only [harr, Prod.mk.injEq, and_true] at hrej
    exact .inl ⟨hrej.symm, rfl⟩
  | some range =>
    obtain ⟨streamsStart, streamsEnd⟩ := range
    have hfills := loop_fills (env.now g).xstrndup streamsEnd streamsStart.tail g.table
    simp only [harr] at hrej ⊢
    generalize registryLoop (env.now g).xstrndup streamsEnd streamsStart.tail
      ⟨g.table.tags, g.table.inputEnabled, g.table.numProc⟩ = res at hfills hrej ⊢
    obtain ⟨s, ok⟩ := res
    right
    split at hrej
    · -- a bad object, or none that counts
      cases hrej
      exact ⟨s, { g with table := { g.table with tags := s.tags, inputEnabled := s.inputEnabled } }, hfills, rfl, rfl,
        .inl rfl, rfl⟩
    · obtain ⟨pd, out, m, created, hcreate, -⟩ := createRegistryPtys_slots env (s.count - g.table.numProc) g.table.numProc
        { g with table := { g.table with
          tags := s.tags, inputEnabled := s.inputEnabled, numProc := s.count, defaultTagIdx := 0 } }
      simp only [hcreate] at hrej
      split at hrej
      · cases hrej
      · -- a PTY could not be opened
        cases hrej
        let t : Table := { g.table with
          tags := s.tags, inputEnabled := s.inputEnabled, numProc := s.count, ptyMaxCount := m, defaultTagIdx := 0 }
        exact ⟨s, { g with table := t, ptyData := pd, stdout := g.stdout ++ out }, hfills, rfl, rfl, .inr rfl, rfl⟩

theorem find_congr {t t' : Table} (hn : t'.numProc = t.numProc) (htags : ∀ i < t.numProc, t'.tags i = t.tags i)
    (id : Byte) : findVirtiosoPtyIdxByStreamId t' id = findVirtiosoPtyIdxByStreamId t id := by
  unfold findVirtiosoPtyIdxByStreamId
  rw [hn]
  apply List.find?_congr
  intro i hi
  rw [htags i (List.mem_range.mp hi)]

/-- After a rejected registry the table is the one before the call, with the slots above it
that the call filled cleared. -/
theorem rejected_registry_leaves_table {env : Env} {g g' : State} {json : Bytes}
    (hcount : g.table.numProc = g.table.ptyMaxCount) (hrej : applyVirtiosoRegistryJson env g json = (g', false)) :
    g'.table.numProc = g.table.numProc ∧ g'.table.ptyMaxCount = g.table.ptyMaxCount ∧
    (g.table.defaultTagIdx = initVirtiosoTags.defaultTagIdx → g'.table.defaultTagIdx = g.table.defaultTagIdx) ∧
    (∀ i < g.table.numProc, g'.table.tags i = g.table.tags i) ∧
    (∀ i, g.table.numProc ≤ i → i < streamCount env g json → g'.table.tags i = Tag.cleared) ∧
    (∀ i, streamCount env g json ≤ i → g'.table.tags i = g.table.tags i) ∧
    ∀ id, findVirtiosoPtyIdxByStreamId g'.table id = findVirtiosoPtyIdxByStreamId g.table id := by
  rcases rejected_cases hrej with ⟨rfl, hused⟩ | ⟨s, h, hfills, hused, htags, hdef, rfl⟩
  · refine ⟨rfl, rfl, fun _ => rfl, fun _ _ => rfl, ?_, fun _ _ => rfl, fun _ => rfl⟩
    intro i hi hlt
    omega
  · rw [← hused]
    have hbelow : ∀ i < g.table.numProc, (rejectRegistry h g.table.numProc s.count).table.tags i = g.table.tags i := by
      intro i hi
      have hout : ¬ (g.table.numProc ≤ i ∧ i < s.count) := fun hin => absurd hi (Nat.not_lt.mpr hin.1)
      simp only [rejectRegistry, if_neg hout, htags]
      exact hfills.below i hi
    refine ⟨rfl, hcount, ?_, hbelow, ?_, ?_, find_congr rfl hbelow⟩
    · intro hzero
      rcases hdef with hdef | hdef
      · exact hdef
      · exact hdef.trans hzero.symm
    · intro i hi hlt
      exact if_pos ⟨hi, hlt⟩
    · intro i hi
      have hout : ¬ (g.table.numProc ≤ i ∧ i < s.count) := fun hin => absurd hin.2 (Nat.not_lt.mpr hi)
      simp only [rejectRegistry, if_neg hout, htags]
      exact hfills.above i hi

/-- A registry whose only stream gets no PTY: the slot is filled when the call gives up. -/
def refusingEnv : Env := { quietEnv with io := fun n => { quietEnv.io n with pty := fun _ => ⟨false, true, [], true, true⟩ } }

def oneStreamText : Bytes := ascii "\x7b\"streams\":[\x7b\"component\":\"vm\",\"stream_id\":7\x7d]\x7d"

def oneStreamScan : RegistryScan :=
  ⟨Function.update initVirtiosoTags.tags 3 ⟨some (ascii "vm"), 7⟩, Function.update initVirtiosoTags.inputEnabled 3 false, 4⟩

theorem registryLoop_turn {dup : Nat → Bool} {streamsEnd pos objectStart objectEnd : Bytes} {s s' : RegistryScan}
    (hpos : ¬ AtOrAfter pos streamsEnd) (hstart : pos.dropWhile (· != 0x7b) = objectStart)
    (hobj : ¬ AtOrAfter objectStart streamsEnd) (hend : jsonFindMatching objectStart 0x7b 0x7d = some objectEnd)
    (hadd : registryObject dup s objectStart objectEnd = some s') :
    registryLoop dup streamsEnd pos s = registryLoop dup streamsEnd objectEnd.tail s' := by
  subst hstart
  rw [registryLoop, if_neg hpos]
  simp only [if_neg hobj]
  split
  · rename_i hnone
    rw [hend] at hnone
    cases hnone
  · rename_i e hsome
    rw [hend] at hsome
    cases hsome
    rw [hadd]

theorem oneStream_loop : registryLoop (fun _ => true) (ascii "]\x7d")
    (ascii "\x7b\"component\":\"vm\",\"stream_id\":7\x7d]\x7d")
    ⟨initVirtiosoTags.tags, initVirtiosoTags.inputEnabled, 3⟩ = (oneStreamScan, true) := by
  have hstart : (ascii "\x7b\"component\":\"vm\",\"stream_id\":7\x7d]\x7d").dropWhile (· != 0x7b) =
      ascii "\x7b\"component\":\"vm\",\"stream_id\":7\x7d]\x7d" := by decide
  have hend : jsonFindMatching (ascii "\x7b\"component\":\"vm\",\"stream_id\":7\x7d]\x7d") 0x7b 0x7d =
      some (ascii "\x7d]\x7d") := by decide +kernel
  have hadd : registryObject (fun _ => true) ⟨initVirtiosoTags.tags, initVirtiosoTags.inputEnabled, 3⟩
      (ascii "\x7b\"component\":\"vm\",\"stream_id\":7\x7d]\x7d") (ascii "\x7d]\x7d") = some oneStreamScan := by
    rfl
  rw [registryLoop_turn (by decide) hstart (by decide) hend hadd, registryLoop, if_pos (by decide)]

theorem rejected_without_pty : ∃ g', applyVirtiosoRegistryJson refusingEnv (start refusingEnv) oneStreamText = (g', false) ∧
    streamCount refusingEnv (start refusingEnv) oneStreamText = 4 ∧ g'.table.numProc = 3 ∧
    g'.table.tags 3 = Tag.cleared := by
  have harr : jsonFindArrayAfter oneStreamText (ascii "\"streams\"") =
      some (ascii "[\x7b\"component\":\"vm\",\"stream_id\":7\x7d]\x7d", ascii "]\x7d") := by decide +kernel
  have hloop : registryLoop (refusingEnv.now (start refusingEnv)).xstrndup (ascii "]\x7d")
      (ascii "[\x7b\"component\":\"vm\",\"stream_id\":7\x7d]\x7d").tail
      ⟨(start refusingEnv).table.tags, (start refusingEnv).table.inputEnabled, (start refusingEnv).table.numProc⟩ =
        (oneStreamScan, true) := oneStream_loop
  have hcount : streamCount refusingEnv (start refusingEnv) oneStreamText = 4 := by
    simp only [streamCount, harr, hloop]
    rfl
  have hrej : (applyVirtiosoRegistryJson refusingEnv (start refusingEnv) oneStreamText).2 = false := by
    simp only [applyVirtiosoRegistryJson, harr, hloop]
    rfl
  have hleft := rejected_registry_leaves_table rfl (Prod.ext rfl hrej)
  exact ⟨_, Prod.ext rfl hrej, hcount, hleft.1, hleft.2.2.2.2.1 3 (Nat.le_refl 3) (by rw [hcount]; decide)⟩

/-! ### The default tag in Virtioso mode -/

theorem connected_defaultTagIdx (env : Env) (h : State) (sid : Byte) (name : Bytes) :
    (applyVirtiosoStreamConnected env h sid name).table.defaultTagIdx = h.table.defaultTagIdx := by
  unfold applyVirtiosoStreamConnected
  split
  · rfl
  split
  · rfl
  dsimp only
  split
  · rfl
  · obtain ⟨p, out, ok, hcreate, -⟩ := createPtyAtIndex_slot env { h with table := { h.table with
        tags := Function.update h.table.tags h.table.numProc ⟨some (cString (name.take 255)), sid⟩
        inputEnabled := Function.update h.table.inputEnabled h.table.numProc false
        numProc := h.table.numProc + 1
        ptyMaxCount := h.table.numProc + 1 } } h.table.numProc (cString (name.take 255)) false
    rw [hcreate]
    cases ok with
    | true => rfl
    | false => rfl

theorem registry_defaultTagIdx {env : Env} {g : State} (hg : g.table.defaultTagIdx = 0) (json : Bytes) :
    (applyVirtiosoRegistryJson env g json).1.table.defaultTagIdx = 0 := by
  rcases applyVirtiosoRegistryJson_cases env g json with ⟨entries, pd, out, -, -, happly, -⟩ | ⟨t, pd, out, happly, -⟩
  · rw [happly]
    rfl
  · rcases rejected_cases happly with ⟨heq, -⟩ | ⟨s, h, -, -, -, hdef, heq⟩
    · rw [happly, heq]
      exact hg
    · rw [happly, heq]
      rcases hdef with hdef | hdef
      · exact hdef.trans hg
      · exact hdef

theorem feed_defaultTagIdx {env : Env} {h : State} (hh : h.table.defaultTagIdx = 0) (ch : Byte) :
    (feedVirtiosoByte env h ch).1.table.defaultTagIdx = 0 := by
  rcases feedVirtiosoByte_cases env h ch with ⟨p, acks, heq, -⟩ | ⟨i, -, heq⟩ | ⟨sid, name, -, heq⟩ | ⟨json, -, heq⟩
  · rw [heq]
    exact hh
  · obtain ⟨pd, n, r, ret, hwrite⟩ := patch2flushStream_slot env (h.setEscape false) i ch
    rw [heq, hwrite]
    exact hh
  · rw [heq]
    exact (connected_defaultTagIdx env (storePayload h ch) sid name).trans hh
  · have happly : (applyVirtiosoRegistryJson env (withRegistry h ch json) json).1.table.defaultTagIdx = 0 :=
      registry_defaultTagIdx (g := withRegistry h ch json) hh json
    rw [heq]
    split
    · exact happly
    · exact happly

/-- Whatever is received, the thread keeps the default tag that `init_virtioso_tags` sets. -/
theorem reached_defaultTagIdx (env : Env) (bytes : Bytes) :
    (ttyInputHandler env (start env) bytes).1.table.defaultTagIdx = initVirtiosoTags.defaultTagIdx := by
  refine handler_invariant (I := fun h => h.table.defaultTagIdx = 0) (fun _ hh => hh) ?_ ?_
    (along_of_forall (fun _ _ => trivial) (start env) bytes)
  · intro h ch hh _
    cases hhand : handed env h ch with
    | some res =>
      obtain ⟨g, b⟩ := res
      obtain ⟨p, n, r, e, hg⟩ := handed_state hhand
      have hg0 : g.table.defaultTagIdx = 0 := by
        rw [hg]
        exact hh
      rw [feed_handed hhand]
      exact feed_defaultTagIdx hg0 b
    | none =>
      rcases feed_unhanded hhand with ⟨p, n, r, heq⟩ | ⟨e, tag, cur, esc, heq, -⟩
      · rw [heq]
        exact hh
      · rw [heq]
        exact hh
  · obtain ⟨pd, out, heq, -⟩ := start_state env
    rw [heq]
    rfl

end VirtiosoMux.Host
