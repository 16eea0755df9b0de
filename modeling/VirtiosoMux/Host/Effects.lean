import VirtiosoMux.Host.Registry

/-! # What one received byte can change

Nothing is assumed about the system calls here. A write touches one slot, opening a PTY
touches one slot and prints at most one record, and a byte of the inner protocol changes the
stream table only where it completes a record.
-/
namespace VirtiosoMux.Host

/-! ### One slot -/

section Slot
variable (h : State) (i : Nat) (p q : ThreadData) (n r : Bool)

theorem setPty_self : h.setPty i (h.ptyData i) = h := by
  simp [State.setPty]

theorem setSeen_self : h.setSeen i (h.parser.seenN i) (h.parser.seenR i) = h := by
  simp [State.setSeen]

theorem setPty_setPty : (h.setPty i p).setPty i q = h.setPty i q := by
  simp [State.setPty]

theorem setSeen_setSeen (n' r' : Bool) : (h.setSeen i n r).setSeen i n' r' = h.setSeen i n' r' := by
  simp [State.setSeen]

theorem setSeen_setPty : (h.setSeen i n r).setPty i p = (h.setPty i p).setSeen i n r := rfl

end Slot

theorem flushStream_slot (env : Env) (io : FlushIo) (h : State) (i : Nat) (ch : Byte) :
    ∃ p ret, flushStream env io h i ch = (h.setPty i p, ret) := by
  unfold flushStream
  dsimp only
  generalize (if (env.logTimestampEnabled && _) = true then io.timestamp.length else 0) = stampLen
  split
  · split
    · exact ⟨h.ptyData i, -2, by rw [setPty_self]⟩
    · split
      · cases io.pty <;> exact ⟨_, _, rfl⟩
      · exact ⟨_, _, rfl⟩
  · cases io.pty <;> exact ⟨_, _, rfl⟩

/-- The state in which a patched byte is written: a missing half of a line end comes first. -/
def patched (env : Env) (h : State) (i : Nat) (ch : Byte) : State :=
  if ch = 0x0a then h.setSeen i true (h.parser.seenR i)
  else if ch = 0x0d then h.setSeen i (h.parser.seenN i) true
  else if h.parser.seenR i then ((flushStream env ((env.now h).flush i 0) h i 0x0a).1).setSeen i false false
  else if h.parser.seenN i then ((flushStream env ((env.now h).flush i 1) h i 0x0d).1).setSeen i false false
  else h

def forgetLineEnd (i : Nat) (res : State × Int) : State × Int :=
  if res.2 < 0 then res
  else if res.1.parser.seenR i && res.1.parser.seenN i then (res.1.setSeen i false false, 0)
  else (res.1, 0)

theorem patch2flushStream_eq (env : Env) (h : State) (i : Nat) (ch : Byte) : patch2flushStream env h i ch =
    if env.disablePatch then flushStream env ((env.now h).flush i 2) h i ch
    else forgetLineEnd i (flushStream env ((env.now h).flush i 2) (patched env h i ch) i ch) := rfl

theorem patched_slot (env : Env) (h : State) (i : Nat) (ch : Byte) :
    ∃ p n r, patched env h i ch = (h.setPty i p).setSeen i n r := by
  unfold patched
  split
  · exact ⟨h.ptyData i, _, _, by rw [setPty_self]⟩
  split
  · exact ⟨h.ptyData i, _, _, by rw [setPty_self]⟩
  split
  · obtain ⟨p, ret, heq⟩ := flushStream_slot env ((env.now h).flush i 0) h i 0x0a
    exact ⟨p, _, _, by rw [heq]⟩
  split
  · obtain ⟨p, ret, heq⟩ := flushStream_slot env ((env.now h).flush i 1) h i 0x0d
    exact ⟨p, _, _, by rw [heq]⟩
  · exact ⟨h.ptyData i, h.parser.seenN i, h.parser.seenR i, by rw [setPty_self, setSeen_self]⟩

/-- What is forgotten depends on the flags and the result only. -/
theorem forgetLineEnd_slot (i : Nat) (n r : Bool) (ret : Int) : ∃ n' r' ret', ∀ g : State,
    forgetLineEnd i (g.setSeen i n r, ret) = (g.setSeen i n' r', ret') := by
  by_cases hret : ret < 0
  · exact ⟨n, r, ret, fun g => if_pos hret⟩
  · by_cases hseen : (r && n) = true
    · refine ⟨false, false, 0, ?_⟩
      intro g
      have hflags : ((g.setSeen i n r).parser.seenR i && (g.setSeen i n r).parser.seenN i) = true := by
        simpa [State.setSeen] using hseen
      simp only [forgetLineEnd, if_neg hret, if_pos hflags, setSeen_setSeen]
    · refine ⟨n, r, 0, ?_⟩
      intro g
      have hflags : ¬ ((g.setSeen i n r).parser.seenR i && (g.setSeen i n r).parser.seenN i) = true := by
        simpa [State.setSeen] using hseen
      simp only [forgetLineEnd, if_neg hret, if_neg hflags]

/-- A patched write changes its slot and the two flags of the slot. -/
theorem patch2flushStream_slot (env : Env) (h : State) (i : Nat) (ch : Byte) :
    ∃ p n r ret, patch2flushStream env h i ch = ((h.setPty i p).setSeen i n r, ret) := by
  rw [patch2flushStream_eq]
  by_cases hpatch : env.disablePatch = true
  · obtain ⟨p, ret, heq⟩ := flushStream_slot env ((env.now h).flush i 2) h i ch
    refine ⟨p, h.parser.seenN i, h.parser.seenR i, ret, ?_⟩
    rw [if_pos hpatch, heq]
    exact congrArg (·, ret) (setSeen_self (h.setPty i p) i).symm
  · obtain ⟨p, n, r, heq⟩ := patched_slot env h i ch
    obtain ⟨p', ret, hflush⟩ := flushStream_slot env ((env.now h).flush i 2) ((h.setPty i p).setSeen i n r) i ch
    obtain ⟨n', r', ret', hforget⟩ := forgetLineEnd_slot i n r ret
    refine ⟨p', n', r', ret', ?_⟩
    rw [if_neg hpatch, heq, hflush, setSeen_setPty, setPty_setPty, hforget]

def SessionRecords (env : Env) (out : Bytes) : Prop :=
  ∃ records : List (Byte × Bytes × Bytes),
    out = records.flatMap (fun r => ptySessionRecord env.saveOutputPath r.1 r.2.1 r.2.2)

theorem SessionRecords.nil (env : Env) : SessionRecords env [] := ⟨[], rfl⟩

theorem SessionRecords.append {env : Env} {out out' : Bytes} (h : SessionRecords env out) (h' : SessionRecords env out') :
    SessionRecords env (out ++ out') := by
  obtain ⟨rs, rfl⟩ := h
  obtain ⟨rs', rfl⟩ := h'
  exact ⟨rs ++ rs', by simp⟩

/-- Opening a PTY changes its slot and prints its record or nothing. -/
theorem createPtyAtIndex_slot (env : Env) (h : State) (i : Nat) (name : Bytes) (startThread : Bool) :
    ∃ p out ok, createPtyAtIndex env h i name startThread =
        ({ h.setPty i p with stdout := h.stdout ++ out }, ok) ∧
      SessionRecords env out ∧ (p = h.ptyData i ∨ p.log = [] ∧ p.written = []) := by
  have hsame : h = { h.setPty i (h.ptyData i) with stdout := h.stdout ++ [] } := by
    rw [setPty_self, List.append_nil]
  unfold createPtyAtIndex
  dsimp only
  split
  · exact ⟨h.ptyData i, [], false, by rw [← hsame], .nil env, .inl rfl⟩
  · split
    · exact ⟨h.ptyData i, [], false, by rw [← hsame], .nil env, .inl rfl⟩
    · split
      · exact ⟨_, [], false, by simp [State.setPty]; rfl, .nil env, .inr ⟨rfl, rfl⟩⟩
      · have hrec : ∀ ok : Bool, ∃ p out ok', (emitPtySessionRecord env (h.setPty i
            ⟨env.saveOutputPath.isSome && ((env.now h).pty i).logOpen, ((env.now h).pty i).deviceName, 0, [], []⟩)
            i name, ok) = ({ h.setPty i p with stdout := h.stdout ++ out }, ok') ∧
            SessionRecords env out ∧ (p = h.ptyData i ∨ p.log = [] ∧ p.written = []) := by
          intro ok
          exact ⟨_, _, ok, rfl, ⟨[(_, _, _)], (List.append_nil _).symm⟩, .inr ⟨rfl, rfl⟩⟩
        split
        · exact hrec false
        · exact hrec true

/-- The PTYs of a registry: slots `i` to `i + remaining - 1` and their records. -/
theorem createRegistryPtys_slots (env : Env) (remaining i : Nat) (h : State) :
    ∃ pd out m ok, createRegistryPtys env remaining i h =
        ({ h with ptyData := pd, stdout := h.stdout ++ out, table := { h.table with ptyMaxCount := m } }, ok) ∧
      (∀ j, ¬ (i ≤ j ∧ j < i + remaining) → pd j = h.ptyData j) ∧ SessionRecords env out ∧
      (ok = true → m = if remaining = 0 then h.table.ptyMaxCount else i + remaining) := by
  induction remaining generalizing i h with
  | zero =>
    exact ⟨h.ptyData, [], h.table.ptyMaxCount, true, by simp [createRegistryPtys], fun _ _ => rfl, .nil env, fun _ => rfl⟩
  | succ remaining ih =>
    obtain ⟨p, out, ok, heq, hout, -⟩ := createPtyAtIndex_slot env h i (((h.table.tags i).name).getD []) (h.table.inputEnabled i)
    have hother : ∀ j, ¬ (i ≤ j ∧ j < i + (remaining + 1)) → Function.update h.ptyData i p j = h.ptyData j := by
      intro j hj
      exact Function.update_of_ne (by omega) _ _
    simp only [createRegistryPtys, heq]
    cases ok with
    | false => exact ⟨_, out, h.table.ptyMaxCount, false, rfl, hother, hout, by simp⟩
    | true =>
      obtain ⟨pd, out', m, ok', hrest, hpd, hout', hm⟩ := ih (i + 1)
        { h.setPty i p with stdout := h.stdout ++ out, table := { h.table with ptyMaxCount := i + 1 } }
      refine ⟨pd, out ++ out', m, ok', ?_, ?_, hout.append hout', ?_⟩
      · rw [← List.append_assoc]
        exact hrest
      · intro j hj
        rw [hpd j (by omega)]
        exact hother j hj
      · intro hok
        rw [hm hok, if_neg (Nat.succ_ne_zero _)]
        simp only
        split <;> omega

/-! ### The objects of a registry -/

structure Entry where
  streamId : Int
  name : Bytes
  inputEnabled : Bool

def objectEntry (dup : Nat → Bool) (objectStart objectEnd : Bytes) : Option Entry :=
  match jsonFindKeyBefore objectStart objectEnd (ascii "\"component\"") with
  | none => none
  | some componentPos =>
    match jsonFindKeyBefore objectStart objectEnd (ascii "\"stream_id\"") with
    | none => none
    | some streamIdPos =>
      match jsonIntValueAfter streamIdPos (ascii "\"stream_id\"") with
      | none => none
      | some streamId =>
        match jsonStringValueAfter dup componentPos (ascii "\"component\"") with
        | none => none
        | some name => some ⟨streamId, name,
          match jsonFindKeyBefore objectStart objectEnd (ascii "\"direction\"") with
          | none => false
          | some directionPos =>
            match jsonStringValueAfter dup directionPos (ascii "\"direction\"") with
            | none => false
            | some direction => direction == ascii "input" || direction == ascii "bidirectional"⟩

def RegistryScan.addEntry (s : RegistryScan) (e : Entry) : Option RegistryScan :=
  match appendVirtiosoStream s e.streamId e.name with
  | none => none
  | some s' =>
    if s.count < s'.count then some { s' with inputEnabled := Function.update s'.inputEnabled s.count e.inputEnabled }
    else some s'

theorem registryObject_eq (dup : Nat → Bool) (s : RegistryScan) (objectStart objectEnd : Bytes) :
    registryObject dup s objectStart objectEnd = (objectEntry dup objectStart objectEnd).bind s.addEntry := by
  unfold registryObject objectEntry
  cases jsonFindKeyBefore objectStart objectEnd (ascii "\"component\"") with
  | none => rfl
  | some componentPos =>
    cases jsonFindKeyBefore objectStart objectEnd (ascii "\"stream_id\"") with
    | none => rfl
    | some streamIdPos =>
      cases hid : jsonIntValueAfter streamIdPos (ascii "\"stream_id\"") with
      | none => simp [hid]
      | some streamId =>
        cases hname : jsonStringValueAfter dup componentPos (ascii "\"component\"") with
        | none => simp [hid, hname]
        | some name =>
          simp only [hid, hname, Option.bind_some]
          rfl

/-- The entries between two positions of the text; a malformed object is `none`. -/
def registryEntries (dup : Nat → Bool) (streamsEnd pos : Bytes) : List (Option Entry) :=
  if AtOrAfter pos streamsEnd then []
  else
    let objectStart := pos.dropWhile (· != 0x7b)
    if AtOrAfter objectStart streamsEnd then []
    else
      match _hm : jsonFindMatching objectStart 0x7b 0x7d with
      | none => [none]
      | some objectEnd => objectEntry dup objectStart objectEnd :: registryEntries dup streamsEnd objectEnd.tail
termination_by pos.length
decreasing_by
  have hlen := matchingScan_length _hm
  have hdrop : objectStart.length ≤ pos.length := (List.dropWhile_suffix (· != 0x7b)).length_le
  have : 0 < objectEnd.length := List.length_pos_of_ne_nil hlen.1
  simp only [List.length_tail]
  omega

/-- The entry of an object that is closed, and those behind it. -/
theorem registryEntries_object {dup : Nat → Bool} {streamsEnd pos objectEnd : Bytes} (hend : ¬ AtOrAfter pos streamsEnd)
    (hobj : ¬ AtOrAfter (pos.dropWhile (· != 0x7b)) streamsEnd)
    (hm : jsonFindMatching (pos.dropWhile (· != 0x7b)) 0x7b 0x7d = some objectEnd) :
    registryEntries dup streamsEnd pos =
      objectEntry dup (pos.dropWhile (· != 0x7b)) objectEnd :: registryEntries dup streamsEnd objectEnd.tail := by
  rw [registryEntries, if_neg hend, if_neg hobj]
  split
  · rename_i hm'
    rw [hm] at hm'
    cases hm'
  · rename_i e hm'
    rw [hm] at hm'
    cases hm'
    rfl

def RegistryScan.addEntries : RegistryScan → List (Option Entry) → RegistryScan × Bool
  | s, [] => (s, true)
  | s, none :: _ => (s, false)
  | s, some e :: rest =>
    match s.addEntry e with
    | none => (s, false)
    | some s' => s'.addEntries rest

theorem registryLoop_eq (dup : Nat → Bool) (streamsEnd pos : Bytes) (s : RegistryScan) :
    registryLoop dup streamsEnd pos s = s.addEntries (registryEntries dup streamsEnd pos) := by
  fun_induction registryLoop dup streamsEnd pos s with
  | case1 pos s hend =>
    rw [registryEntries, if_pos hend]
    rfl
  | case2 pos s hend objectStart hobj =>
    rw [registryEntries, if_neg hend, if_pos hobj]
    rfl
  | case3 pos s hend objectStart hobj hm =>
    rw [registryEntries, if_neg hend, if_neg hobj]
    split
    · rfl
    · rename_i hm'
      rw [hm] at hm'
      cases hm'
  | case4 pos s hend objectStart hobj objectEnd hm hnone =>
    rw [registryEntries_object hend hobj hm]
    rw [registryObject_eq] at hnone
    cases hentry : objectEntry dup objectStart objectEnd with
    | none => rfl
    | some e =>
      rw [hentry] at hnone
      simp only [RegistryScan.addEntries, show s.addEntry e = none from hnone]
  | case5 pos s hend objectStart hobj objectEnd hm s' hsome ih =>
    rw [registryEntries_object hend hobj hm]
    rw [registryObject_eq] at hsome
    obtain ⟨e, hentry, hadd⟩ := Option.bind_eq_some_iff.mp hsome
    rw [hentry, RegistryScan.addEntries, hadd]
    exact ih

/-- An entry is skipped, or it is new and goes to the next slot. -/
theorem addEntry_cases {s s' : RegistryScan} {e : Entry} (h : s.addEntry e = some s') :
    (e.streamId < 0 ∧ s' = s) ∨
    (0 ≤ e.streamId ∧ ¬ Reserved (UInt8.ofNat e.streamId.toNat) ∧ s.count ≠ virtiosoMaxPtyCount ∧
      (∀ i < s.count, (s.tags i).value ≠ UInt8.ofNat e.streamId.toNat ∧ (s.tags i).name ≠ some e.name) ∧
      s' = ⟨Function.update s.tags s.count ⟨some e.name, UInt8.ofNat e.streamId.toNat⟩,
        Function.update s.inputEnabled s.count e.inputEnabled, s.count + 1⟩) := by
  unfold RegistryScan.addEntry at h
  split at h
  · cases h
  · rename_i s₁ happ
    have hfull : 0 ≤ e.streamId → s.count ≠ virtiosoMaxPtyCount := by
      intro hpos hmax
      simp [appendVirtiosoStream, Int.not_lt.mpr hpos, hmax] at happ
    rcases append_cases happ with ⟨hneg, rfl⟩ | ⟨hpos, hid, hnew, rfl⟩
    · simp only [Nat.lt_irrefl, if_false, Option.some.injEq] at h
      exact .inl ⟨hneg, h.symm⟩
    · simp only [Nat.lt_succ_self, if_true, Option.some.injEq] at h
      exact .inr ⟨hpos, hid, hfull hpos, hnew, h.symm⟩

/-- What the entries of the text keep, the scan keeps. -/
theorem addEntries_invariant {I : RegistryScan → Prop} {es : List (Option Entry)}
    (hstep : ∀ s e s', I s → some e ∈ es → s.addEntry e = some s' → I s') {s : RegistryScan} (hs : I s) :
    I (s.addEntries es).1 := by
  induction es generalizing s with
  | nil => exact hs
  | cons e rest ih =>
    have hrest : ∀ s e s', I s → some e ∈ rest → s.addEntry e = some s' → I s' :=
      fun s e s' hs he => hstep s e s' hs (List.mem_cons_of_mem _ he)
    cases e with
    | none => exact hs
    | some e =>
      rw [RegistryScan.addEntries]
      split
      · exact hs
      · rename_i s' hadd
        exact ih hrest (hstep s e s' hs List.mem_cons_self hadd)

theorem addEntries_count (s : RegistryScan) (entries : List (Option Entry)) : s.count ≤ (s.addEntries entries).1.count := by
  refine addEntries_invariant (I := fun s' => s.count ≤ s'.count) ?_ (Nat.le_refl _)
  intro s₁ e s₂ hle _ hadd
  rcases addEntry_cases hadd with ⟨-, rfl⟩ | ⟨-, -, -, -, rfl⟩
  · exact hle
  · exact Nat.le_succ_of_le hle

/-! ### Applying a registry and announcing a stream -/

def jsonEntries (dup : Nat → Bool) (json : Bytes) : Option (List (Option Entry)) :=
  (jsonFindArrayAfter json (ascii "\"streams\"")).map (fun (streamsStart, streamsEnd) =>
    registryEntries dup streamsEnd streamsStart.tail)

def Table.scan (t : Table) (entries : List (Option Entry)) : RegistryScan × Bool :=
  (RegistryScan.mk t.tags t.inputEnabled t.numProc).addEntries entries

structure Table.Unchanged (t t' : Table) : Prop where
  numProc : t'.numProc = t.numProc
  ptyMaxCount : t'.ptyMaxCount = t.ptyMaxCount ∨ t'.ptyMaxCount = t.numProc
  tags : ∀ i < t.numProc, t'.tags i = t.tags i

theorem Table.Unchanged.refl (t : Table) : t.Unchanged t := ⟨rfl, .inl rfl, fun _ _ => rfl⟩

theorem scan_tags (t : Table) (entries : List (Option Entry)) {i : Nat} (hi : i < t.numProc) :
    (t.scan entries).1.tags i = t.tags i := by
  have hinv : t.numProc ≤ (t.scan entries).1.count ∧ ∀ i < t.numProc, (t.scan entries).1.tags i = t.tags i := by
    refine addEntries_invariant (I := fun s => t.numProc ≤ s.count ∧ ∀ i < t.numProc, s.tags i = t.tags i) ?_
      (s := ⟨t.tags, t.inputEnabled, t.numProc⟩) ⟨Nat.le_refl _, fun _ _ => rfl⟩
    rintro s e s' ⟨hle, htags⟩ - hadd
    rcases addEntry_cases hadd with ⟨-, rfl⟩ | ⟨-, -, -, -, rfl⟩
    · exact ⟨hle, htags⟩
    · refine ⟨Nat.le_succ_of_le hle, ?_⟩
      intro j hj
      rw [← htags j hj]
      exact Function.update_of_ne (by omega) _ _
  exact hinv.2 i hi

theorem rejectRegistry_unchanged {g h : State} {s : RegistryScan} (htags : ∀ i < g.table.numProc, s.tags i = g.table.tags i)
    (hh : h.table.tags = s.tags) : g.table.Unchanged (rejectRegistry h g.table.numProc s.count).table := by
  refine ⟨rfl, .inr rfl, ?_⟩
  intro i hi
  have hout : ¬ (g.table.numProc ≤ i ∧ i < s.count) := by omega
  simp only [rejectRegistry, if_neg hout, hh]
  exact htags i hi

theorem applyVirtiosoRegistryJson_cases (env : Env) (g : State) (json : Bytes) :
    (∃ entries pd out, jsonEntries (env.now g).xstrndup json = some entries ∧ (g.table.scan entries).2 = true ∧
      applyVirtiosoRegistryJson env g json =
        ({ g with table := (g.table.scan entries).1.table g.table, ptyData := pd, stdout := g.stdout ++ out }, true) ∧
      (∀ j < g.table.numProc, pd j = g.ptyData j) ∧ SessionRecords env out) ∨
    (∃ t pd out, applyVirtiosoRegistryJson env g json =
        ({ g with table := t, ptyData := pd, stdout := g.stdout ++ out }, false) ∧ g.table.Unchanged t ∧
      (∀ j < g.table.numProc, pd j = g.ptyData j) ∧ SessionRecords env out) := by
  cases harr : jsonFindArrayAfter json (ascii "\"streams\"") with
  | none => exact .inr ⟨g.table, g.ptyData, [], by simp [applyVirtiosoRegistryJson, harr], .refl _,
      fun _ _ => rfl, .nil env⟩
  | some range =>
    obtain ⟨streamsStart, streamsEnd⟩ := range
    have hloop := registryLoop_eq (env.now g).xstrndup streamsEnd streamsStart.tail
      ⟨g.table.tags, g.table.inputEnabled, g.table.numProc⟩
    have hle := addEntries_count ⟨g.table.tags, g.table.inputEnabled, g.table.numProc⟩
      (registryEntries (env.now g).xstrndup streamsEnd streamsStart.tail)
    generalize hscan : (RegistryScan.mk g.table.tags g.table.inputEnabled g.table.numProc).addEntries
      (registryEntries (env.now g).xstrndup streamsEnd streamsStart.tail) = res at hloop hle
    obtain ⟨s, ok⟩ := res
    have htags : ∀ i < g.table.numProc, s.tags i = g.table.tags i := by
      intro i hi
      rw [← scan_tags g.table (registryEntries (env.now g).xstrndup streamsEnd streamsStart.tail) hi, Table.scan, hscan]
    by_cases hrej : (!ok || decide (s.count = g.table.numProc)) = true
    · let h : State := { g with table := { g.table with tags := s.tags, inputEnabled := s.inputEnabled } }
      refine .inr ⟨(rejectRegistry h g.table.numProc s.count).table, g.ptyData, [], ?_,
        rejectRegistry_unchanged htags rfl, fun _ _ => rfl, .nil env⟩
      simp only [applyVirtiosoRegistryJson, harr, hloop, hrej, if_true, List.append_nil]
      rfl
    · simp only [Bool.or_eq_true, Bool.not_eq_true', decide_eq_true_eq, not_or, Bool.not_eq_false] at hrej
      obtain ⟨pd, out, m, created, hcreate, hpd, hout, hm⟩ := createRegistryPtys_slots env (s.count - g.table.numProc)
        g.table.numProc { g with table := { g.table with
          tags := s.tags, inputEnabled := s.inputEnabled, numProc := s.count, defaultTagIdx := 0 } }
      have hkeep : ∀ j < g.table.numProc, pd j = g.ptyData j := fun j hj => hpd j (by omega)
      cases created with
      | true =>
        refine .inl ⟨registryEntries (env.now g).xstrndup streamsEnd streamsStart.tail, pd, out,
          by simp [jsonEntries, harr], by rw [Table.scan, hscan]; exact hrej.1, ?_, hkeep, hout⟩
        have hmax : m = s.count := by
          rw [hm rfl, if_neg (by simp only at hle; omega)]
          simp only at hle
          omega
        rw [Table.scan, hscan]
        simp only [applyVirtiosoRegistryJson, harr, hloop, hrej.1, hrej.2, Bool.not_true, Bool.false_or, decide_false,
          Bool.false_eq_true, if_false, hcreate, if_true, hmax]
        rfl
      | false =>
        let h : State := { g with table := { g.table with
          tags := s.tags, inputEnabled := s.inputEnabled, numProc := s.count, defaultTagIdx := 0 } }
        refine .inr ⟨(rejectRegistry h g.table.numProc s.count).table, pd, out, ?_, rejectRegistry_unchanged htags rfl,
          hkeep, hout⟩
        simp only [applyVirtiosoRegistryJson, harr, hloop, hrej.1, hrej.2, Bool.not_true, Bool.false_or, decide_false,
          Bool.false_eq_true, if_false, hcreate]
        rfl

/-- A new identifier is registered, or nothing is. -/
theorem applyVirtiosoStreamConnected_cases (env : Env) (h : State) (streamId : Byte) (name : Bytes) :
    ∃ t pd out, applyVirtiosoStreamConnected env h streamId name =
        { h with table := t, ptyData := pd, stdout := h.stdout ++ out } ∧
      (∀ j < h.table.numProc, pd j = h.ptyData j) ∧ SessionRecords env out ∧
      ((findVirtiosoPtyIdxByStreamId h.table streamId = none ∧ h.table.numProc < ptyCapacity ∧
        t = h.table.connect streamId name) ∨ h.table.Unchanged t) := by
  by_cases hskip : (findVirtiosoPtyIdxByStreamId h.table streamId).isSome = true ∨ ptyCapacity ≤ h.table.numProc
  · refine ⟨h.table, h.ptyData, [], ?_, fun _ _ => rfl, .nil env, .inr (.refl _)⟩
    rw [List.append_nil]
    rcases hskip with hs | hs <;> simp [applyVirtiosoStreamConnected, hs]
  · have hnone : findVirtiosoPtyIdxByStreamId h.table streamId = none := by
      simpa using (not_or.mp hskip).1
    have hcap : h.table.numProc < ptyCapacity := Nat.lt_of_not_le (not_or.mp hskip).2
    have htable : h.table.connect streamId name = { h.table with
        tags := Function.update h.table.tags h.table.numProc ⟨some (cString (name.take 255)), streamId⟩
        inputEnabled := Function.update h.table.inputEnabled h.table.numProc false
        numProc := h.table.numProc + 1
        ptyMaxCount := h.table.numProc + 1 } := by
      simp [Table.connect, hnone, hcap]
    obtain ⟨p, out, ok, hcreate, hout, -⟩ := createPtyAtIndex_slot env { h with table := h.table.connect streamId name }
      h.table.numProc (cString (name.take 255)) false
    have hkeep : ∀ j < h.table.numProc, Function.update h.ptyData h.table.numProc p j = h.ptyData j :=
      fun j hj => Function.update_of_ne (Nat.ne_of_lt hj) _ _
    rw [htable] at hcreate
    by_cases hdup : (env.now h).xstrndup (cString (name.take 255)).length = true
    · cases ok with
      | true =>
        refine ⟨h.table.connect streamId name, _, out, ?_, hkeep, hout, .inl ⟨hnone, hcap, rfl⟩⟩
        rw [htable]
        simp only [applyVirtiosoStreamConnected, hnone, Option.isSome_none, Bool.false_eq_true, if_false,
          Nat.not_le.mpr hcap, hdup, Bool.not_true, hcreate, if_true]
        rfl
      | false =>
        refine ⟨{ h.table with
            tags := Function.update (Function.update h.table.tags h.table.numProc
              ⟨some (cString (name.take 255)), streamId⟩) h.table.numProc Tag.cleared
            inputEnabled := Function.update h.table.inputEnabled h.table.numProc false
            ptyMaxCount := h.table.numProc }, _, out, ?_, hkeep, hout, .inr ⟨rfl, .inr rfl, ?_⟩⟩
        · simp only [applyVirtiosoStreamConnected, hnone, Option.isSome_none, Bool.false_eq_true, if_false,
            Nat.not_le.mpr hcap, hdup, Bool.not_true, hcreate]
          rfl
        · intro i hi
          simp [Function.update_of_ne (Nat.ne_of_lt hi)]
    · refine ⟨h.table, h.ptyData, [], ?_, fun _ _ => rfl, .nil env, .inr (.refl _)⟩
      simp [applyVirtiosoStreamConnected, hnone, Nat.not_le.mpr hcap, hdup]

/-! ### One byte of the inner protocol -/

/-- The identifier and the name of the announcement that the byte completes. -/
def completedAnnouncement (h : State) (ch : Byte) : Option (Byte × Bytes) :=
  if h.parser.controlState = .announcePayload ∧ (storePayload h ch).parser.registryLen ≤ (storePayload h ch).parser.registryPos ∧
      h.parser.pendingCtrlType = vcmuxProtoControlStreamConnected ∧ 1 ≤ h.parser.registryLen then
    match (storePayload h ch).parser.registryJson with
    | some (sid :: rest) => some (sid, rest.take (h.parser.registryLen - 1))
    | _ => none
  else none

/-- The text of the registry that the byte completes, if it is the first one. -/
def completedRegistry (h : State) (ch : Byte) : Option Bytes :=
  if h.parser.controlState = .registryJson ∧ (storePayload h ch).parser.registryLen ≤ (storePayload h ch).parser.registryPos ∧
      h.virtiosoRegistryJson = none then
    some (cString ((storePayload h ch).parser.registryJson.getD []))
  else none

def withRegistry (h : State) (ch : Byte) (json : Bytes) : State :=
  emitVirtiosoRegistryRecord { storePayload h ch with
    virtiosoRegistryJson := some json, parser := { (storePayload h ch).parser with registryJson := none } }

theorem feed_completedAnnouncement {env : Env} {h : State} {ch sid : Byte} {name : Bytes}
    (hdone : completedAnnouncement h ch = some (sid, name)) :
    feedVirtiosoByte env h ch = ((applyVirtiosoStreamConnected env (storePayload h ch) sid name).endRecord, 0) := by
  unfold completedAnnouncement at hdone
  split at hdone
  · rename_i hcond
    obtain ⟨hc, hend, hconn⟩ := hcond
    cases hjson : (storePayload h ch).parser.registryJson with
    | none =>
      rw [hjson] at hdone
      cases hdone
    | some buffer =>
      rw [hjson] at hdone
      cases buffer with
      | nil => cases hdone
      | cons sid' rest =>
        cases hdone
        simp only [feedVirtiosoByte, hc, if_pos hend, finishAnnounce, hjson]
        exact congrArg (·, (0 : Int)) (if_pos hconn)
  · cases hdone

theorem feed_completedRegistry {env : Env} {h : State} {ch : Byte} {json : Bytes}
    (hdone : completedRegistry h ch = some json) :
    feedVirtiosoByte env h ch =
      if (applyVirtiosoRegistryJson env (withRegistry h ch json) json).2 then
        ((applyVirtiosoRegistryJson env (withRegistry h ch json) json).1.setControl .idle, 0)
      else ((applyVirtiosoRegistryJson env (withRegistry h ch json) json).1, -1) := by
  unfold completedRegistry at hdone
  split at hdone
  · rename_i hcond
    obtain ⟨hc, hend, hg⟩ := hcond
    cases hdone
    have hg' : (storePayload h ch).virtiosoRegistryJson = none := hg
    simp only [feedVirtiosoByte, hc, if_pos hend, finishRegistry, hg']
    rfl
  · cases hdone

/-- Applying a registry leaves the parser alone. -/
theorem applyVirtiosoRegistryJson_rest (env : Env) (g : State) (json : Bytes) :
    (applyVirtiosoRegistryJson env g json).1.parser = g.parser ∧ (applyVirtiosoRegistryJson env g json).1.clock = g.clock := by
  rcases applyVirtiosoRegistryJson_cases env g json with ⟨entries, pd, out, -, -, heq, -⟩ | ⟨t, pd, out, heq, -⟩
  · rw [heq]
    exact ⟨rfl, rfl⟩
  · rw [heq]
    exact ⟨rfl, rfl⟩

theorem withRegistry_parserState (h : State) (ch : Byte) (json : Bytes) :
    (withRegistry h ch json).parser = { (storePayload h ch).parser with registryJson := none } := rfl

def innerTarget (h : State) (ch : Byte) : Option Nat :=
  match h.parser.controlState with
  | .idle =>
    if h.parser.inEscape then
      if ch = vcmuxProtoEscEsc then h.parser.curRxStream else none
    else if ch = vcmuxProtoEscStart then none
    else
      match h.parser.curRxStream with
      | none => if virtiosoDefaultPtyIdx < h.table.ptyMaxCount then some virtiosoDefaultPtyIdx else none
      | some i => some i
  | _ => none

theorem innerTarget_cases {h : State} {ch : Byte} {i : Nat} (ht : innerTarget h ch = some i) :
    h.parser.controlState = .idle ∧
      (h.parser.curRxStream = some i ∨ h.parser.curRxStream = none ∧ i = virtiosoDefaultPtyIdx) := by
  unfold innerTarget at ht
  split at ht
  · rename_i hc
    refine ⟨hc, ?_⟩
    split at ht
    · split at ht
      · exact .inl ht
      · cases ht
    · split at ht
      · cases ht
      · split at ht
        · rename_i hcur
          split at ht
          · exact .inr ⟨hcur, (Option.some.inj ht).symm⟩
          · cases ht
        · rename_i j hcur
          cases ht
          exact .inl hcur
  · cases ht

theorem feed_target {env : Env} {h : State} {ch : Byte} {i : Nat} (ht : innerTarget h ch = some i) :
    feedVirtiosoByte env h ch = patch2flushStream env (h.setEscape false) i ch := by
  have hc := (innerTarget_cases ht).1
  have hsame : h.parser.inEscape = false → h.setEscape false = h := by
    intro hx
    rw [← hx]
    rfl
  cases hx : h.parser.inEscape with
  | true =>
    simp only [innerTarget, hc, hx, if_true] at ht
    split at ht
    · rename_i hesc
      have hne : ch ≠ vcmuxProtoEscDefault := by
        rw [hesc]
        decide
      simp only [feedVirtiosoByte, hc, hx, if_true, if_neg hne, if_pos hesc, State.setEscape_parser_curRxStream, ht]
    · cases ht
  | false =>
    rw [hsame hx]
    simp only [innerTarget, hc, hx, Bool.false_eq_true, if_false] at ht
    split at ht
    · cases ht
    · rename_i hstart
      cases hcur : h.parser.curRxStream with
      | none =>
        simp only [hcur] at ht
        split at ht
        · rename_i hmax
          cases ht
          simp only [feedVirtiosoByte, hc, hx, Bool.false_eq_true, if_false, if_neg hstart, hcur, if_pos hmax]
        · cases ht
      | some j =>
        simp only [hcur] at ht
        cases ht
        simp only [feedVirtiosoByte, hc, hx, Bool.false_eq_true, if_false, if_neg hstart, hcur]

/-- How the parser moves: the stream cursor stays, is cleared or follows an identifier. -/
structure Moves (h : State) (ch : Byte) (p : Parser) : Prop where
  current : p.curRxStream = h.parser.curRxStream ∨ p.curRxStream = none ∨
    ch ≠ vcmuxProtoEscDefault ∧ p.curRxStream = findVirtiosoPtyIdxByStreamId h.table ch
  outerInEscape : p.outerInEscape = h.parser.outerInEscape
  curOuterTag : p.curOuterTag = h.parser.curOuterTag

def MovesOnly (env : Env) (h : State) (ch : Byte) : Prop :=
  ∃ p acks, feedVirtiosoByte env h ch = ({ h with parser := p, downlinkAckCount := acks }, 0) ∧ Moves h ch p ∧
    p.seenN = h.parser.seenN ∧ p.seenR = h.parser.seenR

section MovesOnly
variable {env : Env} {h : State} {ch : Byte}

theorem cmd_movesOnly (hc : h.parser.controlState = .cmd) : MovesOnly env h ch := by
  simp only [MovesOnly, feedVirtiosoByte, hc, controlCmd]
  split
  · exact ⟨_, _, rfl, ⟨.inl rfl, rfl, rfl⟩, rfl, rfl⟩
  split
  · exact ⟨_, _, rfl, ⟨.inl rfl, rfl, rfl⟩, rfl, rfl⟩
  split
  · exact ⟨_, _, rfl, ⟨.inl rfl, rfl, rfl⟩, rfl, rfl⟩
  · exact ⟨_, _, rfl, ⟨.inl rfl, rfl, rfl⟩, rfl, rfl⟩

/-- The second length byte allocates the buffer or gives the record up. -/
theorem controlLenLo_moves (calloc : Bool) (h : State) (ch : Byte) (payload : ControlState) : ∃ p,
    controlLenLo calloc h ch payload = { h with parser := p } ∧ Moves h ch p ∧
      p.seenN = h.parser.seenN ∧ p.seenR = h.parser.seenR := by
  rw [controlLenLo]
  split
  · exact ⟨_, rfl, ⟨.inl rfl, rfl, rfl⟩, rfl, rfl⟩
  split
  · exact ⟨_, rfl, ⟨.inl rfl, rfl, rfl⟩, rfl, rfl⟩
  · exact ⟨_, rfl, ⟨.inl rfl, rfl, rfl⟩, rfl, rfl⟩

theorem registryJson_movesOnly (hc : h.parser.controlState = .registryJson) (hnone : completedRegistry h ch = none) :
    MovesOnly env h ch := by
  simp only [MovesOnly, feedVirtiosoByte, hc]
  by_cases hend : (storePayload h ch).parser.registryLen ≤ (storePayload h ch).parser.registryPos
  · rw [if_pos hend]
    have hg : h.virtiosoRegistryJson ≠ none := by
      intro hg
      simp [completedRegistry, hc, hend, hg] at hnone
    obtain ⟨json, hg⟩ := Option.ne_none_iff_exists'.mp hg
    have hg' : (storePayload h ch).virtiosoRegistryJson = some json := hg
    rw [finishRegistry, hg']
    exact ⟨_, _, rfl, ⟨.inl rfl, rfl, rfl⟩, rfl, rfl⟩
  · rw [if_neg hend]
    exact ⟨_, _, rfl, ⟨.inl rfl, rfl, rfl⟩, rfl, rfl⟩

theorem announcePayload_movesOnly (hc : h.parser.controlState = .announcePayload)
    (hnone : completedAnnouncement h ch = none) : MovesOnly env h ch := by
  simp only [MovesOnly, feedVirtiosoByte, hc]
  by_cases hend : (storePayload h ch).parser.registryLen ≤ (storePayload h ch).parser.registryPos
  · rw [if_pos hend, finishAnnounce]
    split
    · rename_i sid rest hjson
      split
      · rename_i hconn
        rw [completedAnnouncement, if_pos ⟨hc, hend, hconn⟩, hjson] at hnone
        cases hnone
      · exact ⟨_, _, rfl, ⟨.inl rfl, rfl, rfl⟩, rfl, rfl⟩
    · exact ⟨_, _, rfl, ⟨.inl rfl, rfl, rfl⟩, rfl, rfl⟩
  · rw [if_neg hend]
    exact ⟨_, _, rfl, ⟨.inl rfl, rfl, rfl⟩, rfl, rfl⟩

/-- Outside a record a byte that is not written closes the frame, selects a stream, opens a record
or starts an escape. -/
theorem idle_movesOnly (hc : h.parser.controlState = .idle) (ht : innerTarget h ch = none) : MovesOnly env h ch := by
  cases hx : h.parser.inEscape with
  | true =>
    simp only [innerTarget, hc, hx, if_true] at ht
    simp only [MovesOnly, feedVirtiosoByte, hc, hx, if_true]
    split
    · exact ⟨_, _, rfl, ⟨.inr (.inl rfl), rfl, rfl⟩, rfl, rfl⟩
    rename_i hdefault
    split
    · rename_i hesc
      rw [if_pos hesc] at ht
      simp only [State.setEscape_parser_curRxStream, ht]
      exact ⟨_, _, rfl, ⟨.inl rfl, rfl, rfl⟩, rfl, rfl⟩
    split
    · exact ⟨_, _, rfl, ⟨.inl rfl, rfl, rfl⟩, rfl, rfl⟩
    · exact ⟨_, _, rfl, ⟨.inr (.inr ⟨hdefault, rfl⟩), rfl, rfl⟩, rfl, rfl⟩
  | false =>
    simp only [innerTarget, hc, hx, Bool.false_eq_true, if_false] at ht
    simp only [MovesOnly, feedVirtiosoByte, hc, hx, Bool.false_eq_true, if_false]
    split
    · exact ⟨_, _, rfl, ⟨.inl rfl, rfl, rfl⟩, rfl, rfl⟩
    · rename_i hstart
      rw [if_neg hstart] at ht
      cases hcur : h.parser.curRxStream with
      | none =>
        simp only [hcur] at ht
        split at ht
        · cases ht
        · rename_i hmax
          simp only [if_neg hmax]
          exact ⟨_, _, rfl, ⟨.inl rfl, rfl, rfl⟩, rfl, rfl⟩
      | some i =>
        simp only [hcur] at ht
        cases ht

/-- A byte that is not written and completes nothing moves the parser. -/
theorem feed_movesOnly (ht : innerTarget h ch = none) (hannounced : completedAnnouncement h ch = none)
    (hregistry : completedRegistry h ch = none) : MovesOnly env h ch := by
  cases hc : h.parser.controlState with
  | cmd => exact cmd_movesOnly hc
  | registryLenHi =>
    simp only [MovesOnly, feedVirtiosoByte, hc]
    exact ⟨_, _, rfl, ⟨.inl rfl, rfl, rfl⟩, rfl, rfl⟩
  | announceLenHi =>
    simp only [MovesOnly, feedVirtiosoByte, hc]
    exact ⟨_, _, rfl, ⟨.inl rfl, rfl, rfl⟩, rfl, rfl⟩
  | registryLenLo =>
    obtain ⟨p, heq, hm, hseen⟩ := controlLenLo_moves (env.now h).calloc h ch .registryJson
    exact ⟨p, h.downlinkAckCount, by simp only [feedVirtiosoByte, hc, heq], hm, hseen⟩
  | announceLenLo =>
    obtain ⟨p, heq, hm, hseen⟩ := controlLenLo_moves (env.now h).calloc h ch .announcePayload
    exact ⟨p, h.downlinkAckCount, by simp only [feedVirtiosoByte, hc, heq], hm, hseen⟩
  | registryJson => exact registryJson_movesOnly hc hregistry
  | announcePayload => exact announcePayload_movesOnly hc hannounced
  | idle => exact idle_movesOnly hc ht

end MovesOnly

/-- A byte moves the parser, is written to a slot, or completes a record. -/
theorem feedVirtiosoByte_cases (env : Env) (h : State) (ch : Byte) :
    (∃ p acks, feedVirtiosoByte env h ch = ({ h with parser := p, downlinkAckCount := acks }, 0) ∧ Moves h ch p ∧
      p.seenN = h.parser.seenN ∧ p.seenR = h.parser.seenR) ∨
    (∃ i, innerTarget h ch = some i ∧ feedVirtiosoByte env h ch = patch2flushStream env (h.setEscape false) i ch) ∨
    (∃ sid name, completedAnnouncement h ch = some (sid, name) ∧
      feedVirtiosoByte env h ch = ((applyVirtiosoStreamConnected env (storePayload h ch) sid name).endRecord, 0)) ∨
    (∃ json, completedRegistry h ch = some json ∧
      feedVirtiosoByte env h ch =
        if (applyVirtiosoRegistryJson env (withRegistry h ch json) json).2 then
          ((applyVirtiosoRegistryJson env (withRegistry h ch json) json).1.setControl .idle, 0)
        else ((applyVirtiosoRegistryJson env (withRegistry h ch json) json).1, -1)) := by
  cases ht : innerTarget h ch with
  | some i => exact .inr (.inl ⟨i, rfl, feed_target ht⟩)
  | none =>
    cases hannounced : completedAnnouncement h ch with
    | some a => exact .inr (.inr (.inl ⟨a.1, a.2, rfl, feed_completedAnnouncement hannounced⟩))
    | none =>
      cases hregistry : completedRegistry h ch with
      | some json => exact .inr (.inr (.inr ⟨json, rfl, feed_completedRegistry hregistry⟩))
      | none => exact .inl (feed_movesOnly ht hannounced hregistry)

end VirtiosoMux.Host
