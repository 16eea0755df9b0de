import VirtiosoMux.Host.Outer

/-! # The demuxer under arbitrary input

The line is not trusted and any system call may fail. What one byte can do to the stream table
and to the parser is enough for the invariants of every run.
-/
namespace VirtiosoMux.Host

/-! ### The stream table -/

section Table
variable {P : Tag → Prop} {t t' : Table}

theorem Table.Slots.unchanged (hs : t.Slots P) (hu : t.Unchanged t') : t'.Slots P := by
  have hb := hs.builtin
  have hn := hu.numProc
  refine ⟨by omega, ?_, ?_, ?_⟩
  · intro i hi
    rw [hu.tags i (by omega)]
    exact hs.zero i hi
  · intro i h3 hi
    rw [hu.tags i (by omega)]
    exact hs.holds i h3 (by omega)
  · intro i j h3i hi h3j hj hv
    rw [hu.tags i (by omega), hu.tags j (by omega)] at hv
    exact hs.distinct i j h3i (by omega) h3j (by omega) hv

theorem connect_eq {id : Byte} (hf : findVirtiosoPtyIdxByStreamId t id = none) (hcap : t.numProc < ptyCapacity)
    (name : Bytes) : (t.connect id name).tags =
        Function.update t.tags t.numProc ⟨some (cString (name.take 255)), id⟩ ∧
      (t.connect id name).numProc = t.numProc + 1 ∧ (t.connect id name).ptyMaxCount = t.numProc + 1 := by
  rw [connect_fresh hf hcap name]
  exact ⟨rfl, rfl, rfl⟩

theorem Table.Slots.connected (hs : t.Slots P) {id : Byte} (hf : findVirtiosoPtyIdxByStreamId t id = none)
    (hcap : t.numProc < ptyCapacity) {name : Bytes} (htag : P ⟨some (cString (name.take 255)), id⟩) :
    (t.connect id name).Slots P := by
  obtain ⟨htags, hcount, -⟩ := connect_eq hf hcap name
  exact hs.add htag (find_eq_none_iff.mp hf) htags hcount

def AppendedTags (P : Tag → Prop) (entries : List (Option Entry)) : Prop :=
  ∀ e, some e ∈ entries → 0 ≤ e.streamId → ¬ Reserved (UInt8.ofNat e.streamId.toNat) →
    P ⟨some e.name, UInt8.ofNat e.streamId.toNat⟩

theorem Table.Slots.scanned (hs : t.Slots P) {entries : List (Option Entry)} (hp : AppendedTags P entries) :
    ((t.scan entries).1.table t).Slots P := by
  refine addEntries_invariant (I := fun s => (s.table t).Slots P) ?_
    (s := ⟨t.tags, t.inputEnabled, t.numProc⟩) ⟨hs.builtin, hs.zero, hs.holds, hs.distinct⟩
  intro s e s' hslots he hadd
  rcases addEntry_cases hadd with ⟨-, rfl⟩ | ⟨hpos, hid, -, hnew, rfl⟩
  · exact hslots
  · exact hslots.add (hp e he hpos hid) (fun i hi => (hnew i hi).1) rfl rfl

theorem scan_count_le (t : Table) (hle : t.numProc ≤ virtiosoMaxPtyCount) (entries : List (Option Entry)) :
    (t.scan entries).1.count ≤ virtiosoMaxPtyCount := by
  refine addEntries_invariant (I := fun s => s.count ≤ virtiosoMaxPtyCount) ?_
    (s := ⟨t.tags, t.inputEnabled, t.numProc⟩) hle
  intro s e s' hs _ hadd
  rcases addEntry_cases hadd with ⟨-, rfl⟩ | ⟨-, -, hfull, -, rfl⟩
  · exact hs
  · simp only
    omega

end Table

/-! ### One byte and the table -/

/-- What the records completed by one byte can do to the table: `announced` is the announcement
and `entries` are the entries of the registry, if there is one. -/
inductive Table.Change (announced : Option (Byte × Bytes)) (entries : Option (List (Option Entry))) (t : Table) : Table → Prop
  | unchanged {t' : Table} (hu : t.Unchanged t') : Change announced entries t t'
  | connected {sid : Byte} {name : Bytes} (hdone : announced = some (sid, name))
      (hnew : findVirtiosoPtyIdxByStreamId t sid = none) (hcap : t.numProc < ptyCapacity) :
      Change announced entries t (t.connect sid name)
  | scanned {es : List (Option Entry)} (hdone : entries = some es) : Change announced entries t ((t.scan es).1.table t)

def completedEntries (env : Env) (h : State) (ch : Byte) : Option (List (Option Entry)) :=
  (completedRegistry h ch).bind (jsonEntries (env.now h).xstrndup)

theorem feedVirtiosoByte_table (env : Env) (h : State) (ch : Byte) :
    h.table.Change (completedAnnouncement h ch) (completedEntries env h ch) (feedVirtiosoByte env h ch).1.table := by
  rcases feedVirtiosoByte_cases env h ch with ⟨p, acks, heq, -⟩ | ⟨i, -, heq⟩ | ⟨sid, name, hdone, heq⟩ |
    ⟨json, hdone, heq⟩
  · rw [heq]
    exact .unchanged (.refl _)
  · obtain ⟨pd, n, r, ret, hwrite⟩ := patch2flushStream_slot env (h.setEscape false) i ch
    rw [heq, hwrite]
    exact .unchanged (.refl _)
  · obtain ⟨t, pd, out, happly, -, -, hcases⟩ := applyVirtiosoStreamConnected_cases env (storePayload h ch) sid name
    rw [heq, happly]
    rcases hcases with ⟨hf, hcap, rfl⟩ | hu
    · exact .connected hdone hf hcap
    · exact .unchanged hu
  · rcases applyVirtiosoRegistryJson_cases env (withRegistry h ch json) json with
      ⟨entries, pd, out, hentries, -, happly, -⟩ | ⟨t, pd, out, happly, hu, -⟩
    · have hdone' : completedEntries env h ch = some entries := by
        rw [completedEntries, hdone]
        exact hentries
      rw [heq, happly]
      exact .scanned hdone'
    · rw [heq, happly]
      exact .unchanged hu

/-- No byte takes an entry away. -/
theorem Table.Change.numProc_le {t t' : Table} {announced : Option (Byte × Bytes)} {entries : Option (List (Option Entry))}
    (hchange : t.Change announced entries t') : t.numProc ≤ t'.numProc := by
  cases hchange with
  | unchanged hu => exact hu.numProc.ge
  | @connected sid name _ hnew hcap =>
    rw [(connect_eq hnew hcap name).2.1]
    exact Nat.le_succ _
  | scanned _ => exact addEntries_count ⟨t.tags, t.inputEnabled, t.numProc⟩ _

/-- What every permitted record keeps, a byte keeps. -/
theorem Table.Slots.change {P : Tag → Prop} {t t' : Table} (hs : t.Slots P) {announced : Option (Byte × Bytes)}
    {entries : Option (List (Option Entry))} (hchange : t.Change announced entries t')
    (hann : ∀ sid name, announced = some (sid, name) → findVirtiosoPtyIdxByStreamId t sid = none →
      P ⟨some (cString (name.take 255)), sid⟩)
    (hreg : ∀ es, entries = some es → AppendedTags P es) : t'.Slots P := by
  cases hchange with
  | unchanged hu => exact hs.unchanged hu
  | connected hdone hnew hcap => exact hs.connected hnew hcap (hann _ _ hdone hnew)
  | scanned hdone => exact hs.scanned (hreg _ hdone)

/-! ### The parser and the slots -/

/-- While the payload of a record is read, its buffer has one byte more than the record; the
low byte of the length is read when the high byte is known. -/
def Parser.RecordSound (p : Parser) : Prop :=
  match p.controlState with
  | .registryJson | .announcePayload => ∃ buffer, p.registryJson = some buffer ∧ buffer.length = p.registryLen + 1 ∧
      1 ≤ p.registryLen ∧ p.registryLen ≤ 65535 ∧ p.registryPos < p.registryLen
  | .registryLenLo | .announceLenLo => p.registryJson = none ∧ ∃ hi : Byte, p.registryLen = hi.toNat <<< 8
  | _ => p.registryJson = none

theorem length_or (hi lo : Byte) : (hi.toNat <<< 8) ||| lo.toNat ≤ 65535 := by
  have h₁ := hi.toNat_lt
  have h₂ := lo.toNat_lt
  rw [← Nat.shiftLeft_add_eq_or_of_lt (by omega), Nat.shiftLeft_eq]
  omega

theorem controlLenLo_record {h : State} (hlen : ∃ hi : Byte, h.parser.registryLen = hi.toNat <<< 8) (calloc : Bool)
    (ch : Byte) {payload : ControlState} (hp : payload = .registryJson ∨ payload = .announcePayload) :
    (controlLenLo calloc h ch payload).parser.RecordSound := by
  obtain ⟨hi, hlen⟩ := hlen
  have hmax := length_or hi ch
  unfold controlLenLo
  dsimp only
  rw [hlen]
  split
  · rfl
  · rename_i hpos
    split
    · have hbuf : ∃ buffer, some (List.replicate ((hi.toNat <<< 8 ||| ch.toNat) + 1) (0 : Byte)) = some buffer ∧
          buffer.length = (hi.toNat <<< 8 ||| ch.toNat) + 1 ∧ 1 ≤ (hi.toNat <<< 8 ||| ch.toNat) ∧
          (hi.toNat <<< 8 ||| ch.toNat) ≤ 65535 ∧ 0 < (hi.toNat <<< 8 ||| ch.toNat) :=
        ⟨_, rfl, List.length_replicate, by omega, hmax, by omega⟩
      rcases hp with rfl | rfl <;> exact hbuf
    · rfl

/-- A payload byte that does not complete its record. -/
theorem storePayload_record {h : State} {ch : Byte}
    (hc : h.parser.controlState = .registryJson ∨ h.parser.controlState = .announcePayload) (hr : h.parser.RecordSound)
    (hmore : ¬ (storePayload h ch).parser.registryLen ≤ (storePayload h ch).parser.registryPos) :
    (storePayload h ch).parser.RecordSound := by
  have hbuf : ∃ buffer, h.parser.registryJson = some buffer ∧ buffer.length = h.parser.registryLen + 1 ∧
      1 ≤ h.parser.registryLen ∧ h.parser.registryLen ≤ 65535 ∧ h.parser.registryPos < h.parser.registryLen := by
    rcases hc with hc | hc <;> simpa only [Parser.RecordSound, hc] using hr
  obtain ⟨buffer, hjson, hlen, h1, hmax, hpos⟩ := hbuf
  have hnew : ∃ b, (storePayload h ch).parser.registryJson = some b ∧ b.length = h.parser.registryLen + 1 ∧
      1 ≤ h.parser.registryLen ∧ h.parser.registryLen ≤ 65535 ∧ h.parser.registryPos + 1 < h.parser.registryLen := by
    refine ⟨buffer.set h.parser.registryPos ch, by simp [storePayload, hpos, hjson], by simpa using hlen, h1, hmax, ?_⟩
    simp only [storePayload] at hmore
    omega
  have hc' : (storePayload h ch).parser.controlState = h.parser.controlState := rfl
  unfold Parser.RecordSound
  rcases hc with hc | hc <;> (rw [hc', hc]; exact hnew)

theorem recordSound_of_none {p : Parser} (hc : p.controlState = .idle ∨ p.controlState = .cmd)
    (hn : p.registryJson = none) : p.RecordSound := by
  unfold Parser.RecordSound
  rcases hc with hc | hc <;> rw [hc] <;> exact hn

section Record
variable {env : Env} {h : State} {ch : Byte}

theorem registryJson_record (hc : h.parser.controlState = .registryJson) (hr : h.parser.RecordSound)
    (hok : 0 ≤ (feedVirtiosoByte env h ch).2 ∨ completedRegistry h ch = none) :
    (feedVirtiosoByte env h ch).1.parser.RecordSound := by
  by_cases hend : (storePayload h ch).parser.registryLen ≤ (storePayload h ch).parser.registryPos
  · by_cases hg : h.virtiosoRegistryJson = none
    · obtain ⟨json, hdone⟩ : ∃ json, completedRegistry h ch = some json := ⟨_, if_pos ⟨hc, hend, hg⟩⟩
      have hret := hok.resolve_right (by simp [hdone])
      rw [feed_completedRegistry hdone] at hret ⊢
      split at hret
      · rename_i happly
        have hparser := (applyVirtiosoRegistryJson_rest env (withRegistry h ch json) json).1
        rw [if_pos happly]
        rw [withRegistry_parserState] at hparser
        unfold Parser.RecordSound
        simp only [State.setControl_parser_controlState, State.setControl_parser_registryJson, hparser]
      · exact absurd hret (by simp)
    · obtain ⟨json, hg⟩ := Option.ne_none_iff_exists'.mp hg
      have hg' : (storePayload h ch).virtiosoRegistryJson = some json := hg
      simp only [feedVirtiosoByte, hc, if_pos hend, finishRegistry, hg']
      rfl
  · simp only [feedVirtiosoByte, hc, if_neg hend]
    exact storePayload_record (.inl hc) hr hend

theorem announcePayload_record (hc : h.parser.controlState = .announcePayload) (hr : h.parser.RecordSound) :
    (feedVirtiosoByte env h ch).1.parser.RecordSound := by
  by_cases hend : (storePayload h ch).parser.registryLen ≤ (storePayload h ch).parser.registryPos
  · simp only [feedVirtiosoByte, hc, if_pos hend, finishAnnounce]
    split
    · split
      · rfl
      · rfl
    · rfl
  · simp only [feedVirtiosoByte, hc, if_neg hend]
    exact storePayload_record (.inr hc) hr hend

/-- Outside a record there is no buffer, and a byte that is written leaves the parser's record alone. -/
theorem idle_record (hc : h.parser.controlState = .idle) (hnone : h.parser.registryJson = none) :
    (feedVirtiosoByte env h ch).1.parser.RecordSound := by
  have hwrite : ∀ b i, (patch2flushStream env (h.setEscape b) i ch).1.parser.RecordSound := by
    intro b i
    obtain ⟨p, n, r, ret, heq⟩ := patch2flushStream_slot env (h.setEscape b) i ch
    rw [heq]
    exact recordSound_of_none (.inl hc) hnone
  have hsame : h.parser.inEscape = false → h.setEscape false = h := by
    intro hx
    rw [← hx]
    rfl
  simp only [feedVirtiosoByte, hc]
  split
  · split
    · exact recordSound_of_none (.inl hc) hnone
    split
    · split
      · exact hwrite _ _
      · exact recordSound_of_none (.inl hc) hnone
    split
    · exact recordSound_of_none (.inr rfl) hnone
    · exact recordSound_of_none (.inl hc) hnone
  · rename_i hx
    have hplain := hwrite false
    rw [hsame (by simpa using hx)] at hplain
    split
    · exact recordSound_of_none (.inl hc) hnone
    split
    · split
      · exact hplain _
      · exact recordSound_of_none (.inl hc) hnone
    · exact hplain _

theorem feedVirtiosoByte_record (hr : h.parser.RecordSound)
    (hok : 0 ≤ (feedVirtiosoByte env h ch).2 ∨ completedRegistry h ch = none) :
    (feedVirtiosoByte env h ch).1.parser.RecordSound := by
  cases hc : h.parser.controlState with
  | cmd =>
    have hnone : h.parser.registryJson = none := by simpa only [Parser.RecordSound, hc] using hr
    simp only [feedVirtiosoByte, hc, controlCmd]
    split
    · exact hnone
    split
    · exact hnone
    split
    · exact hnone
    · exact hnone
  | registryLenHi =>
    have hnone : h.parser.registryJson = none := by simpa only [Parser.RecordSound, hc] using hr
    simp only [feedVirtiosoByte, hc]
    exact ⟨hnone, ch, rfl⟩
  | announceLenHi =>
    have hnone : h.parser.registryJson = none := by simpa only [Parser.RecordSound, hc] using hr
    simp only [feedVirtiosoByte, hc]
    exact ⟨hnone, ch, rfl⟩
  | registryLenLo =>
    simp only [feedVirtiosoByte, hc]
    refine controlLenLo_record ?_ _ _ (.inl rfl)
    simp only [Parser.RecordSound, hc] at hr
    exact hr.2
  | announceLenLo =>
    simp only [feedVirtiosoByte, hc]
    refine controlLenLo_record ?_ _ _ (.inr rfl)
    simp only [Parser.RecordSound, hc] at hr
    exact hr.2
  | registryJson => exact registryJson_record hc hr hok
  | announcePayload => exact announcePayload_record hc hr
  | idle => exact idle_record hc (by simpa only [Parser.RecordSound, hc] using hr)

end Record

/-- The stream cursor and the outer layer. -/
theorem feedVirtiosoByte_cursor (env : Env) (h : State) (ch : Byte) :
    Moves h ch (feedVirtiosoByte env h ch).1.parser := by
  rcases feedVirtiosoByte_cases env h ch with ⟨p, acks, heq, hm, -⟩ | ⟨i, -, heq⟩ | ⟨sid, name, -, heq⟩ |
    ⟨json, -, heq⟩
  · rw [heq]
    exact hm
  · obtain ⟨pd, n, r, ret, hwrite⟩ := patch2flushStream_slot env (h.setEscape false) i ch
    rw [heq, hwrite]
    exact ⟨.inl rfl, rfl, rfl⟩
  · obtain ⟨t, pd, out, happly, -⟩ := applyVirtiosoStreamConnected_cases env (storePayload h ch) sid name
    rw [heq, happly]
    exact ⟨.inl rfl, rfl, rfl⟩
  · have hparser := (applyVirtiosoRegistryJson_rest env (withRegistry h ch json) json).1
    have hmoves : Moves h ch (applyVirtiosoRegistryJson env (withRegistry h ch json) json).1.parser := by
      rw [hparser]
      exact ⟨.inl rfl, rfl, rfl⟩
    rw [heq]
    split
    · exact ⟨hmoves.current, hmoves.outerInEscape, hmoves.curOuterTag⟩
    · exact hmoves

/-- Of the slots in use only the target is written to. -/
theorem feedVirtiosoByte_slots (env : Env) (h : State) (ch : Byte) {j : Nat} (hj : j < h.table.numProc)
    (ht : innerTarget h ch ≠ some j) : (feedVirtiosoByte env h ch).1.ptyData j = h.ptyData j := by
  rcases feedVirtiosoByte_cases env h ch with ⟨p, acks, heq, -⟩ | ⟨i, hi, heq⟩ | ⟨sid, name, -, heq⟩ | ⟨json, -, heq⟩
  · rw [heq]
  · have hne : j ≠ i := by
      rintro rfl
      exact ht hi
    obtain ⟨pd, n, r, ret, hwrite⟩ := patch2flushStream_slot env (h.setEscape false) i ch
    rw [heq, hwrite]
    exact Function.update_of_ne hne _ _
  · obtain ⟨t, pd, out, happly, hkeep, -⟩ := applyVirtiosoStreamConnected_cases env (storePayload h ch) sid name
    rw [heq, happly]
    exact hkeep j hj
  · have hkeep : (applyVirtiosoRegistryJson env (withRegistry h ch json) json).1.ptyData j = h.ptyData j := by
      rcases applyVirtiosoRegistryJson_cases env (withRegistry h ch json) json with
        ⟨entries, pd, out, -, -, happly, hkeep, -⟩ | ⟨t, pd, out, happly, -, hkeep, -⟩
      · rw [happly]
        exact hkeep j hj
      · rw [happly]
        exact hkeep j hj
    rw [heq]
    split
    · exact hkeep
    · exact hkeep

/-- The line-ending flags belong to the slots. -/
theorem feedVirtiosoByte_seen (env : Env) (h : State) (ch : Byte) {j : Nat} (ht : innerTarget h ch ≠ some j) :
    (feedVirtiosoByte env h ch).1.parser.seenN j = h.parser.seenN j ∧
    (feedVirtiosoByte env h ch).1.parser.seenR j = h.parser.seenR j := by
  rcases feedVirtiosoByte_cases env h ch with ⟨p, acks, heq, -, hn, hr⟩ | ⟨i, hi, heq⟩ | ⟨sid, name, -, heq⟩ |
    ⟨json, -, heq⟩
  · rw [heq]
    exact ⟨congrFun hn j, congrFun hr j⟩
  · have hne : j ≠ i := by
      rintro rfl
      exact ht hi
    obtain ⟨pd, n, r, ret, hwrite⟩ := patch2flushStream_slot env (h.setEscape false) i ch
    rw [heq, hwrite]
    exact ⟨Function.update_of_ne hne _ _, Function.update_of_ne hne _ _⟩
  · obtain ⟨t, pd, out, happly, -⟩ := applyVirtiosoStreamConnected_cases env (storePayload h ch) sid name
    rw [heq, happly]
    exact ⟨rfl, rfl⟩
  · have hparser := (applyVirtiosoRegistryJson_rest env (withRegistry h ch json) json).1
    rw [heq]
    split
    · simp only [State.setControl_parser_seenN, State.setControl_parser_seenR, hparser]
      exact ⟨rfl, rfl⟩
    · rw [hparser]
      exact ⟨rfl, rfl⟩

/-! ### The invariant -/

structure State.Sound (h : State) : Prop where
  counts : h.table.ptyMaxCount = h.table.numProc
  capacity : h.table.numProc ≤ virtiosoMaxPtyCount
  slots : h.table.Slots (fun tag => tag.value ≠ 0)
  current : ∀ i, h.parser.curRxStream = some i → 3 ≤ i ∧ i < h.table.numProc
  record : h.parser.RecordSound
  autopilot : (h.ptyData autopilotControlPtyIdx).log = [] ∧ (h.ptyData autopilotControlPtyIdx).written = []

theorem State.Sound.moment {h : State} (hs : h.Sound) (n : Nat) : State.Sound { h with clock := n } :=
  ⟨hs.counts, hs.capacity, hs.slots, hs.current, hs.record, hs.autopilot⟩

theorem State.Sound.tick {h : State} (hs : h.Sound) : State.Sound { h with clock := h.clock + 1 } := hs.moment _

/-- The inner parser writes to a registered stream or to the default slot. -/
theorem State.Sound.target_ne {h : State} (hs : h.Sound) {ch : Byte} {j : Nat} (hj : j < 3)
    (hdef : j ≠ virtiosoDefaultPtyIdx) : innerTarget h ch ≠ some j := by
  intro ht
  rcases (innerTarget_cases ht).2 with hcur | ⟨-, rfl⟩
  · have := (hs.current j hcur).1
    omega
  · exact hdef rfl

theorem State.Sound.feed_counts {env : Env} {h : State} (hs : h.Sound) (ch : Byte) :
    (feedVirtiosoByte env h ch).1.table.ptyMaxCount = (feedVirtiosoByte env h ch).1.table.numProc ∧
    (feedVirtiosoByte env h ch).1.table.numProc ≤ virtiosoMaxPtyCount ∧
    h.table.numProc ≤ (feedVirtiosoByte env h ch).1.table.numProc := by
  have hcounts := hs.counts
  have hcap := hs.capacity
  have hchange := feedVirtiosoByte_table env h ch
  have hgrow := hchange.numProc_le
  generalize (feedVirtiosoByte env h ch).1.table = t at hchange hgrow ⊢
  cases hchange with
  | unchanged hu =>
    have hn := hu.numProc
    refine ⟨?_, by omega, hgrow⟩
    rcases hu.ptyMaxCount with hm | hm <;> omega
  | @connected sid name hdone hf hlt =>
    obtain ⟨-, hcount, hmax⟩ := connect_eq hf hlt name
    simp only [ptyCapacity] at hlt
    omega
  | scanned hdone => exact ⟨rfl, scan_count_le h.table hcap _, hgrow⟩

theorem State.Sound.feed {env : Env} {h : State} (hs : h.Sound) {ch : Byte}
    (hok : 0 ≤ (feedVirtiosoByte env h ch).2 ∨ completedRegistry h ch = none) :
    (feedVirtiosoByte env h ch).1.Sound := by
  obtain ⟨hcounts, hcap, hgrow⟩ := @State.Sound.feed_counts env _ hs ch
  have hauto : (feedVirtiosoByte env h ch).1.ptyData autopilotControlPtyIdx = h.ptyData autopilotControlPtyIdx := by
    have hb := hs.slots.builtin
    exact feedVirtiosoByte_slots env h ch (by simp only [autopilotControlPtyIdx]; omega) (hs.target_ne (by decide) (by decide))
  refine ⟨hcounts, hcap, ?_, ?_, feedVirtiosoByte_record hs.record hok, by rw [hauto]; exact hs.autopilot⟩
  · refine hs.slots.change (feedVirtiosoByte_table env h ch) ?_ ?_
    · intro sid name _ hf hzero
      have hb := hs.slots.builtin
      exact find_eq_none_iff.mp hf 0 (by omega) ((hs.slots.zero 0 (by omega)).trans hzero.symm)
    · intro entries _ e _ _ hid
      exact (not_reserved_iff.mp hid).1
  · intro i hi
    rcases (feedVirtiosoByte_cursor env h ch).current with hcur | hcur | ⟨hne, hcur⟩
    · rw [hcur] at hi
      obtain ⟨h3, hlt⟩ := hs.current i hi
      exact ⟨h3, by omega⟩
    · rw [hcur] at hi
      cases hi
    · rw [hcur] at hi
      obtain ⟨hlt, hv⟩ := find_value hi
      refine ⟨?_, by omega⟩
      by_contra h3
      exact hne (hv.symm.trans (hs.slots.zero i (by omega)))

/-- The thread starts with the built-in table, an idle parser and nothing logged; of the PTYs
each may have failed to open. -/
theorem start_state (env : Env) : ∃ pd out, start env =
      { parser := Parser.start, table := initVirtiosoTags, ptyData := pd, virtiosoRegistryJson := none,
        downlinkAckCount := 0, stdout := out, clock := 0 } ∧
    (∀ i, (pd i).log = [] ∧ (pd i).written = []) ∧ SessionRecords env out := by
  -- one opening after the other
  have hopen : ∀ (h : State) i name, (∀ j, (h.ptyData j).log = [] ∧ (h.ptyData j).written = []) →
      SessionRecords env h.stdout → ∃ pd out, (createPtyAtIndex env h i name false).1 =
        { h with ptyData := pd, stdout := out } ∧ (∀ j, (pd j).log = [] ∧ (pd j).written = []) ∧
        SessionRecords env out := by
    intro h i name hpd hout
    obtain ⟨p, out, ok, heq, hrec, hp⟩ := createPtyAtIndex_slot env h i name false
    refine ⟨Function.update h.ptyData i p, h.stdout ++ out, by rw [heq]; rfl, ?_, hout.append hrec⟩
    intro j
    by_cases hj : j = i
    · subst hj
      rw [Function.update_self]
      rcases hp with rfl | hp
      · exact hpd j
      · exact hp
    · rw [Function.update_of_ne hj]
      exact hpd j
  let zeroed : State :=
    { parser := Parser.start, table := initVirtiosoTags, ptyData := fun _ => ThreadData.zeroed,
      virtiosoRegistryJson := none, downlinkAckCount := 0, stdout := [], clock := 0 }
  obtain ⟨pd₀, out₀, h₀, hpd₀, hout₀⟩ := hopen zeroed rawCcplexPtyIdx rawCcplexPty (fun _ => ⟨rfl, rfl⟩) (.nil env)
  obtain ⟨pd₁, out₁, h₁, hpd₁, hout₁⟩ := hopen { zeroed with ptyData := pd₀, stdout := out₀ } autopilotControlPtyIdx
    autopilotControlPty hpd₀ hout₀
  obtain ⟨pd₂, out₂, h₂, hpd₂, hout₂⟩ := hopen { zeroed with ptyData := pd₁, stdout := out₁ } virtiosoDefaultPtyIdx
    physicalUartDefaultPty hpd₁ hout₁
  refine ⟨pd₂, out₂, ?_, hpd₂, hout₂⟩
  change (createPtyAtIndex env (createPtyAtIndex env (createPtyAtIndex env zeroed rawCcplexPtyIdx rawCcplexPty false).1
    autopilotControlPtyIdx autopilotControlPty false).1 virtiosoDefaultPtyIdx physicalUartDefaultPty false).1 = _
  rw [h₀, h₁, h₂]

theorem start_sound (env : Env) : (start env).Sound := by
  obtain ⟨pd, out, heq, hpd, -⟩ := start_state env
  rw [heq]
  refine ⟨rfl, show 3 ≤ virtiosoMaxPtyCount by decide, initVirtiosoTags_slots _, ?_, rfl, hpd autopilotControlPtyIdx⟩
  intro i hi
  cases hi

/-! ### Received bytes and runs -/

def receivedAnnouncement (env : Env) (h : State) (ch : Byte) : Option (Byte × Bytes) :=
  (handed env h ch).bind (fun (g, b) => completedAnnouncement g b)

def receivedRegistry (env : Env) (h : State) (ch : Byte) : Option Bytes :=
  (handed env h ch).bind (fun (g, b) => completedRegistry g b)

def receivedEntries (env : Env) (h : State) (ch : Byte) : Option (List (Option Entry)) :=
  (handed env h ch).bind (fun (g, b) => completedEntries env g b)

theorem receive_table (env : Env) (h : State) (ch : Byte) :
    h.table.Change (receivedAnnouncement env h ch) (receivedEntries env h ch) (feedNvidiaOuterOrVirtiosoRaw env h ch).1.table := by
  cases hh : handed env h ch with
  | none =>
    rcases feed_unhanded hh with ⟨p, n, r, heq⟩ | ⟨e, tag, cur, esc, heq, -⟩
    · rw [heq]
      exact .unchanged (.refl _)
    · rw [heq]
      exact .unchanged (.refl _)
  | some res =>
    obtain ⟨g, b⟩ := res
    obtain ⟨p, n, r, e, hg⟩ := handed_state hh
    have htable : g.table = h.table := by rw [hg]; rfl
    have hchange := feedVirtiosoByte_table env g b
    rw [htable] at hchange
    rw [feed_handed hh, receivedAnnouncement, receivedEntries, hh]
    exact hchange

theorem State.Sound.handedState {env : Env} {h g : State} {ch b : Byte} (hs : h.Sound) (hh : handed env h ch = some (g, b)) :
    g.Sound := by
  obtain ⟨p, n, r, e, rfl⟩ := handed_state hh
  exact ⟨hs.counts, hs.capacity, hs.slots, hs.current, hs.record, hs.autopilot⟩

theorem State.Sound.receive {env : Env} {h : State} (hs : h.Sound) {ch : Byte}
    (hok : 0 ≤ (feedNvidiaOuterOrVirtiosoRaw env h ch).2 ∨ receivedRegistry env h ch = none) :
    (feedNvidiaOuterOrVirtiosoRaw env h ch).1.Sound := by
  cases hh : handed env h ch with
  | some res =>
    obtain ⟨g, b⟩ := res
    rw [feed_handed hh] at hok ⊢
    exact (hs.handedState hh).feed (by simpa [receivedRegistry, hh] using hok)
  | none =>
    rcases feed_unhanded hh with ⟨p, n, r, heq⟩ | ⟨e, tag, cur, esc, heq, hcur⟩
    · rw [heq]
      exact ⟨hs.counts, hs.capacity, hs.slots, hs.current, hs.record, hs.autopilot⟩
    · rw [heq]
      refine ⟨hs.counts, hs.capacity, hs.slots, ?_, hs.record, hs.autopilot⟩
      intro i hi
      rcases hcur with hcur | hcur
      · exact hs.current i (hcur ▸ hi)
      · rw [hcur] at hi
        cases hi

/-- `ok` holds of every byte in the state in which the thread takes it. -/
def Along (env : Env) (ok : State → Byte → Prop) : State → Bytes → Prop
  | _, [] => True
  | h, ch :: rest => ok h ch ∧ (0 ≤ (feedNvidiaOuterOrVirtiosoRaw env h ch).2 →
      Along env ok { (feedNvidiaOuterOrVirtiosoRaw env h ch).1 with
        clock := (feedNvidiaOuterOrVirtiosoRaw env h ch).1.clock + 1 } rest)

instance Along.decidable {env : Env} {ok : State → Byte → Prop} [∀ h ch, Decidable (ok h ch)] :
    (h : State) → (bytes : Bytes) → Decidable (Along env ok h bytes)
  | _, [] => inferInstanceAs (Decidable True)
  | h, ch :: rest =>
    have := @Along.decidable env ok _ { (feedNvidiaOuterOrVirtiosoRaw env h ch).1 with
      clock := (feedNvidiaOuterOrVirtiosoRaw env h ch).1.clock + 1 } rest
    inferInstanceAs (Decidable (_ ∧ (_ → _)))

theorem along_of_forall {env : Env} {ok : State → Byte → Prop} (hok : ∀ h ch, ok h ch) (h : State) (bytes : Bytes) :
    Along env ok h bytes := by
  induction bytes generalizing h with
  | nil => trivial
  | cons ch rest ih => exact ⟨hok h ch, fun _ => ih _⟩

/-- What the start satisfies and every permitted byte keeps holds at the end, also if the last
byte ends the thread. -/
theorem handler_invariant {env : Env} {ok : State → Byte → Prop} {I : State → Prop}
    (htick : ∀ h, I h → I { h with clock := h.clock + 1 })
    (hstep : ∀ h ch, I h → ok h ch → I (feedNvidiaOuterOrVirtiosoRaw env h ch).1) {h : State} (hI : I h) {bytes : Bytes}
    (halong : Along env ok h bytes) : I (ttyInputHandler env h bytes).1 := by
  induction bytes generalizing h with
  | nil => exact hI
  | cons ch rest ih =>
    obtain ⟨hch, hrest⟩ := halong
    have hnext := hstep h ch hI hch
    rw [ttyInputHandler]
    dsimp only
    split
    · exact hnext
    · rename_i hret
      exact ih (htick _ hnext) (hrest (by omega))

/-- What every byte keeps that does not end the thread holds while it runs. -/
theorem running_invariant {env : Env} {I : State → Prop} (htick : ∀ h, I h → I { h with clock := h.clock + 1 })
    (hstep : ∀ h ch, I h → 0 ≤ (feedNvidiaOuterOrVirtiosoRaw env h ch).2 → I (feedNvidiaOuterOrVirtiosoRaw env h ch).1)
    {h h' : State} (hI : I h) {bytes : Bytes} (hrun : ttyInputHandler env h bytes = (h', true)) : I h' := by
  induction bytes generalizing h with
  | nil =>
    cases hrun
    exact hI
  | cons ch rest ih =>
    rw [ttyInputHandler] at hrun
    dsimp only at hrun
    split at hrun
    · cases hrun
    · rename_i hret
      exact ih (htick _ (hstep h ch hI (by omega))) hrun

theorem reached_sound {env : Env} {h : State} {bytes : Bytes} (hrun : ttyInputHandler env (start env) bytes = (h, true)) :
    h.Sound :=
  running_invariant (fun _ hs => hs.tick) (fun _ _ hs hret => hs.receive (.inl hret)) (start_sound env) hrun

end VirtiosoMux.Host
