import VirtiosoMux.Host.Invariant

/-! # Two runs of the inner layer

The inner layer neither reads nor writes the slot of `raw_ccplex`, the outer cursors and the
clock, and between records it does not read the fields of the last record. Two states that agree
on the rest, with the same outcomes of the system calls, agree after every byte.
-/
namespace VirtiosoMux.Host

structure SameCalls (env : Env) (n : Nat) (env' : Env) (n' : Nat) : Prop where
  patch : env'.disablePatch = env.disablePatch
  stamp : env'.logTimestampEnabled = env.logTimestampEnabled
  save : env'.saveOutputPath = env.saveOutputPath
  io : env'.io n' = env.io n

structure SameStreams (h h' : State) : Prop where
  table : h'.table = h.table
  ptyData : ∀ i, i ≠ rawCcplexPtyIdx → h'.ptyData i = h.ptyData i
  registry : h'.virtiosoRegistryJson = h.virtiosoRegistryJson
  acks : h'.downlinkAckCount = h.downlinkAckCount
  stdout : h'.stdout = h.stdout

def ControlState.ReadsLength (c : ControlState) : Prop := c ≠ .idle ∧ c ≠ .cmd

def ControlState.ReadsType (c : ControlState) : Prop := c = .announceLenHi ∨ c = .announceLenLo ∨ c = .announcePayload

/-- The parsers agree on what is still read; if `exact` holds, also on the rest. -/
structure Parser.Agree (exact : Prop) (p p' : Parser) : Prop where
  inEscape : p'.inEscape = p.inEscape
  curRxStream : p'.curRxStream = p.curRxStream
  controlState : p'.controlState = p.controlState
  registryJson : p'.registryJson = p.registryJson
  seenN : ∀ i, i ≠ rawCcplexPtyIdx → p'.seenN i = p.seenN i
  seenR : ∀ i, i ≠ rawCcplexPtyIdx → p'.seenR i = p.seenR i
  length : exact ∨ p.controlState.ReadsLength → p'.registryLen = p.registryLen ∧ p'.registryPos = p.registryPos
  pending : exact ∨ p.controlState.ReadsType → p'.pendingCtrlType = p.pendingCtrlType

structure State.Agree (exact : Prop) (h h' : State) : Prop where
  streams : SameStreams h h'
  inner : Parser.Agree exact h.parser h'.parser

theorem SameStreams.refl (h : State) : SameStreams h h := ⟨rfl, fun _ _ => rfl, rfl, rfl, rfl⟩

theorem Parser.Agree.refl (exact : Prop) (p : Parser) : Parser.Agree exact p p :=
  ⟨rfl, rfl, rfl, rfl, fun _ _ => rfl, fun _ _ => rfl, fun _ => ⟨rfl, rfl⟩, fun _ => rfl⟩

theorem State.Agree.refl (exact : Prop) (h : State) : h.Agree exact h := ⟨.refl h, .refl exact h.parser⟩

section Write
variable {env env' : Env} {h h' : State} {i : Nat}

theorem SameStreams.setPty (hs : SameStreams h h') (i : Nat) (p : ThreadData) :
    SameStreams (h.setPty i p) (h'.setPty i p) := by
  refine ⟨hs.table, ?_, hs.registry, hs.acks, hs.stdout⟩
  intro j hj
  by_cases hji : j = i
  · subst hji
    simp [State.setPty]
  · simp only [State.setPty, Function.update_of_ne hji]
    exact hs.ptyData j hj

theorem SameStreams.setTable (hs : SameStreams h h') (t : Table) : SameStreams { h with table := t } { h' with table := t } :=
  ⟨rfl, hs.ptyData, hs.registry, hs.acks, hs.stdout⟩

theorem State.Agree.setSlot {exact : Prop} (ha : h.Agree exact h') (i : Nat) (p : ThreadData) (n r : Bool) :
    State.Agree exact ((h.setPty i p).setSeen i n r) ((h'.setPty i p).setSeen i n r) := by
  have hseen : ∀ (f f' : Nat → Bool) (b : Bool), (∀ j, j ≠ rawCcplexPtyIdx → f' j = f j) →
      ∀ j, j ≠ rawCcplexPtyIdx → Function.update f' i b j = Function.update f i b j := by
    intro f f' b hf j hj
    by_cases hji : j = i
    · subst hji
      simp
    · rw [Function.update_of_ne hji, Function.update_of_ne hji]
      exact hf j hj
  obtain ⟨hs, hp⟩ := ha
  obtain ⟨htable, hpty, hreg, hacks, hout⟩ := hs.setPty i p
  exact ⟨⟨htable, hpty, hreg, hacks, hout⟩, ⟨hp.inEscape, hp.curRxStream, hp.controlState, hp.registryJson,
    hseen _ _ n hp.seenN, hseen _ _ r hp.seenR, hp.length, hp.pending⟩⟩

/-- A write to a slot on which the states agree is the same write. -/
theorem flushStream_agree (htable : h'.table = h.table) (hpty : h'.ptyData i = h.ptyData i)
    (hstamp : env'.logTimestampEnabled = env.logTimestampEnabled) (io : FlushIo) (ch : Byte) :
    ∃ p ret, flushStream env io h i ch = (h.setPty i p, ret) ∧ flushStream env' io h' i ch = (h'.setPty i p, ret) := by
  have hself : h'.setPty i (h.ptyData i) = h' := by
    rw [← hpty]
    exact setPty_self h' i
  unfold flushStream
  rw [htable, hpty, hstamp]
  dsimp only
  generalize (if (env.logTimestampEnabled && _) = true then io.timestamp.length else 0) = stampLen
  split
  · split
    · exact ⟨h.ptyData i, -2, by rw [setPty_self], by rw [hself]⟩
    · split
      · cases io.pty <;> exact ⟨_, _, rfl, rfl⟩
      · exact ⟨_, _, rfl, rfl⟩
  · cases io.pty <;> exact ⟨_, _, rfl, rfl⟩

theorem patched_agree (htable : h'.table = h.table) (hpty : h'.ptyData i = h.ptyData i)
    (hn : h'.parser.seenN i = h.parser.seenN i) (hr : h'.parser.seenR i = h.parser.seenR i)
    (hc : SameCalls env h.clock env' h'.clock) (ch : Byte) :
    ∃ p n r, patched env h i ch = (h.setPty i p).setSeen i n r ∧ patched env' h' i ch = (h'.setPty i p).setSeen i n r := by
  have hnow : env'.now h' = env.now h := hc.io
  have hpself : h'.setPty i (h.ptyData i) = h' := by
    rw [← hpty]
    exact setPty_self h' i
  have hsself : h'.setSeen i (h.parser.seenN i) (h.parser.seenR i) = h' := by
    rw [← hn, ← hr]
    exact setSeen_self h' i
  unfold patched
  rw [hnow, hn, hr]
  split
  · exact ⟨h.ptyData i, _, _, by rw [setPty_self], by rw [hpself]⟩
  split
  · exact ⟨h.ptyData i, _, _, by rw [setPty_self], by rw [hpself]⟩
  split
  · obtain ⟨p, ret, heq, heq'⟩ := flushStream_agree htable hpty hc.stamp ((env.now h).flush i 0) 0x0a
    exact ⟨p, _, _, by rw [heq], by rw [heq']⟩
  split
  · obtain ⟨p, ret, heq, heq'⟩ := flushStream_agree htable hpty hc.stamp ((env.now h).flush i 1) 0x0d
    exact ⟨p, _, _, by rw [heq], by rw [heq']⟩
  · exact ⟨h.ptyData i, h.parser.seenN i, h.parser.seenR i, by rw [setPty_self, setSeen_self], by rw [hpself, hsself]⟩

theorem patch2flushStream_agree (htable : h'.table = h.table) (hpty : h'.ptyData i = h.ptyData i)
    (hn : h'.parser.seenN i = h.parser.seenN i) (hr : h'.parser.seenR i = h.parser.seenR i)
    (hc : SameCalls env h.clock env' h'.clock) (ch : Byte) :
    ∃ p n r ret, patch2flushStream env h i ch = ((h.setPty i p).setSeen i n r, ret) ∧
      patch2flushStream env' h' i ch = ((h'.setPty i p).setSeen i n r, ret) := by
  have hnow : env'.now h' = env.now h := hc.io
  rw [patch2flushStream_eq, patch2flushStream_eq, hnow, hc.patch]
  by_cases hpatch : env.disablePatch = true
  · obtain ⟨p, ret, heq, heq'⟩ := flushStream_agree htable hpty hc.stamp ((env.now h).flush i 2) ch
    refine ⟨p, h.parser.seenN i, h.parser.seenR i, ret, ?_, ?_⟩
    · rw [if_pos hpatch, heq]
      exact congrArg (·, ret) (setSeen_self (h.setPty i p) i).symm
    · rw [if_pos hpatch, heq', ← hn, ← hr]
      exact congrArg (·, ret) (setSeen_self (h'.setPty i p) i).symm
  · -- the patch, if any, is an earlier write to the same slot
    obtain ⟨p, n, r, heq, heq'⟩ := patched_agree htable hpty hn hr hc ch
    have hsame : ((h'.setPty i p).setSeen i n r).ptyData i = ((h.setPty i p).setSeen i n r).ptyData i := by
      simp [State.setPty, State.setSeen]
    have htable' : ((h'.setPty i p).setSeen i n r).table = ((h.setPty i p).setSeen i n r).table := htable
    obtain ⟨p', ret, hflush, hflush'⟩ := flushStream_agree htable' hsame hc.stamp ((env.now h).flush i 2) ch
    obtain ⟨n', r', ret', hforget⟩ := forgetLineEnd_slot i n r ret
    refine ⟨p', n', r', ret', ?_, ?_⟩
    · rw [if_neg hpatch, heq, hflush, setSeen_setPty, setPty_setPty, hforget]
    · rw [if_neg hpatch, heq', hflush', setSeen_setPty, setPty_setPty, hforget]

end Write

/-! ### Records -/

section Record
variable {env env' : Env} {h h' : State}

/-- Opening a PTY reads the entry of its slot and the outcomes of the calls. -/
theorem createPtyAtIndex_agree (hs : SameStreams h h') (hc : SameCalls env h.clock env' h'.clock) (i : Nat) (name : Bytes)
    (startThread : Bool) :
    SameStreams (createPtyAtIndex env h i name startThread).1 (createPtyAtIndex env' h' i name startThread).1 ∧
    (createPtyAtIndex env' h' i name startThread).2 = (createPtyAtIndex env h i name startThread).2 := by
  have hnow : env'.now h' = env.now h := hc.io
  have hrecord : ∀ p, SameStreams (emitPtySessionRecord env (h.setPty i p) i name)
      (emitPtySessionRecord env' (h'.setPty i p) i name) := by
    intro p
    obtain ⟨htable, hpty, hreg, hacks, hout⟩ := hs.setPty i p
    refine ⟨htable, hpty, hreg, hacks, ?_⟩
    simp [emitPtySessionRecord, State.setPty, hs.table, hs.stdout, hc.save]
  unfold createPtyAtIndex
  rw [hnow, hc.save]
  dsimp only
  split
  · exact ⟨hs, rfl⟩
  split
  · exact ⟨hs, rfl⟩
  split
  · exact ⟨hs.setPty i _, rfl⟩
  split
  · exact ⟨hrecord _, rfl⟩
  · exact ⟨hrecord _, rfl⟩

theorem createPtyAtIndex_clock (env : Env) (h : State) (i : Nat) (name : Bytes) (startThread : Bool) :
    (createPtyAtIndex env h i name startThread).1.clock = h.clock := by
  obtain ⟨p, out, ok, heq, -, -⟩ := createPtyAtIndex_slot env h i name startThread
  rw [heq]
  rfl

theorem createRegistryPtys_agree (hs : SameStreams h h') (hc : SameCalls env h.clock env' h'.clock) (remaining i : Nat) :
    SameStreams (createRegistryPtys env remaining i h).1 (createRegistryPtys env' remaining i h').1 ∧
    (createRegistryPtys env' remaining i h').2 = (createRegistryPtys env remaining i h).2 := by
  induction remaining generalizing i h h' with
  | zero => exact ⟨hs, rfl⟩
  | succ remaining ih =>
    have htable : h'.table = h.table := hs.table
    rw [createRegistryPtys, createRegistryPtys, htable]
    obtain ⟨hopen, hok⟩ := createPtyAtIndex_agree hs hc i (((h.table.tags i).name).getD []) (h.table.inputEnabled i)
    have hclock := createPtyAtIndex_clock env h i (((h.table.tags i).name).getD []) (h.table.inputEnabled i)
    have hclock' := createPtyAtIndex_clock env' h' i (((h.table.tags i).name).getD []) (h.table.inputEnabled i)
    generalize createPtyAtIndex env h i (((h.table.tags i).name).getD []) (h.table.inputEnabled i) = res at hopen hok hclock
    generalize createPtyAtIndex env' h' i (((h.table.tags i).name).getD []) (h.table.inputEnabled i) = res'
      at hopen hok hclock'
    obtain ⟨g, ok⟩ := res
    obtain ⟨g', ok'⟩ := res'
    cases hok
    dsimp only at hopen hclock hclock' ⊢
    split
    · have hnext : SameStreams { g with table := { g.table with ptyMaxCount := i + 1 } }
          { g' with table := { g'.table with ptyMaxCount := i + 1 } } :=
        ⟨by rw [hopen.table], hopen.ptyData, hopen.registry, hopen.acks, hopen.stdout⟩
      exact ih hnext (by simpa only [hclock, hclock'] using hc) (i + 1)
    · exact ⟨hopen, rfl⟩

theorem SameStreams.rejectRegistry (hs : SameStreams h h') (builtinCount streamCount : Nat) :
    SameStreams (rejectRegistry h builtinCount streamCount) (rejectRegistry h' builtinCount streamCount) := by
  refine ⟨?_, hs.ptyData, hs.registry, hs.acks, hs.stdout⟩
  simp only [Host.rejectRegistry, hs.table]

theorem applyVirtiosoRegistryJson_agree (hs : SameStreams h h') (hc : SameCalls env h.clock env' h'.clock) (json : Bytes) :
    SameStreams (applyVirtiosoRegistryJson env h json).1 (applyVirtiosoRegistryJson env' h' json).1 ∧
    (applyVirtiosoRegistryJson env' h' json).2 = (applyVirtiosoRegistryJson env h json).2 := by
  have hnow : env'.now h' = env.now h := hc.io
  unfold applyVirtiosoRegistryJson
  rw [hnow, hs.table]
  dsimp only
  split
  · exact ⟨hs, rfl⟩
  · generalize registryLoop _ _ _ _ = res
    obtain ⟨s, ok⟩ := res
    dsimp only
    split
    · exact ⟨(hs.setTable _).rejectRegistry _ _, rfl⟩
    · obtain ⟨hopen, hok⟩ := createRegistryPtys_agree (hs.setTable { h.table with
        tags := s.tags, inputEnabled := s.inputEnabled, numProc := s.count, defaultTagIdx := 0 }) hc
        (s.count - h.table.numProc) h.table.numProc
      rw [hok]
      split
      · exact ⟨hopen, rfl⟩
      · exact ⟨hopen.rejectRegistry _ _, rfl⟩

theorem applyVirtiosoStreamConnected_agree (hs : SameStreams h h') (hc : SameCalls env h.clock env' h'.clock)
    (streamId : Byte) (name : Bytes) :
    SameStreams (applyVirtiosoStreamConnected env h streamId name) (applyVirtiosoStreamConnected env' h' streamId name) := by
  have hnow : env'.now h' = env.now h := hc.io
  unfold applyVirtiosoStreamConnected
  rw [hnow, hs.table]
  dsimp only
  split
  · exact hs
  split
  · exact hs
  split
  · exact hs
  · obtain ⟨hopen, hok⟩ := createPtyAtIndex_agree (hs.setTable { h.table with
        tags := Function.update h.table.tags h.table.numProc ⟨some (cString (name.take 255)), streamId⟩
        inputEnabled := Function.update h.table.inputEnabled h.table.numProc false
        numProc := h.table.numProc + 1
        ptyMaxCount := h.table.numProc + 1 }) hc h.table.numProc (cString (name.take 255)) false
    rw [hok]
    split
    · exact hopen
    · refine ⟨?_, hopen.ptyData, hopen.registry, hopen.acks, hopen.stdout⟩
      simp only [hopen.table]

end Record

/-! ### One byte of the inner protocol -/

section Feed
variable {env env' : Env} {h h' : State} {exact : Prop}

theorem State.Agree.move (ha : h.Agree exact h') {p p' : Parser} (hp : Parser.Agree exact p p') :
    State.Agree exact { h with parser := p } { h' with parser := p' } :=
  ⟨⟨ha.streams.table, ha.streams.ptyData, ha.streams.registry, ha.streams.acks, ha.streams.stdout⟩, hp⟩

theorem State.Agree.setEscape (ha : h.Agree exact h') (b : Bool) : State.Agree exact (h.setEscape b) (h'.setEscape b) :=
  have hp := ha.inner
  ha.move ⟨rfl, hp.curRxStream, hp.controlState, hp.registryJson, hp.seenN, hp.seenR, hp.length, hp.pending⟩

theorem State.Agree.setStream (ha : h.Agree exact h') (s : Option Nat) :
    State.Agree exact (h.setStream s) (h'.setStream s) :=
  have hp := ha.inner
  ha.move ⟨hp.inEscape, rfl, hp.controlState, hp.registryJson, hp.seenN, hp.seenR, hp.length, hp.pending⟩

/-- Between records and at the command byte nothing of the last record is read. -/
theorem State.Agree.setControl (ha : h.Agree exact h') {c : ControlState} (hc : c = .idle ∨ c = .cmd) :
    State.Agree exact (h.setControl c) (h'.setControl c) := by
  have hp := ha.inner
  have hlen : ¬ c.ReadsLength := by rcases hc with rfl | rfl <;> simp [ControlState.ReadsLength]
  have htype : ¬ c.ReadsType := by rcases hc with rfl | rfl <;> simp [ControlState.ReadsType]
  exact ha.move ⟨hp.inEscape, hp.curRxStream, rfl, hp.registryJson, hp.seenN, hp.seenR,
    fun hr => hp.length (.inl (hr.resolve_right hlen)), fun hr => hp.pending (.inl (hr.resolve_right htype))⟩

theorem controlCmd_agree (ha : h.Agree exact h') (ch : Byte) : State.Agree exact (controlCmd h ch) (controlCmd h' ch) := by
  have hp := ha.inner
  have hidle : State.Agree exact (h.setControl .idle) (h'.setControl .idle) := ha.setControl (.inl rfl)
  unfold controlCmd
  split
  · exact ha.move ⟨hp.inEscape, hp.curRxStream, rfl, hp.registryJson, hp.seenN, hp.seenR, fun _ => ⟨rfl, rfl⟩,
      fun hr => hp.pending (.inl (hr.resolve_right (by simp [ControlState.ReadsType])))⟩
  split
  · refine ⟨⟨ha.streams.table, ha.streams.ptyData, ha.streams.registry, ?_, ha.streams.stdout⟩, hidle.inner⟩
    simp only [ha.streams.acks]
  split
  · exact ha.move ⟨hp.inEscape, hp.curRxStream, rfl, hp.registryJson, hp.seenN, hp.seenR, fun _ => ⟨rfl, rfl⟩, fun _ => rfl⟩
  · exact hidle

theorem controlLenLo_agree (ha : h.Agree exact h') (hread : h.parser.controlState.ReadsLength) {payload : ControlState}
    (htype : payload.ReadsType → h.parser.controlState.ReadsType) (calloc : Bool) (ch : Byte) :
    State.Agree exact (controlLenLo calloc h ch payload) (controlLenLo calloc h' ch payload) := by
  have hp := ha.inner
  obtain ⟨hlen, -⟩ := hp.length (.inr hread)
  have hpend : exact ∨ payload.ReadsType → h'.parser.pendingCtrlType = h.parser.pendingCtrlType :=
    fun hr => hp.pending (hr.imp_right htype)
  unfold controlLenLo
  dsimp only
  rw [hlen]
  split
  · exact ha.move ⟨hp.inEscape, hp.curRxStream, rfl, rfl, hp.seenN, hp.seenR, fun _ => ⟨rfl, rfl⟩,
      fun hr => hpend (.inl (hr.resolve_right (by simp [ControlState.ReadsType])))⟩
  split
  · exact ha.move ⟨hp.inEscape, hp.curRxStream, rfl, rfl, hp.seenN, hp.seenR, fun _ => ⟨rfl, rfl⟩, hpend⟩
  · exact ha.move ⟨hp.inEscape, hp.curRxStream, rfl, rfl, hp.seenN, hp.seenR, fun _ => ⟨rfl, rfl⟩,
      fun hr => hpend (.inl (hr.resolve_right (by simp [ControlState.ReadsType])))⟩

theorem storePayload_agree (ha : h.Agree exact h') (hread : h.parser.controlState.ReadsLength) (ch : Byte) :
    State.Agree exact (storePayload h ch) (storePayload h' ch) := by
  have hp := ha.inner
  obtain ⟨hlen, hpos⟩ := hp.length (.inr hread)
  refine ha.move ⟨hp.inEscape, hp.curRxStream, hp.controlState, ?_, hp.seenN, hp.seenR, fun _ => ⟨hlen, ?_⟩, hp.pending⟩
  · simp only [hlen, hpos, hp.registryJson]
  · simp only [hpos]

theorem State.Agree.endRecord (ha : h.Agree exact h') : State.Agree exact h.endRecord h'.endRecord :=
  have hp := (ha.setControl (.inl rfl)).inner
  ha.move ⟨hp.inEscape, hp.curRxStream, rfl, rfl, hp.seenN, hp.seenR, hp.length, hp.pending⟩

theorem emitVirtiosoRegistryRecord_agree (ha : h.Agree exact h') :
    State.Agree exact (emitVirtiosoRegistryRecord h) (emitVirtiosoRegistryRecord h') := by
  cases hreg : h.virtiosoRegistryJson with
  | none =>
    have hreg' := ha.streams.registry.trans hreg
    simp only [emitVirtiosoRegistryRecord, hreg, hreg']
    exact ha
  | some json =>
    have hreg' := ha.streams.registry.trans hreg
    simp only [emitVirtiosoRegistryRecord, hreg, hreg']
    exact ⟨⟨ha.streams.table, ha.streams.ptyData, rfl, ha.streams.acks, by rw [ha.streams.stdout]⟩, ha.inner⟩

/-- Applying a registry does not involve the parser. -/
theorem State.Agree.applied (ha : h.Agree exact h') (hc : SameCalls env h.clock env' h'.clock) (json : Bytes) :
    State.Agree exact (applyVirtiosoRegistryJson env h json).1 (applyVirtiosoRegistryJson env' h' json).1 ∧
    (applyVirtiosoRegistryJson env' h' json).2 = (applyVirtiosoRegistryJson env h json).2 := by
  obtain ⟨hstreams, hok⟩ := applyVirtiosoRegistryJson_agree ha.streams hc json
  refine ⟨⟨hstreams, ?_⟩, hok⟩
  rw [(applyVirtiosoRegistryJson_rest env h json).1, (applyVirtiosoRegistryJson_rest env' h' json).1]
  exact ha.inner

theorem finishRegistry_agree (ha : h.Agree exact h') (hc : SameCalls env h.clock env' h'.clock) :
    State.Agree exact (finishRegistry env h).1 (finishRegistry env' h').1 ∧
    (finishRegistry env' h').2 = (finishRegistry env h).2 := by
  have hp := ha.inner
  unfold finishRegistry
  rw [ha.streams.registry]
  split
  · exact ⟨ha.endRecord, rfl⟩
  · rw [hp.registryJson]
    dsimp only
    generalize cString (h.parser.registryJson.getD []) = json
    let g : State := { h with virtiosoRegistryJson := some json, parser := { h.parser with registryJson := none } }
    let g' : State := { h' with virtiosoRegistryJson := some json, parser := { h'.parser with registryJson := none } }
    have hg : g.Agree exact g' :=
      ⟨⟨ha.streams.table, ha.streams.ptyData, rfl, ha.streams.acks, ha.streams.stdout⟩,
        ⟨hp.inEscape, hp.curRxStream, hp.controlState, rfl, hp.seenN, hp.seenR, hp.length, hp.pending⟩⟩
    have hcalls : SameCalls env (emitVirtiosoRegistryRecord g).clock env' (emitVirtiosoRegistryRecord g').clock := hc
    obtain ⟨happly, hok⟩ := (emitVirtiosoRegistryRecord_agree hg).applied hcalls json
    change State.Agree exact
        (if (applyVirtiosoRegistryJson env (emitVirtiosoRegistryRecord g) json).2 then _ else _ : State × Int).1
        (if (applyVirtiosoRegistryJson env' (emitVirtiosoRegistryRecord g') json).2 then _ else _ : State × Int).1 ∧
      (if (applyVirtiosoRegistryJson env' (emitVirtiosoRegistryRecord g') json).2 then _ else _ : State × Int).2 =
        (if (applyVirtiosoRegistryJson env (emitVirtiosoRegistryRecord g) json).2 then _ else _ : State × Int).2
    rw [hok]
    split
    · exact ⟨happly.setControl (.inl rfl), rfl⟩
    · exact ⟨happly, rfl⟩

theorem finishAnnounce_agree (ha : h.Agree exact h') (hc : SameCalls env h.clock env' h'.clock)
    (hcontrol : h.parser.controlState = .announcePayload) :
    State.Agree exact (finishAnnounce env h) (finishAnnounce env' h') := by
  have hp := ha.inner
  have hlen := (hp.length (.inr (by simp [hcontrol, ControlState.ReadsLength]))).1
  have hpend := hp.pending (.inr (by simp [hcontrol, ControlState.ReadsType]))
  unfold finishAnnounce
  rw [hp.registryJson, hlen, hpend]
  split
  · rename_i sid rest _
    split
    · obtain ⟨t, pd, out, heq, -⟩ := applyVirtiosoStreamConnected_cases env h sid (rest.take (h.parser.registryLen - 1))
      obtain ⟨t', pd', out', heq', -⟩ := applyVirtiosoStreamConnected_cases env' h' sid
        (rest.take (h.parser.registryLen - 1))
      refine State.Agree.endRecord ⟨applyVirtiosoStreamConnected_agree ha.streams hc sid _, ?_⟩
      rw [heq, heq']
      exact hp
    · exact ha.endRecord
  · exact ha.endRecord

theorem State.Agree.written (ha : h.Agree exact h') (hc : SameCalls env h.clock env' h'.clock) {i : Nat}
    (hi : i ≠ rawCcplexPtyIdx) (ch : Byte) :
    State.Agree exact (patch2flushStream env h i ch).1 (patch2flushStream env' h' i ch).1 ∧
    (patch2flushStream env' h' i ch).2 = (patch2flushStream env h i ch).2 := by
  obtain ⟨p, n, r, ret, heq, heq'⟩ := patch2flushStream_agree ha.streams.table (ha.streams.ptyData i hi)
    (ha.inner.seenN i hi) (ha.inner.seenR i hi) hc ch
  rw [heq, heq']
  exact ⟨ha.setSlot i p n r, rfl⟩

/-- The same byte in two states that agree: the same result, and the states agree again. -/
theorem feedVirtiosoByte_agree (hs : h.Sound) (ha : h.Agree exact h') (hc : SameCalls env h.clock env' h'.clock) (ch : Byte) :
    State.Agree exact (feedVirtiosoByte env h ch).1 (feedVirtiosoByte env' h' ch).1 ∧
    (feedVirtiosoByte env' h' ch).2 = (feedVirtiosoByte env h ch).2 := by
  have hp := ha.inner
  have hnow : env'.now h' = env.now h := hc.io
  unfold feedVirtiosoByte
  rw [hp.controlState, hnow]
  cases hcontrol : h.parser.controlState with
  | cmd => exact ⟨controlCmd_agree ha ch, rfl⟩
  | registryLenHi =>
    refine ⟨ha.move ⟨hp.inEscape, hp.curRxStream, rfl, hp.registryJson, hp.seenN, hp.seenR, fun _ => ⟨rfl, ?_⟩, ?_⟩, rfl⟩
    · exact (hp.length (.inr (by simp [hcontrol, ControlState.ReadsLength]))).2
    · intro hr
      exact hp.pending (.inl (hr.resolve_right (by simp [ControlState.ReadsType])))
  | announceLenHi =>
    refine ⟨ha.move ⟨hp.inEscape, hp.curRxStream, rfl, hp.registryJson, hp.seenN, hp.seenR, fun _ => ⟨rfl, ?_⟩, ?_⟩, rfl⟩
    · exact (hp.length (.inr (by simp [hcontrol, ControlState.ReadsLength]))).2
    · intro _
      exact hp.pending (.inr (by simp [hcontrol, ControlState.ReadsType]))
  | registryLenLo =>
    exact ⟨controlLenLo_agree ha (by simp [hcontrol, ControlState.ReadsLength]) (by simp [ControlState.ReadsType]) _ ch, rfl⟩
  | announceLenLo =>
    exact ⟨controlLenLo_agree ha (by simp [hcontrol, ControlState.ReadsLength]) (by simp [hcontrol, ControlState.ReadsType])
      _ ch, rfl⟩
  | registryJson =>
    have hread : h.parser.controlState.ReadsLength := by simp [hcontrol, ControlState.ReadsLength]
    have hstore := storePayload_agree ha hread ch
    obtain ⟨hlen, hpos⟩ := hstore.inner.length (.inr hread)
    dsimp only
    rw [hlen, hpos]
    split
    · exact finishRegistry_agree hstore hc
    · exact ⟨hstore, rfl⟩
  | announcePayload =>
    have hread : h.parser.controlState.ReadsLength := by simp [hcontrol, ControlState.ReadsLength]
    have hstore := storePayload_agree ha hread ch
    obtain ⟨hlen, hpos⟩ := hstore.inner.length (.inr hread)
    dsimp only
    rw [hlen, hpos]
    split
    · exact ⟨finishAnnounce_agree hstore hc hcontrol, rfl⟩
    · exact ⟨hstore, rfl⟩
  | idle =>
    -- a byte is written to a stream or to the default slot, never to `raw_ccplex`
    have hplain : ∀ i, i ≠ rawCcplexPtyIdx → _ := fun i hi => ha.written hc hi ch
    have hwrite : ∀ b i, i ≠ rawCcplexPtyIdx → _ := fun b i hi => (ha.setEscape b).written hc hi ch
    have hslot : ∀ i, h.parser.curRxStream = some i → i ≠ rawCcplexPtyIdx := by
      rintro i hcur rfl
      exact absurd (hs.current _ hcur).1 (by decide)
    simp only [hp.inEscape, State.setEscape_parser_curRxStream, hp.curRxStream, State.setEscape_table, ha.streams.table]
    split
    · split
      · exact ⟨(ha.setEscape false).setStream none, rfl⟩
      split
      · split
        · rename_i i hcur
          exact hwrite false i (hslot i hcur)
        · exact ⟨ha.setEscape false, rfl⟩
      split
      · exact ⟨(ha.setEscape false).setControl (.inr rfl), rfl⟩
      · exact ⟨(ha.setEscape false).setStream _, rfl⟩
    · split
      · exact ⟨ha.setEscape true, rfl⟩
      split
      · split
        · exact hplain virtiosoDefaultPtyIdx (by decide)
        · exact ⟨ha, rfl⟩
      · rename_i i hcur
        exact hplain i (hslot i hcur)

end Feed

end VirtiosoMux.Host
