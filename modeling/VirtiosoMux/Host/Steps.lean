import VirtiosoMux.Host.Demux

/-! # Single steps of the demuxer when the system calls succeed

With line patching and timestamps off and every call succeeding, one byte either
moves the parser or appends one byte to one log. Each lemma below is one row of the
parser's transition table; the run lemmas are assembled from them.
-/
namespace VirtiosoMux.Host

/-- Line patching and timestamps are off, logs are kept, and no system call fails.
A PTY master may still refuse a byte with one of the tolerated errors. -/
structure Env.Healthy (env : Env) : Prop where
  noPatch : env.disablePatch = true
  noStamp : env.logTimestampEnabled = false
  saves : env.saveOutputPath.isSome = true
  logOk : ∀ n i k, ((env.io n).flush i k).logOk = true
  ptyOk : ∀ n i k, ((env.io n).flush i k).pty ≠ .error
  master : ∀ n i, ((env.io n).pty i).master = true
  logOpen : ∀ n i, ((env.io n).pty i).logOpen = true
  slave : ∀ n i, ((env.io n).pty i).slave = true
  thread : ∀ n i, ((env.io n).pty i).thread = true
  calloc : ∀ n, (env.io n).calloc = true
  xstrndup : ∀ n k, (env.io n).xstrndup k = true

def quietEnv : Env where
  disablePatch := true
  logTimestampEnabled := false
  virtiosoOuterMode := .raw
  virtiosoOuterTagIdx := 0
  saveOutputPath := some (ascii "logs")
  io _ :=
    { flush := fun _ _ => ⟨[], true, true, .ok⟩, pty := fun _ => ⟨true, true, ascii "/dev/pts/7", true, true⟩,
      calloc := true, xstrndup := fun _ => true }

theorem quietEnv_healthy : quietEnv.Healthy := by
  constructor <;> intros <;> first | rfl | simp [quietEnv]

/-- Every open slot logs, unused slots have logged nothing, and the three built-in
slots are present. -/
structure State.Ready (h : State) : Prop where
  counts : h.table.ptyMaxCount = h.table.numProc
  builtin : 3 ≤ h.table.numProc
  logFd : ∀ i < h.table.numProc, (h.ptyData i).logFd = true
  unused : ∀ i, h.table.numProc ≤ i → h.log i = []

structure State.Logging (h : State) : Prop where
  counts : h.table.ptyMaxCount = h.table.numProc
  builtin : 3 ≤ h.table.numProc
  logFd : ∀ i < h.table.numProc, (h.ptyData i).logFd = true

theorem State.Ready.logging {h : State} (hr : h.Ready) : h.Logging := ⟨hr.counts, hr.builtin, hr.logFd⟩

def State.deliver (h : State) (env : Env) (i : Nat) (ch : Byte) : State :=
  h.setPty i { h.ptyData i with
    log := (h.ptyData i).log ++ [ch]
    written := if ((env.now h).flush i 2).pty = .ok then (h.ptyData i).written ++ [ch]
      else (h.ptyData i).written }

section Deliver
variable (h : State) (env : Env) (i : Nat) (ch : Byte)

@[simp] theorem deliver_parserState : (h.deliver env i ch).parser = h.parser := rfl
@[simp] theorem deliver_table : (h.deliver env i ch).table = h.table := rfl
@[simp] theorem deliver_clock : (h.deliver env i ch).clock = h.clock := rfl
@[simp] theorem deliver_acks : (h.deliver env i ch).downlinkAckCount = h.downlinkAckCount := rfl
@[simp] theorem deliver_registry : (h.deliver env i ch).virtiosoRegistryJson = h.virtiosoRegistryJson := rfl
@[simp] theorem deliver_now : env.now (h.deliver env i ch) = env.now h := rfl

@[simp] theorem deliver_log (j : Nat) :
    (h.deliver env i ch).log j = h.log j ++ (if j = i then [ch] else []) := by
  by_cases hj : j = i
  · subst hj; simp [State.deliver, State.setPty, State.log]
  · simp [State.deliver, State.setPty, State.log, hj]

@[simp] theorem deliver_logFd (j : Nat) :
    ((h.deliver env i ch).ptyData j).logFd = (h.ptyData j).logFd := by
  by_cases hj : j = i
  · subst hj; simp [State.deliver, State.setPty]
  · simp [State.deliver, State.setPty, hj]

end Deliver

theorem State.Ready.deliver {h : State} (hr : h.Ready) (env : Env) {i : Nat} (hi : i < h.table.numProc)
    (ch : Byte) : (h.deliver env i ch).Ready := by
  refine ⟨hr.counts, hr.builtin, ?_, ?_⟩
  · intro j hj
    simpa using hr.logFd j hj
  · intro j hj
    have hne : j ≠ i := by simp only [deliver_table] at hj; omega
    simp only [deliver_log, if_neg hne, List.append_nil]
    exact hr.unused j hj

/-- Readiness only looks at the table and the open slots. -/
theorem State.Ready.of_eq {h h' : State} (hr : h.Ready) (ht : h'.table = h.table)
    (hp : h'.ptyData = h.ptyData) : h'.Ready := by
  refine ⟨by rw [ht]; exact hr.counts, by rw [ht]; exact hr.builtin, ?_, ?_⟩
  · intro i hi
    rw [hp]
    exact hr.logFd i (by rwa [ht] at hi)
  · intro i hi
    have := hr.unused i (by rwa [ht] at hi)
    simpa only [State.log, hp] using this

variable {env : Env} (he : env.Healthy)
include he

theorem patch2flushStream_healthy {h : State} (hr : h.Logging) {i : Nat} (hi : i < h.table.numProc) (ch : Byte) :
    patch2flushStream env h i ch = (h.deliver env i ch, 0) := by
  have hfd := hr.logFd i hi
  have hlog := he.logOk h.clock i 2
  have hpty := he.ptyOk h.clock i 2
  have hmax : i < h.table.ptyMaxCount := by rw [hr.counts]; exact hi
  cases hw : ((env.io h.clock).flush i 2).pty with
  | error => exact absurd hw hpty
  | ok =>
    simp [patch2flushStream, flushStream, he.noPatch, he.noStamp, Env.now, hfd, hlog, hmax, hw, State.deliver]
  | again =>
    simp [patch2flushStream, flushStream, he.noPatch, he.noStamp, Env.now, hfd, hlog, hmax, hw, State.deliver]

/-- Successful creation opens the slot with an empty log and prints its record. -/
theorem createPtyAtIndex_healthy (h : State) {i : Nat} (hi : i < ptyCapacity) (name : Bytes) (startThread : Bool) :
    ∃ device out, createPtyAtIndex env h i name startThread =
      ({ h with ptyData := Function.update h.ptyData i ⟨true, device, 0, [], []⟩, stdout := out }, true) := by
  have hi' : ¬ ptyCapacity ≤ i := by omega
  let device := ((env.io h.clock).pty i).deviceName
  refine ⟨device, (emitPtySessionRecord env (h.setPty i ⟨true, device, 0, [], []⟩) i name).stdout, ?_⟩
  simp only [createPtyAtIndex, Env.now, hi', he.master, he.slave, he.thread, he.saves, he.logOpen,
    emitPtySessionRecord, State.setPty, Bool.not_true, Bool.and_false, Bool.and_true, Bool.false_eq_true,
    ↓reduceIte, device]

/-- The receiving thread starts with three open built-in slots and empty logs. -/
theorem start_healthy : (start env).table = initVirtiosoTags ∧ (start env).parser = Parser.start ∧
    (start env).Ready ∧ (∀ i, (start env).log i = []) ∧ (start env).downlinkAckCount = 0 ∧
    (start env).virtiosoRegistryJson = none := by
  let zeroed : State :=
    { parser := Parser.start, table := initVirtiosoTags, ptyData := fun _ => ThreadData.zeroed,
      virtiosoRegistryJson := none, downlinkAckCount := 0, stdout := [], clock := 0 }
  obtain ⟨d₀, o₀, h₀⟩ := createPtyAtIndex_healthy he zeroed (i := rawCcplexPtyIdx) (by decide) rawCcplexPty false
  obtain ⟨d₁, o₁, h₁⟩ := createPtyAtIndex_healthy he (createPtyAtIndex env zeroed rawCcplexPtyIdx rawCcplexPty false).1
    (i := autopilotControlPtyIdx) (by decide) autopilotControlPty false
  obtain ⟨d₂, o₂, h₂⟩ := createPtyAtIndex_healthy he (createPtyAtIndex env
    (createPtyAtIndex env zeroed rawCcplexPtyIdx rawCcplexPty false).1 autopilotControlPtyIdx autopilotControlPty false).1
    (i := virtiosoDefaultPtyIdx) (by decide) physicalUartDefaultPty false
  have hs : start env = { zeroed with
      ptyData := Function.update (Function.update (Function.update zeroed.ptyData rawCcplexPtyIdx ⟨true, d₀, 0, [], []⟩)
        autopilotControlPtyIdx ⟨true, d₁, 0, [], []⟩) virtiosoDefaultPtyIdx ⟨true, d₂, 0, [], []⟩
      stdout := o₂ } := by
    change (createPtyAtIndex env _ virtiosoDefaultPtyIdx physicalUartDefaultPty false).1 = _
    rw [h₂, h₁, h₀]
  have hlog : ∀ i, (start env).log i = [] := by
    intro i
    rw [hs]
    by_cases i2 : i = virtiosoDefaultPtyIdx
    · simp [State.log, i2]
    by_cases i1 : i = autopilotControlPtyIdx
    · simp [State.log, i1, Function.update_apply, autopilotControlPtyIdx, virtiosoDefaultPtyIdx]
    by_cases i0 : i = rawCcplexPtyIdx
    · simp [State.log, i0, Function.update_apply, rawCcplexPtyIdx, autopilotControlPtyIdx, virtiosoDefaultPtyIdx]
    simp [State.log, i0, i1, i2, zeroed, ThreadData.zeroed]
  refine ⟨by rw [hs], by rw [hs], ⟨by rw [hs]; rfl, by rw [hs]; exact Nat.le_refl 3, ?_, fun i _ => hlog i⟩,
    hlog, by rw [hs], by rw [hs]⟩
  intro i hi
  rw [hs] at hi ⊢
  have hcases : i = 0 ∨ i = 1 ∨ i = 2 := by
    have : i < 3 := hi
    omega
  rcases hcases with rfl | rfl | rfl <;> rfl

/-- In raw mode a byte goes to `raw_ccplex` and then to the inner parser. -/
theorem feed_raw (hraw : env.virtiosoOuterMode = .raw) {h : State} (hr : h.Ready) (ch : Byte) :
    feedNvidiaOuterOrVirtiosoRaw env h ch = feedVirtiosoByte env (h.deliver env rawCcplexPtyIdx ch) ch := by
  have hb := hr.builtin
  have hpos : rawCcplexPtyIdx < h.table.numProc := by simp only [rawCcplexPtyIdx]; omega
  have hpos' : rawCcplexPtyIdx < h.table.ptyMaxCount := by rw [hr.counts]; exact hpos
  simp only [feedNvidiaOuterOrVirtiosoRaw, hraw, feedCarrier, if_pos hpos',
    patch2flushStream_healthy he hr.logging hpos, ne_eq, not_true_eq_false, if_false]

section Inner
variable {h : State} (hc : h.parser.controlState = .idle)
include hc

omit he in
theorem feed_escape (hx : h.parser.inEscape = false) :
    feedVirtiosoByte env h vcmuxProtoEscStart = (h.setEscape true, 0) := by
  simp [feedVirtiosoByte, hc, hx]

theorem feed_unframed (hr : h.Logging) (hx : h.parser.inEscape = false) (hcur : h.parser.curRxStream = none)
    {ch : Byte} (hch : ch ≠ vcmuxProtoEscStart) :
    feedVirtiosoByte env h ch = (h.deliver env virtiosoDefaultPtyIdx ch, 0) := by
  have hb := hr.builtin
  have hpos : virtiosoDefaultPtyIdx < h.table.numProc := by simp only [virtiosoDefaultPtyIdx]; omega
  have hpos' : virtiosoDefaultPtyIdx < h.table.ptyMaxCount := by rw [hr.counts]; exact hpos
  simp only [feedVirtiosoByte, hc, hx, hcur, hch, Bool.false_eq_true, ↓reduceIte, if_pos hpos',
    patch2flushStream_healthy he hr hpos]

theorem feed_framed (hr : h.Logging) (hx : h.parser.inEscape = false) {i : Nat}
    (hcur : h.parser.curRxStream = some i) (hi : i < h.table.numProc) {ch : Byte} (hch : ch ≠ vcmuxProtoEscStart) :
    feedVirtiosoByte env h ch = (h.deliver env i ch, 0) := by
  simp only [feedVirtiosoByte, hc, hx, hcur, hch, Bool.false_eq_true, ↓reduceIte,
    patch2flushStream_healthy he hr hi]

theorem feed_literal (hr : h.Logging) (hx : h.parser.inEscape = true) {i : Nat}
    (hcur : h.parser.curRxStream = some i) (hi : i < h.table.numProc) :
    feedVirtiosoByte env h vcmuxProtoEscEsc =
      ((h.setEscape false).deliver env i vcmuxProtoEscEsc, 0) := by
  have hr' : (h.setEscape false).Logging := ⟨hr.counts, hr.builtin, hr.logFd⟩
  simp only [feedVirtiosoByte, hc, hx, ↓reduceIte, State.setEscape_parser_curRxStream, hcur,
    show vcmuxProtoEscEsc ≠ vcmuxProtoEscDefault by decide]
  exact patch2flushStream_healthy he hr' hi _

omit he in
theorem feed_close (hx : h.parser.inEscape = true) :
    feedVirtiosoByte env h vcmuxProtoEscDefault =
      ((h.setEscape false).setStream none, 0) := by
  simp only [feedVirtiosoByte, hc, hx, ↓reduceIte]

omit he in
theorem feed_control (hx : h.parser.inEscape = true) :
    feedVirtiosoByte env h vcmuxProtoEscControl =
      ((h.setEscape false).setControl .cmd, 0) := by
  simp only [feedVirtiosoByte, hc, hx, ↓reduceIte,
    show vcmuxProtoEscControl ≠ vcmuxProtoEscDefault by decide, show vcmuxProtoEscControl ≠ vcmuxProtoEscEsc by decide]

omit he in
theorem feed_select (hx : h.parser.inEscape = true) {id : Byte} (hid : ¬ Reserved id) :
    feedVirtiosoByte env h id =
      ((h.setEscape false).setStream (findVirtiosoPtyIdxByStreamId h.table id), 0) := by
  obtain ⟨h0, h1, h2⟩ := not_reserved_iff.mp hid
  simp only [feedVirtiosoByte, hc, hx, ↓reduceIte, h0, h1, h2, State.setEscape_table]

end Inner

end VirtiosoMux.Host
