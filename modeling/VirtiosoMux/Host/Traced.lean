import VirtiosoMux.Library.Recorded
import VirtiosoMux.Host.Registered

/-! # The demultiplexer with a record of its accesses

The functions of the receiving path once more. Each access to a table that has
`VIRTIOSO_MAX_PTY_COUNT` entries is recorded with the index it uses, each call on a log or on a
PTY master with its data, all in the order of the source. Without the record they are the
functions of the model.
-/
namespace VirtiosoMux.Host
open Recorded

inductive Event
  | tag (i : Nat)
  | inputEnabled (i : Nat)
  | ptyData (i : Nat)
  | seenN (i : Nat)
  | seenR (i : Nat)
  | openLog (i : Nat) (savefile : Option Bytes)
  | writeLog (i : Nat) (bytes : Bytes)
  | writePty (i : Nat) (ch : Byte)
deriving DecidableEq

/-- The index that is used. A call on a log reads `pty_data` for its descriptor. -/
def Event.index : Event → Nat
  | .tag i | .inputEnabled i | .ptyData i | .seenN i | .seenR i | .openLog i _ | .writeLog i _ | .writePty i _ => i

namespace Traced

/-! ### Opening PTYs -/

def emitPtySessionRecord (env : Env) (h : State) (ptyIdx : Nat) (name : Bytes) : Recording Event State := do
  let pty ← readAt .ptyData h.ptyData ptyIdx
  let tag ← readAt .tag h.table.tags ptyIdx
  pure { h with stdout := h.stdout ++ ptySessionRecord env.saveOutputPath tag.value pty.deviceName name }

/-- The log is opened under its name in the directory of `-s`; without one, or if it cannot be
opened, the slot has no descriptor. -/
def openedLog (env : Env) (logOpen : Bool) (name : Bytes) : Option Bytes :=
  env.saveOutputPath.bind (fun dir => if logOpen then some (savefile dir name) else none)

def createPtyAtIndex (env : Env) (h : State) (ptyIdx : Nat) (name : Bytes) (startThread : Bool) :
    Recording Event (State × Bool) :=
  let io := (env.now h).pty ptyIdx
  if ptyCapacity ≤ ptyIdx then pure (h, false)
  else do
    record (.ptyData ptyIdx)
    if !io.master then pure (h, false)
    else
      record (.openLog ptyIdx (openedLog env io.logOpen name))
      let ptyData ← writeAt .ptyData h.ptyData ptyIdx
        { logFd := env.saveOutputPath.isSome && io.logOpen, deviceName := io.deviceName,
          lastCh := 0, log := [], written := [] }
      let h := { h with ptyData := ptyData }
      if !io.slave then pure (h, false)
      else
        let h ← emitPtySessionRecord env h ptyIdx name
        if startThread && !io.thread then pure (h, false) else pure (h, true)

def start (env : Env) : Recording Event State := do
  let zeroed : State :=
    { parser := Parser.start, table := initVirtiosoTags, ptyData := fun _ => ThreadData.zeroed,
      virtiosoRegistryJson := none, downlinkAckCount := 0, stdout := [], clock := 0 }
  let one ← createPtyAtIndex env zeroed rawCcplexPtyIdx rawCcplexPty false
  let two ← createPtyAtIndex env one.1 autopilotControlPtyIdx autopilotControlPty false
  let three ← createPtyAtIndex env two.1 virtiosoDefaultPtyIdx physicalUartDefaultPty false
  pure three.1

/-! ### Writing one byte -/

def toMaster (io : FlushIo) (h : State) (ptyIdx : Nat) (pty : ThreadData) (ch : Byte) : Recording Event (State × Int) := do
  record (.writePty ptyIdx ch)
  match io.pty with
  | .ok =>
    let ptyData ← writeAt .ptyData h.ptyData ptyIdx { pty with written := pty.written ++ [ch] }
    pure ({ h with ptyData := ptyData }, 0)
  | .again =>
    let ptyData ← writeAt .ptyData h.ptyData ptyIdx pty
    pure ({ h with ptyData := ptyData }, 0)
  | .error =>
    let ptyData ← writeAt .ptyData h.ptyData ptyIdx pty
    pure ({ h with ptyData := ptyData }, -1)

def flushStream (env : Env) (io : FlushIo) (h : State) (ptyIdx : Nat) (ch : Byte) : Recording Event (State × Int) := do
  let pty ← readAt .ptyData h.ptyData ptyIdx
  if ptyIdx < h.table.ptyMaxCount ∧ pty.logFd = true then
    let stamped := env.logTimestampEnabled && (pty.lastCh == 0x0a || pty.lastCh == 0)
    let stampLen := if stamped then io.timestamp.length else 0
    if 0 < stampLen ∧ stampLen < 30 ∧ io.stampOk = false then pure (h, -2)
    else
      let stamp := if 0 < stampLen ∧ stampLen < 30 then io.timestamp else []
      record (.writeLog ptyIdx stamp)
      let lastCh := if env.logTimestampEnabled then ch else pty.lastCh
      if io.logOk then
        record (.writeLog ptyIdx [ch])
        toMaster io h ptyIdx { pty with log := pty.log ++ stamp ++ [ch], lastCh := lastCh } ch
      else
        let ptyData ← writeAt .ptyData h.ptyData ptyIdx { pty with log := pty.log ++ stamp, lastCh := lastCh }
        pure ({ h with ptyData := ptyData }, -3)
  else toMaster io h ptyIdx pty ch

def setSeen (h : State) (i : Nat) (n r : Bool) : Recording Event State := do
  let seenN ← writeAt .seenN h.parser.seenN i n
  let seenR ← writeAt .seenR h.parser.seenR i r
  pure { h with parser := { h.parser with seenN := seenN, seenR := seenR } }

def patched (env : Env) (h : State) (ptyIdx : Nat) (ch : Byte) : Recording Event State := do
  let io := (env.now h).flush ptyIdx
  let seenN ← readAt .seenN h.parser.seenN ptyIdx
  let seenR ← readAt .seenR h.parser.seenR ptyIdx
  if ch = 0x0a then setSeen h ptyIdx true seenR
  else if ch = 0x0d then setSeen h ptyIdx seenN true
  else if seenR then
    let res ← flushStream env (io 0) h ptyIdx 0x0a
    setSeen res.1 ptyIdx false false
  else if seenN then
    let res ← flushStream env (io 1) h ptyIdx 0x0d
    setSeen res.1 ptyIdx false false
  else pure h

def patch2flushStream (env : Env) (h : State) (ptyIdx : Nat) (ch : Byte) : Recording Event (State × Int) := do
  let io := (env.now h).flush ptyIdx
  -- the caller reads the descriptor of the PTY and takes the addresses of its two flags
  record (.ptyData ptyIdx)
  record (.seenN ptyIdx)
  record (.seenR ptyIdx)
  if env.disablePatch then flushStream env (io 2) h ptyIdx ch
  else
    let h ← patched env h ptyIdx ch
    let res ← flushStream env (io 2) h ptyIdx ch
    if res.2 < 0 then pure res
    else
      let seenR ← readAt .seenR res.1.parser.seenR ptyIdx
      let seenN ← readAt .seenN res.1.parser.seenN ptyIdx
      if seenR && seenN then
        let h ← setSeen res.1 ptyIdx false false
        pure (h, 0)
      else pure (res.1, 0)

/-! ### The stream table -/

def findFrom (t : Table) (streamId : Byte) : (n i : Nat) → Recording Event (Option Nat)
  | 0, _ => pure none
  | n + 1, i => do
    let tag ← readAt .tag t.tags i
    if tag.value == streamId then pure (some i) else findFrom t streamId n (i + 1)

def findVirtiosoPtyIdxByStreamId (t : Table) (streamId : Byte) : Recording Event (Option Nat) :=
  findFrom t streamId t.numProc 0

def duplicateFrom (s : RegistryScan) (value : Byte) (name : Bytes) : (n i : Nat) → Recording Event Bool
  | 0, _ => pure false
  | n + 1, i => do
    let tag ← readAt .tag s.tags i
    if tag.value == value || tag.name == some name then pure true else duplicateFrom s value name n (i + 1)

def appendVirtiosoStream (s : RegistryScan) (streamId : Int) (name : Bytes) : Recording Event (Option RegistryScan) :=
  if streamId < 0 then pure (some s)
  else if streamId ≤ 0 ∨ streamId > 0xff ∨ streamId = 0xfe ∨ streamId = 0xfd then pure none
  else do
    let duplicate ← duplicateFrom s (UInt8.ofNat streamId.toNat) name s.count 0
    if duplicate then pure none
    else if s.count = virtiosoMaxPtyCount then pure none
    else
      let tags ← writeAt .tag s.tags s.count ⟨some name, UInt8.ofNat streamId.toNat⟩
      pure (some { s with tags := tags, count := s.count + 1 })

def addEntry (s : RegistryScan) (e : Entry) : Recording Event (Option RegistryScan) := do
  match ← appendVirtiosoStream s e.streamId e.name with
  | none => pure none
  | some s' =>
    if s.count < s'.count then
      let inputEnabled ← writeAt .inputEnabled s'.inputEnabled s.count e.inputEnabled
      pure (some { s' with inputEnabled := inputEnabled })
    else pure (some s')

def addEntries : RegistryScan → List (Option Entry) → Recording Event (RegistryScan × Bool)
  | s, [] => pure (s, true)
  | s, none :: _ => pure (s, false)
  | s, some e :: rest => do
    match ← addEntry s e with
    | none => pure (s, false)
    | some s' => addEntries s' rest

def createRegistryPtys (env : Env) : Nat → Nat → State → Recording Event (State × Bool)
  | 0, _, h => pure (h, true)
  | remaining + 1, i, h => do
    let tag ← readAt .tag h.table.tags i
    let inputEnabled ← readAt .inputEnabled h.table.inputEnabled i
    let res ← createPtyAtIndex env h i (tag.name.getD []) inputEnabled
    if res.2 then
      createRegistryPtys env remaining (i + 1) { res.1 with table := { res.1.table with ptyMaxCount := i + 1 } }
    else pure (res.1, false)

def clearFrom : (n i : Nat) → (Nat → Tag) → Recording Event (Nat → Tag)
  | 0, _, tags => pure tags
  | n + 1, i, tags => do
    let tags ← writeAt .tag tags i Tag.cleared
    clearFrom n (i + 1) tags

def rejectRegistry (h : State) (builtinCount streamCount : Nat) : Recording Event State := do
  let tags ← clearFrom (streamCount - builtinCount) builtinCount h.table.tags
  pure { h with table := { h.table with tags := tags, numProc := builtinCount, ptyMaxCount := builtinCount } }

def applyVirtiosoRegistryJson (env : Env) (h : State) (json : Bytes) : Recording Event (State × Bool) :=
  let builtinCount := h.table.numProc
  match jsonEntries (env.now h).xstrndup json with
  | none => pure (h, false)
  | some entries => do
    let res ← addEntries ⟨h.table.tags, h.table.inputEnabled, builtinCount⟩ entries
    let s := res.1
    let h := { h with table := { h.table with tags := s.tags, inputEnabled := s.inputEnabled } }
    if !res.2 || s.count = builtinCount then
      let h ← rejectRegistry h builtinCount s.count
      pure (h, false)
    else
      let h := { h with table := { h.table with numProc := s.count, defaultTagIdx := 0 } }
      let res ← createRegistryPtys env (s.count - builtinCount) builtinCount h
      if res.2 then pure (res.1, true)
      else
        let h ← rejectRegistry res.1 builtinCount s.count
        pure (h, false)

def applyVirtiosoStreamConnected (env : Env) (h : State) (streamId : Byte) (name : Bytes) : Recording Event State := do
  let found ← findVirtiosoPtyIdxByStreamId h.table streamId
  if found.isSome then pure h
  else if ptyCapacity ≤ h.table.numProc then pure h
  else
    let nameBuf := cString (name.take 255)
    if !(env.now h).xstrndup nameBuf.length then pure h
    else
      let ptyIdx := h.table.numProc
      let tags ← writeAt .tag h.table.tags ptyIdx ⟨some nameBuf, streamId⟩
      let inputEnabled ← writeAt .inputEnabled h.table.inputEnabled ptyIdx false
      let h := { h with table := { h.table with
        tags := tags, inputEnabled := inputEnabled, numProc := ptyIdx + 1, ptyMaxCount := ptyIdx + 1 } }
      let res ← createPtyAtIndex env h ptyIdx nameBuf false
      if res.2 then pure res.1
      else
        let tags ← writeAt .tag res.1.table.tags ptyIdx Tag.cleared
        pure { res.1 with table := { res.1.table with tags := tags, numProc := ptyIdx, ptyMaxCount := ptyIdx } }

/-! ### One byte -/

def finishRegistry (env : Env) (h : State) : Recording Event (State × Int) :=
  match h.virtiosoRegistryJson with
  | some _ => pure (h.endRecord, 0)
  | none => do
    let json := cString (h.parser.registryJson.getD [])
    let h := { h with virtiosoRegistryJson := some json, parser := { h.parser with registryJson := none } }
    let res ← applyVirtiosoRegistryJson env (emitVirtiosoRegistryRecord h) json
    if res.2 then pure (res.1.setControl .idle, 0) else pure (res.1, -1)

def finishAnnounce (env : Env) (h : State) : Recording Event State :=
  match h.parser.registryJson with
  | some (sid :: rest) =>
    if h.parser.pendingCtrlType = vcmuxProtoControlStreamConnected ∧ 1 ≤ h.parser.registryLen then do
      let h' ← applyVirtiosoStreamConnected env h sid (rest.take (h.parser.registryLen - 1))
      pure h'.endRecord
    else pure h.endRecord
  | _ => pure h.endRecord

def feedVirtiosoByte (env : Env) (h : State) (ch : Byte) : Recording Event (State × Int) :=
  match h.parser.controlState with
  | .cmd => pure (controlCmd h ch, 0)
  | .registryLenHi =>
    pure ({ h with parser := { h.parser with registryLen := ch.toNat <<< 8, controlState := .registryLenLo } }, 0)
  | .registryLenLo => pure (controlLenLo (env.now h).calloc h ch .registryJson, 0)
  | .registryJson =>
    let h := storePayload h ch
    if h.parser.registryLen ≤ h.parser.registryPos then finishRegistry env h else pure (h, 0)
  | .announceLenHi =>
    pure ({ h with parser := { h.parser with registryLen := ch.toNat <<< 8, controlState := .announceLenLo } }, 0)
  | .announceLenLo => pure (controlLenLo (env.now h).calloc h ch .announcePayload, 0)
  | .announcePayload =>
    let h := storePayload h ch
    if h.parser.registryLen ≤ h.parser.registryPos then do
      let h' ← finishAnnounce env h
      pure (h', 0)
    else pure (h, 0)
  | .idle =>
    if h.parser.inEscape then
      let h := h.setEscape false
      if ch = vcmuxProtoEscDefault then pure (h.setStream none, 0)
      else if ch = vcmuxProtoEscEsc then
        match h.parser.curRxStream with
        | some i => patch2flushStream env h i ch
        | none => pure (h, 0)
      else if ch = vcmuxProtoEscControl then pure (h.setControl .cmd, 0)
      else do
        let found ← findVirtiosoPtyIdxByStreamId h.table ch
        pure (h.setStream found, 0)
    else if ch = vcmuxProtoEscStart then pure (h.setEscape true, 0)
    else
      match h.parser.curRxStream with
      | none =>
        if virtiosoDefaultPtyIdx < h.table.ptyMaxCount then patch2flushStream env h virtiosoDefaultPtyIdx ch
        else pure (h, 0)
      | some i => patch2flushStream env h i ch

def feedCarrier (env : Env) (h : State) (ch : Byte) : Recording Event (State × Int) :=
  if rawCcplexPtyIdx < h.table.ptyMaxCount then do
    let res ← patch2flushStream env h rawCcplexPtyIdx ch
    if res.2 ≠ 0 then pure (res.1, -1) else feedVirtiosoByte env res.1 ch
  else feedVirtiosoByte env h ch

def feedNvidiaOuterOrVirtiosoRaw (env : Env) (h : State) (ch : Byte) : Recording Event (State × Int) :=
  match env.virtiosoOuterMode with
  | .raw => feedCarrier env h ch
  | .nvidiaTcu =>
    if h.parser.outerInEscape then
      let h := { h with parser := { h.parser with outerInEscape := false } }
      if ch = uartProtoEscEsc then
        if h.parser.curOuterTag = some env.virtiosoOuterTagIdx then feedVirtiosoByte env h uartProtoEscStart
        else pure (h, 0)
      else if ch = uartProtoEscReset then
        pure ({ h with parser := { h.parser with curOuterTag := none, curRxStream := none, inEscape := false } }, 0)
      else
        match chipTags.findIdx? (fun tag => tag.value == ch) with
        | some tagIdx => pure ({ h with parser := { h.parser with curOuterTag := some tagIdx } }, 0)
        | none => pure (h, 0)
    else if ch = uartProtoEscStart then pure ({ h with parser := { h.parser with outerInEscape := true } }, 0)
    else if h.parser.curOuterTag = some env.virtiosoOuterTagIdx then feedCarrier env h ch
    else pure (h, 0)

def ttyInputHandler (env : Env) : State → Bytes → Recording Event (State × Bool)
  | h, [] => pure (h, true)
  | h, ch :: rest => do
    let res ← feedNvidiaOuterOrVirtiosoRaw env h ch
    if res.2 < 0 then pure (res.1, false) else ttyInputHandler env { res.1 with clock := res.1.clock + 1 } rest

/-- From the opening of the built-in PTYs on. -/
def run (env : Env) (bytes : Bytes) : Recording Event (State × Bool) := do
  let h ← start env
  ttyInputHandler env h bytes

/-! ### Without the record -/

section Values
variable (env : Env) (h : State) (i : Nat) (ch : Byte)

@[simp] theorem value_createPtyAtIndex (name : Bytes) (startThread : Bool) :
    value (createPtyAtIndex env h i name startThread) = Host.createPtyAtIndex env h i name startThread := by
  simp only [createPtyAtIndex, Host.createPtyAtIndex, value_ite, value_bind, value_pure, value_writeAt,
    emitPtySessionRecord, value_readAt]
  rfl

@[simp] theorem value_start : value (start env) = Host.start env := by
  simp only [start, value_bind, value_pure, value_createPtyAtIndex]
  rfl

@[simp] theorem value_toMaster (io : FlushIo) (pty : ThreadData) :
    value (toMaster io h i pty ch) =
      match io.pty with
      | .ok => (h.setPty i { pty with written := pty.written ++ [ch] }, 0)
      | .again => (h.setPty i pty, 0)
      | .error => (h.setPty i pty, -1) := by
  unfold toMaster
  rw [value_bind]
  cases io.pty <;> rfl

@[simp] theorem value_flushStream (io : FlushIo) :
    value (flushStream env io h i ch) = Host.flushStream env io h i ch := by
  unfold flushStream Host.flushStream
  rw [value_bind, value_readAt]
  simp only [value_bind, value_ite, value_pure, value_writeAt, value_toMaster]
  generalize (if (env.logTimestampEnabled && ((h.ptyData i).lastCh == 10 || (h.ptyData i).lastCh == 0)) = true then
    io.timestamp.length else 0) = stampLen
  by_cases hstamp : 0 < stampLen ∧ stampLen < 30
  · simp only [hstamp, and_self, true_and, if_true]
    rfl
  · have hno : ¬ (0 < stampLen ∧ stampLen < 30 ∧ io.stampOk = false) := fun hs => hstamp ⟨hs.1, hs.2.1⟩
    simp only [if_neg hstamp, if_neg hno, List.append_nil]
    rfl

@[simp] theorem value_setSeen (n r : Bool) : value (setSeen h i n r) = h.setSeen i n r := rfl

@[simp] theorem value_patched : value (patched env h i ch) = Host.patched env h i ch := by
  simp only [patched, value_bind, value_ite, value_pure, value_setSeen, value_flushStream]
  rfl

@[simp] theorem value_patch2flushStream :
    value (patch2flushStream env h i ch) = Host.patch2flushStream env h i ch := by
  simp only [patch2flushStream, value_bind, value_ite, value_pure, value_setSeen, value_patched, value_flushStream]
  rfl

end Values

theorem value_findFrom (t : Table) (streamId : Byte) (n i : Nat) :
    value (findFrom t streamId n i) = (List.range' i n).find? (fun j => (t.tags j).value == streamId) := by
  induction n generalizing i with
  | zero => rfl
  | succ n ih =>
    rw [findFrom, value_bind, value_readAt, value_ite, ih, List.range'_succ, List.find?_cons]
    cases (t.tags i).value == streamId <;> rfl

@[simp] theorem value_find (t : Table) (streamId : Byte) :
    value (findVirtiosoPtyIdxByStreamId t streamId) = Host.findVirtiosoPtyIdxByStreamId t streamId := by
  rw [findVirtiosoPtyIdxByStreamId, value_findFrom, Host.findVirtiosoPtyIdxByStreamId, List.range_eq_range']

theorem value_duplicateFrom (s : RegistryScan) (v : Byte) (name : Bytes) (n i : Nat) :
    value (duplicateFrom s v name n i) =
      (List.range' i n).any (fun j => (s.tags j).value == v || (s.tags j).name == some name) := by
  induction n generalizing i with
  | zero => rfl
  | succ n ih =>
    rw [duplicateFrom, value_bind, value_readAt, value_ite, ih, List.range'_succ, List.any_cons]
    cases (s.tags i).value == v || (s.tags i).name == some name <;> rfl

@[simp] theorem value_appendVirtiosoStream (s : RegistryScan) (streamId : Int) (name : Bytes) :
    value (appendVirtiosoStream s streamId name) = Host.appendVirtiosoStream s streamId name := by
  simp only [appendVirtiosoStream, Host.appendVirtiosoStream, value_bind, value_ite, value_pure, value_writeAt,
    value_duplicateFrom, List.range_eq_range']

@[simp] theorem value_addEntry (s : RegistryScan) (e : Entry) : value (addEntry s e) = s.addEntry e := by
  rw [addEntry, value_bind, value_appendVirtiosoStream, RegistryScan.addEntry]
  cases Host.appendVirtiosoStream s e.streamId e.name with
  | none => rfl
  | some s' => simp only [value_ite, value_bind, value_writeAt, value_pure]

@[simp] theorem value_addEntries (s : RegistryScan) (entries : List (Option Entry)) :
    value (addEntries s entries) = s.addEntries entries := by
  induction entries generalizing s with
  | nil => rfl
  | cons e rest ih =>
    cases e with
    | none => rfl
    | some e =>
      rw [addEntries, value_bind, value_addEntry, RegistryScan.addEntries]
      cases s.addEntry e with
      | none => rfl
      | some s' => exact ih s'

@[simp] theorem value_createRegistryPtys (env : Env) (remaining i : Nat) (h : State) :
    value (createRegistryPtys env remaining i h) = Host.createRegistryPtys env remaining i h := by
  induction remaining generalizing i h with
  | zero => rfl
  | succ remaining ih =>
    simp only [createRegistryPtys, Host.createRegistryPtys, value_bind, value_readAt, value_ite, value_pure,
      value_createPtyAtIndex, ih]

theorem value_clearFrom (n i : Nat) (tags : Nat → Tag) :
    value (clearFrom n i tags) = fun j => if i ≤ j ∧ j < i + n then Tag.cleared else tags j := by
  induction n generalizing i tags with
  | zero =>
    funext j
    have hout : ¬ (i ≤ j ∧ j < i + 0) := by omega
    rw [if_neg hout]
    rfl
  | succ n ih =>
    rw [clearFrom, value_bind, value_writeAt, ih]
    funext j
    by_cases hj : j = i
    · subst hj
      simp
    · have hiff : (i + 1 ≤ j ∧ j < i + 1 + n) ↔ (i ≤ j ∧ j < i + (n + 1)) := by omega
      simp only [hiff, Function.update_of_ne hj]

@[simp] theorem value_rejectRegistry (h : State) (builtinCount streamCount : Nat) :
    value (rejectRegistry h builtinCount streamCount) = Host.rejectRegistry h builtinCount streamCount := by
  have hiff : ∀ j, (builtinCount ≤ j ∧ j < builtinCount + (streamCount - builtinCount)) ↔
      (builtinCount ≤ j ∧ j < streamCount) := by
    intro j
    omega
  simp only [rejectRegistry, Host.rejectRegistry, value_bind, value_pure, value_clearFrom, hiff]

@[simp] theorem value_applyVirtiosoRegistryJson (env : Env) (h : State) (json : Bytes) :
    value (applyVirtiosoRegistryJson env h json) = Host.applyVirtiosoRegistryJson env h json := by
  unfold applyVirtiosoRegistryJson Host.applyVirtiosoRegistryJson jsonEntries
  cases jsonFindArrayAfter json (ascii "\"streams\"") with
  | none => rfl
  | some range =>
    simp only [Option.map_some, value_bind, value_ite, value_pure, value_addEntries, value_rejectRegistry,
      value_createRegistryPtys, registryLoop_eq]

@[simp] theorem value_applyVirtiosoStreamConnected (env : Env) (h : State) (streamId : Byte) (name : Bytes) :
    value (applyVirtiosoStreamConnected env h streamId name) = Host.applyVirtiosoStreamConnected env h streamId name := by
  simp only [applyVirtiosoStreamConnected, Host.applyVirtiosoStreamConnected, value_bind, value_ite, value_pure,
    value_find, value_writeAt, value_createPtyAtIndex]

@[simp] theorem value_finishRegistry (env : Env) (h : State) :
    value (finishRegistry env h) = Host.finishRegistry env h := by
  unfold finishRegistry Host.finishRegistry
  cases h.virtiosoRegistryJson with
  | some json => rfl
  | none => simp only [value_bind, value_ite, value_pure, value_applyVirtiosoRegistryJson]

@[simp] theorem value_finishAnnounce (env : Env) (h : State) : value (finishAnnounce env h) = Host.finishAnnounce env h := by
  unfold finishAnnounce Host.finishAnnounce
  cases h.parser.registryJson with
  | none => rfl
  | some buffer =>
    cases buffer with
    | nil => rfl
    | cons sid rest => simp only [value_bind, value_ite, value_pure, value_applyVirtiosoStreamConnected]

@[simp] theorem value_feedVirtiosoByte (env : Env) (h : State) (ch : Byte) :
    value (feedVirtiosoByte env h ch) = Host.feedVirtiosoByte env h ch := by
  unfold feedVirtiosoByte Host.feedVirtiosoByte
  cases h.parser.controlState with
  | idle =>
    simp only [State.setEscape_parser_curRxStream]
    cases h.parser.curRxStream <;>
      simp only [value_bind, value_ite, value_pure, value_find, value_patch2flushStream]
  | registryJson => simp only [value_ite, value_pure, value_finishRegistry]
  | announcePayload => simp only [value_ite, value_bind, value_pure, value_finishAnnounce]
  | _ => rfl

@[simp] theorem value_feedCarrier (env : Env) (h : State) (ch : Byte) :
    value (feedCarrier env h ch) = Host.feedCarrier env h ch := by
  simp only [feedCarrier, Host.feedCarrier, value_bind, value_ite, value_pure, value_patch2flushStream,
    value_feedVirtiosoByte]

/-- Without the record a byte is received as the model says. -/
@[simp] theorem value_feed (env : Env) (h : State) (ch : Byte) :
    value (feedNvidiaOuterOrVirtiosoRaw env h ch) = Host.feedNvidiaOuterOrVirtiosoRaw env h ch := by
  unfold feedNvidiaOuterOrVirtiosoRaw Host.feedNvidiaOuterOrVirtiosoRaw
  cases env.virtiosoOuterMode with
  | raw => exact value_feedCarrier env h ch
  | nvidiaTcu =>
    cases chipTags.findIdx? (fun tag => tag.value == ch) <;>
      simp only [value_ite, value_pure, value_feedVirtiosoByte, value_feedCarrier]

theorem value_ttyInputHandler (env : Env) (h : State) (bytes : Bytes) :
    value (ttyInputHandler env h bytes) = Host.ttyInputHandler env h bytes := by
  induction bytes generalizing h with
  | nil => rfl
  | cons ch rest ih => simp only [ttyInputHandler, Host.ttyInputHandler, value_bind, value_ite, value_pure, value_feed, ih]

/-- So a whole run is the run of the model. -/
theorem value_run (env : Env) (bytes : Bytes) : value (run env bytes) = Host.ttyInputHandler env (Host.start env) bytes := by
  rw [run, value_bind, value_start, value_ttyInputHandler]

end Traced

end VirtiosoMux.Host
