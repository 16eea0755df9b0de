import VirtiosoMux.Host.State

/-! # The demultiplexer of `virtioso-mux -A`

The functions of `tcu_com.c` on the receiving path. A function of the source that
returns an `int` returns it here beside the new state; where only zero and minus one
occur the result is a `Bool`.
-/
namespace VirtiosoMux.Host

/-! ### Records on standard output -/

def hexDigit (n : Nat) : Byte := if n < 10 then UInt8.ofNat (0x30 + n) else UInt8.ofNat (0x61 + n - 10)

def jsonEscapeByte (c : Byte) : Bytes :=
  if c = 0x22 ∨ c = 0x5c then [0x5c, c]
  else if c = 0x0a then [0x5c, 0x6e]
  else if c = 0x0d then [0x5c, 0x72]
  else if c = 0x09 then [0x5c, 0x74]
  else if c < 0x20 then [0x5c, 0x75, 0x30, 0x30, hexDigit (c.toNat / 16), hexDigit (c.toNat % 16)]
  else [c]

def writeJsonString (value : Bytes) : Bytes := 0x22 :: value.flatMap jsonEscapeByte ++ [0x22]

def virtiosoSessionKind (name : Bytes) : Bytes :=
  if name = autopilotControlPty ∨ name = rawCcplexPty ∨ name = physicalUartDefaultPty then
    ascii "virtioso_mux_builtin"
  else ascii "camkes_component_stream"

def decimal (n : Nat) : Bytes := (Nat.toDigits 10 n).map (fun c => UInt8.ofNat c.toNat)

def emitVirtiosoRegistryRecord (h : State) : State :=
  match h.virtiosoRegistryJson with
  | none => h
  | some json =>
    let record := ascii "\x7b\"event\":\"stream_registry\",\"registry_json\":" ++ writeJsonString json ++ ascii "\x7d\n"
    { h with stdout := h.stdout ++ record }

/-- The line printed for an opened PTY in Virtioso mode. The log path is cut off at the
1023 characters `snprintf` leaves. -/
def ptySessionRecord (saveOutputPath : Option Bytes) (value : Byte) (device name : Bytes) : Bytes :=
  ascii "\x7b\"event\":\"session_open\",\"name\":" ++ writeJsonString name ++
  ascii ",\"kind\":" ++ writeJsonString (virtiosoSessionKind name) ++
  ascii ",\"stream_id\":" ++ decimal value.toNat ++ ascii ",\"pty_path\":" ++ writeJsonString device ++
  (match saveOutputPath with
    | none => []
    | some dir => ascii ",\"log_path\":" ++ writeJsonString ((dir ++ ascii "/" ++ name ++ ascii ".txt").take 1023)) ++
  ascii "\x7d\n"

def emitPtySessionRecord (env : Env) (h : State) (ptyIdx : Nat) (name : Bytes) : State :=
  let record := ptySessionRecord env.saveOutputPath (h.table.tags ptyIdx).value (h.ptyData ptyIdx).deviceName name
  { h with stdout := h.stdout ++ record }

/-! ### Opening PTYs -/

def createPtyAtIndex (env : Env) (h : State) (ptyIdx : Nat) (name : Bytes) (startThread : Bool) : State × Bool :=
  let io := (env.now h).pty ptyIdx
  if ptyCapacity ≤ ptyIdx then (h, false)
  else if !io.master then (h, false)
  else
    let h := h.setPty ptyIdx
      { logFd := env.saveOutputPath.isSome && io.logOpen, deviceName := io.deviceName,
        lastCh := 0, log := [], written := [] }
    if !io.slave then (h, false)
    else
      let h := emitPtySessionRecord env h ptyIdx name
      if startThread && !io.thread then (h, false) else (h, true)

/-- The globals when the receiving thread starts: `main` has opened one PTY for each
built-in entry. -/
def start (env : Env) : State :=
  let zeroed : State :=
    { parser := Parser.start, table := initVirtiosoTags, ptyData := fun _ => ThreadData.zeroed,
      virtiosoRegistryJson := none, downlinkAckCount := 0, stdout := [], clock := 0 }
  let one := (createPtyAtIndex env zeroed rawCcplexPtyIdx rawCcplexPty false).1
  let two := (createPtyAtIndex env one autopilotControlPtyIdx autopilotControlPty false).1
  (createPtyAtIndex env two virtiosoDefaultPtyIdx physicalUartDefaultPty false).1

/-! ### Writing one byte to a PTY and its log -/

def flushStream (env : Env) (io : FlushIo) (h : State) (ptyIdx : Nat) (ch : Byte) : State × Int :=
  let pty := h.ptyData ptyIdx
  let toMaster (pty : ThreadData) : State × Int :=
    match io.pty with
    | .ok => (h.setPty ptyIdx { pty with written := pty.written ++ [ch] }, 0)
    | .again => (h.setPty ptyIdx pty, 0)
    | .error => (h.setPty ptyIdx pty, -1)
  if ptyIdx < h.table.ptyMaxCount ∧ pty.logFd = true then
    let stamped := env.logTimestampEnabled && (pty.lastCh == 0x0a || pty.lastCh == 0)
    let stampLen := if stamped then io.timestamp.length else 0
    if 0 < stampLen ∧ stampLen < 30 ∧ io.stampOk = false then (h, -2)
    else
      let log := if 0 < stampLen ∧ stampLen < 30 then pty.log ++ io.timestamp else pty.log
      let lastCh := if env.logTimestampEnabled then ch else pty.lastCh
      if io.logOk then toMaster { pty with log := log ++ [ch], lastCh := lastCh }
      else (h.setPty ptyIdx { pty with log := log, lastCh := lastCh }, -3)
  else toMaster pty

/-- The two flags are those of the PTY; the source passes pointers to them. -/
def State.setSeen (h : State) (i : Nat) (n r : Bool) : State :=
  { h with parser := { h.parser with
      seenN := Function.update h.parser.seenN i n, seenR := Function.update h.parser.seenR i r } }

def patch2flushStream (env : Env) (h : State) (ptyIdx : Nat) (ch : Byte) : State × Int :=
  let io := (env.now h).flush ptyIdx
  if env.disablePatch then flushStream env (io 2) h ptyIdx ch
  else
    let seenN := h.parser.seenN ptyIdx
    let seenR := h.parser.seenR ptyIdx
    let h :=
      if ch = 0x0a then h.setSeen ptyIdx true seenR
      else if ch = 0x0d then h.setSeen ptyIdx seenN true
      else if seenR then ((flushStream env (io 0) h ptyIdx 0x0a).1).setSeen ptyIdx false false
      else if seenN then ((flushStream env (io 1) h ptyIdx 0x0d).1).setSeen ptyIdx false false
      else h
    let (h, ret) := flushStream env (io 2) h ptyIdx ch
    if ret < 0 then (h, ret)
    else if h.parser.seenR ptyIdx && h.parser.seenN ptyIdx then (h.setSeen ptyIdx false false, 0)
    else (h, 0)

/-! ### The stream table -/

/-- The part of the table the registry reader edits in place, with its own count. -/
structure RegistryScan where
  tags : Nat → Tag
  inputEnabled : Nat → Bool
  count : Nat

/-- `capacity` is `VIRTIOSO_MAX_PTY_COUNT` at the only call, so a full table is refused
and the array is never grown. -/
def appendVirtiosoStream (s : RegistryScan) (streamId : Int) (name : Bytes) : Option RegistryScan :=
  if streamId < 0 then some s
  else if streamId ≤ 0 ∨ streamId > 0xff ∨ streamId = 0xfe ∨ streamId = 0xfd then none
  else if (List.range s.count).any (fun i =>
      (s.tags i).value == UInt8.ofNat streamId.toNat || (s.tags i).name == some name) then none
  else if s.count = virtiosoMaxPtyCount then none
  else some { s with
    tags := Function.update s.tags s.count ⟨some name, UInt8.ofNat streamId.toNat⟩
    count := s.count + 1 }

def registryObject (dup : Nat → Bool) (s : RegistryScan) (objectStart objectEnd : Bytes) : Option RegistryScan :=
  match jsonFindKeyBefore objectStart objectEnd (ascii "\"component\"") with
  | none => none
  | some componentPos =>
    match jsonFindKeyBefore objectStart objectEnd (ascii "\"stream_id\"") with
    | none => none
    | some streamIdPos =>
      match jsonIntValueAfter streamIdPos (ascii "\"stream_id\"") with
      | none => none
      | some streamId =>
        match jsonStringValueAfter dup componentPos (ascii "\"component\"") with
        | none => none
        | some name =>
          let inputEnabled : Bool :=
            match jsonFindKeyBefore objectStart objectEnd (ascii "\"direction\"") with
            | none => false
            | some directionPos =>
              match jsonStringValueAfter dup directionPos (ascii "\"direction\"") with
              | none => false
              | some direction => direction == ascii "input" || direction == ascii "bidirectional"
          match appendVirtiosoStream s streamId name with
          | none => none
          | some s' =>
            if s.count < s'.count then
              some { s' with inputEnabled := Function.update s'.inputEnabled s.count inputEnabled }
            else some s'

/-- The loop over the objects of the array. `false` is a jump to the failure label. -/
def registryLoop (dup : Nat → Bool) (streamsEnd pos : Bytes) (s : RegistryScan) : RegistryScan × Bool :=
  if AtOrAfter pos streamsEnd then (s, true)
  else
    let objectStart := pos.dropWhile (· != 0x7b)
    if AtOrAfter objectStart streamsEnd then (s, true)
    else
      match _hm : jsonFindMatching objectStart 0x7b 0x7d with
      | none => (s, false)
      | some objectEnd =>
        match registryObject dup s objectStart objectEnd with
        | none => (s, false)
        | some s' => registryLoop dup streamsEnd objectEnd.tail s'
termination_by pos.length
decreasing_by
  have hlen := matchingScan_length _hm
  have hdrop : objectStart.length ≤ pos.length := (List.dropWhile_suffix (· != 0x7b)).length_le
  have : 0 < objectEnd.length := List.length_pos_of_ne_nil hlen.1
  simp only [List.length_tail]
  omega

def createRegistryPtys (env : Env) : Nat → Nat → State → State × Bool
  | 0, _, h => (h, true)
  | remaining + 1, i, h =>
    let (h, ok) := createPtyAtIndex env h i (((h.table.tags i).name).getD []) (h.table.inputEnabled i)
    if ok then createRegistryPtys env remaining (i + 1) { h with table := { h.table with ptyMaxCount := i + 1 } }
    else (h, false)

/-- The failure label: the slots used by the call are cleared and the counts restored. -/
def rejectRegistry (h : State) (builtinCount streamCount : Nat) : State :=
  { h with table := { h.table with
      tags := fun i => if builtinCount ≤ i ∧ i < streamCount then Tag.cleared else h.table.tags i
      numProc := builtinCount
      ptyMaxCount := builtinCount } }

def applyVirtiosoRegistryJson (env : Env) (h : State) (json : Bytes) : State × Bool :=
  let builtinCount := h.table.numProc
  match jsonFindArrayAfter json (ascii "\"streams\"") with
  | none => (h, false)
  | some (streamsStart, streamsEnd) =>
    let (s, ok) := registryLoop (env.now h).xstrndup streamsEnd streamsStart.tail
      ⟨h.table.tags, h.table.inputEnabled, builtinCount⟩
    let h := { h with table := { h.table with tags := s.tags, inputEnabled := s.inputEnabled } }
    if !ok || s.count = builtinCount then (rejectRegistry h builtinCount s.count, false)
    else
      let h := { h with table := { h.table with numProc := s.count, defaultTagIdx := 0 } }
      let (h, created) := createRegistryPtys env (s.count - builtinCount) builtinCount h
      if created then (h, true) else (rejectRegistry h builtinCount s.count, false)

def applyVirtiosoStreamConnected (env : Env) (h : State) (streamId : Byte) (name : Bytes) : State :=
  if (findVirtiosoPtyIdxByStreamId h.table streamId).isSome then h
  else if ptyCapacity ≤ h.table.numProc then h
  else
    let nameBuf := cString (name.take 255)
    if !(env.now h).xstrndup nameBuf.length then h
    else
      let ptyIdx := h.table.numProc
      let h := { h with table := { h.table with
        tags := Function.update h.table.tags ptyIdx ⟨some nameBuf, streamId⟩
        inputEnabled := Function.update h.table.inputEnabled ptyIdx false
        numProc := ptyIdx + 1
        ptyMaxCount := ptyIdx + 1 } }
      let (h, ok) := createPtyAtIndex env h ptyIdx nameBuf false
      if ok then h
      else { h with table := { h.table with
        tags := Function.update h.table.tags ptyIdx Tag.cleared
        numProc := ptyIdx
        ptyMaxCount := ptyIdx } }

/-! ### The inner parser -/

@[simps] def State.setControl (h : State) (c : ControlState) : State :=
  { h with parser := { h.parser with controlState := c } }

@[simps] def State.setEscape (h : State) (b : Bool) : State :=
  { h with parser := { h.parser with inEscape := b } }

@[simps] def State.setStream (h : State) (s : Option Nat) : State :=
  { h with parser := { h.parser with curRxStream := s } }

/-- The two `LEN_LO` states differ only in the state that reads the payload. -/
def controlLenLo (calloc : Bool) (h : State) (ch : Byte) (payload : ControlState) : State :=
  let len := h.parser.registryLen ||| ch.toNat
  let cleared : State :=
    { h with parser := { h.parser with registryLen := len, registryPos := 0, registryJson := none } }
  if len = 0 then cleared.setControl .idle
  else if calloc then
    { cleared with parser := { cleared.parser with
        registryJson := some (List.replicate (len + 1) 0), controlState := payload } }
  else cleared.setControl .idle

def storePayload (h : State) (ch : Byte) : State :=
  { h with parser := { h.parser with
      registryJson :=
        if h.parser.registryPos < h.parser.registryLen then
          h.parser.registryJson.map (fun b => b.set h.parser.registryPos ch)
        else h.parser.registryJson
      registryPos := h.parser.registryPos + 1 } }

def State.endRecord (h : State) : State :=
  { h with parser := { h.parser with registryJson := none, controlState := .idle } }

def finishRegistry (env : Env) (h : State) : State × Int :=
  match h.virtiosoRegistryJson with
  | some _ => (h.endRecord, 0)
  | none =>
    let json := cString (h.parser.registryJson.getD [])
    let h := { h with virtiosoRegistryJson := some json, parser := { h.parser with registryJson := none } }
    let (h, ok) := applyVirtiosoRegistryJson env (emitVirtiosoRegistryRecord h) json
    if ok then (h.setControl .idle, 0) else (h, -1)

def finishAnnounce (env : Env) (h : State) : State :=
  match h.parser.registryJson with
  | some (sid :: rest) =>
    if h.parser.pendingCtrlType = vcmuxProtoControlStreamConnected ∧ 1 ≤ h.parser.registryLen then
      (applyVirtiosoStreamConnected env h sid (rest.take (h.parser.registryLen - 1))).endRecord
    else h.endRecord
  | _ => h.endRecord

def controlCmd (h : State) (ch : Byte) : State :=
  if ch = vcmuxProtoControlStreamRegistry then
    { h with parser := { h.parser with registryLen := 0, registryPos := 0, controlState := .registryLenHi } }
  else if ch = vcmuxProtoControlDownlinkAck then
    { h with downlinkAckCount := h.downlinkAckCount + 1, parser := { h.parser with controlState := .idle } }
  else if ch = vcmuxProtoControlStreamConnected ∨ ch = vcmuxProtoControlStreamDisconnected then
    { h with parser := { h.parser with
        pendingCtrlType := ch, registryLen := 0, registryPos := 0, controlState := .announceLenHi } }
  else h.setControl .idle

def feedVirtiosoByte (env : Env) (h : State) (ch : Byte) : State × Int :=
  match h.parser.controlState with
  | .cmd => (controlCmd h ch, 0)
  | .registryLenHi =>
    ({ h with parser := { h.parser with registryLen := ch.toNat <<< 8, controlState := .registryLenLo } }, 0)
  | .registryLenLo => (controlLenLo (env.now h).calloc h ch .registryJson, 0)
  | .registryJson =>
    let h := storePayload h ch
    if h.parser.registryLen ≤ h.parser.registryPos then finishRegistry env h else (h, 0)
  | .announceLenHi =>
    ({ h with parser := { h.parser with registryLen := ch.toNat <<< 8, controlState := .announceLenLo } }, 0)
  | .announceLenLo => (controlLenLo (env.now h).calloc h ch .announcePayload, 0)
  | .announcePayload =>
    let h := storePayload h ch
    if h.parser.registryLen ≤ h.parser.registryPos then (finishAnnounce env h, 0) else (h, 0)
  | .idle =>
    if h.parser.inEscape then
      let h := h.setEscape false
      if ch = vcmuxProtoEscDefault then (h.setStream none, 0)
      else if ch = vcmuxProtoEscEsc then
        match h.parser.curRxStream with
        | some i => patch2flushStream env h i ch
        | none => (h, 0)
      else if ch = vcmuxProtoEscControl then (h.setControl .cmd, 0)
      else (h.setStream (findVirtiosoPtyIdxByStreamId h.table ch), 0)
    else if ch = vcmuxProtoEscStart then (h.setEscape true, 0)
    else
      match h.parser.curRxStream with
      | none =>
        if virtiosoDefaultPtyIdx < h.table.ptyMaxCount then patch2flushStream env h virtiosoDefaultPtyIdx ch
        else (h, 0)
      | some i => patch2flushStream env h i ch

/-! ### The outer layer and the receiving loop -/

def feedCarrier (env : Env) (h : State) (ch : Byte) : State × Int :=
  if rawCcplexPtyIdx < h.table.ptyMaxCount then
    let (h, ret) := patch2flushStream env h rawCcplexPtyIdx ch
    if ret ≠ 0 then (h, -1) else feedVirtiosoByte env h ch
  else feedVirtiosoByte env h ch

def feedNvidiaOuterOrVirtiosoRaw (env : Env) (h : State) (ch : Byte) : State × Int :=
  match env.virtiosoOuterMode with
  | .raw => feedCarrier env h ch
  | .nvidiaTcu =>
    if h.parser.outerInEscape then
      let h := { h with parser := { h.parser with outerInEscape := false } }
      if ch = uartProtoEscEsc then
        if h.parser.curOuterTag = some env.virtiosoOuterTagIdx then feedVirtiosoByte env h uartProtoEscStart
        else (h, 0)
      else if ch = uartProtoEscReset then
        ({ h with parser := { h.parser with curOuterTag := none, curRxStream := none, inEscape := false } }, 0)
      else
        match chipTags.findIdx? (fun tag => tag.value == ch) with
        | some tagIdx => ({ h with parser := { h.parser with curOuterTag := some tagIdx } }, 0)
        | none => (h, 0)
    else if ch = uartProtoEscStart then ({ h with parser := { h.parser with outerInEscape := true } }, 0)
    else if h.parser.curOuterTag = some env.virtiosoOuterTagIdx then feedCarrier env h ch
    else (h, 0)

/-- The loop of `tty_input_handler` over received bytes. The flag is `false` once a
negative result has ended the thread. -/
def ttyInputHandler (env : Env) : State → Bytes → State × Bool
  | h, [] => (h, true)
  | h, ch :: rest =>
    let (h, ret) := feedNvidiaOuterOrVirtiosoRaw env h ch
    if ret < 0 then (h, false) else ttyInputHandler env { h with clock := h.clock + 1 } rest

end VirtiosoMux.Host
