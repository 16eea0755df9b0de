import VirtiosoMux.Host.JsonText

/-! # State of the host demuxer

The globals and the locals of the receiving thread of `virtioso-mux -A`. Every
system call made while one received byte is processed takes its outcome from the
environment at that byte's position, so a run is determined by the environment and
the byte sequence, and every pattern of failures is some environment.
-/
namespace VirtiosoMux.Host

def virtiosoMaxPtyCount : Nat := 257
def ptyCapacity : Nat := virtiosoMaxPtyCount

def rawCcplexPty : Bytes := ascii "raw_ccplex"
def autopilotControlPty : Bytes := ascii "autopilot_control"
def physicalUartDefaultPty : Bytes := ascii "physical_uart_default"

/-- The indices `init_virtioso_tags` assigns. -/
def rawCcplexPtyIdx : Nat := 0
def autopilotControlPtyIdx : Nat := 1
def virtiosoDefaultPtyIdx : Nat := 2
def rawPtyIdx : Nat := 0

structure Tag where
  name : Option Bytes
  value : Byte
deriving DecidableEq

/-- A slot of the zeroed tag array, and what a rejected entry is reset to. -/
def Tag.cleared : Tag := ⟨none, 0⟩

def chipTags : List Tag :=
  [⟨some (ascii "CCPLEX"), 0xe1⟩, ⟨some (ascii "BPMP"), 0xe2⟩, ⟨some (ascii "OOBHUB"), 0xe3⟩,
   ⟨some (ascii "SatMC"), 0xe4⟩, ⟨some (ascii "RAS"), 0xe5⟩, ⟨some (ascii "CCPLEX-ROOT"), 0xe6⟩,
   ⟨some (ascii "TZ"), 0xe7⟩, ⟨some (ascii "CCPLEX-REALM"), 0xe8⟩, ⟨some (ascii "MSEQ"), 0xea⟩,
   ⟨some (ascii "PCORE"), 0xeb⟩, ⟨some (ascii "C2C"), 0xec⟩, ⟨some (ascii "DBG2"), 0xed⟩,
   ⟨some (ascii "RSVD15"), 0xef⟩, ⟨some (ascii "RSVD16"), 0xf0⟩, ⟨some (ascii "CCPLEX-ALT"), 0xe9⟩]

inductive OuterMode
  | raw
  | nvidiaTcu
deriving DecidableEq

inductive ControlState
  | idle
  | cmd
  | registryLenHi
  | registryLenLo
  | registryJson
  | announceLenHi
  | announceLenLo
  | announcePayload
deriving DecidableEq

/-- Outcome of a `write` to a PTY master. `again` stands for the three errors
`flush_stream` tolerates (EAGAIN, EWOULDBLOCK, EIO). -/
inductive PtyWrite
  | ok
  | again
  | error
deriving DecidableEq

structure FlushIo where
  timestamp : Bytes
  stampOk : Bool
  logOk : Bool
  pty : PtyWrite

/-- Outcomes of the calls inside one `create_pty_at_index`: opening and unlocking the
master, opening the log, the slave's name, opening the slave, starting the thread. -/
structure PtyIo where
  master : Bool
  logOpen : Bool
  deviceName : Bytes
  slave : Bool
  thread : Bool

/-- Outcomes of the system calls made for one received byte. A flush is identified
by its PTY and by its position among the at most three flushes of the byte there, a
PTY creation by its index, a string copy by its text position. -/
structure StepIo where
  flush : Nat → Nat → FlushIo
  pty : Nat → PtyIo
  calloc : Bool
  xstrndup : Nat → Bool

structure Env where
  disablePatch : Bool
  logTimestampEnabled : Bool
  virtiosoOuterMode : OuterMode
  virtiosoOuterTagIdx : Nat
  saveOutputPath : Option Bytes
  io : Nat → StepIo

/-- `log` is what the slot has appended to its log file, and `written` what the PTY master has
accepted, since the slot was opened. Slots with one path append to one file. -/
structure ThreadData where
  logFd : Bool
  deviceName : Bytes
  lastCh : Byte
  log : Bytes
  written : Bytes

def ThreadData.zeroed : ThreadData := ⟨false, [], 0, [], []⟩

structure Table where
  tags : Nat → Tag
  numProc : Nat
  ptyMaxCount : Nat
  inputEnabled : Nat → Bool
  defaultTagIdx : Nat

/-- The locals of `tty_input_handler` and the pending control type. -/
structure Parser where
  outerInEscape : Bool
  curOuterTag : Option Nat
  inEscape : Bool
  curRxStream : Option Nat
  controlState : ControlState
  registryLen : Nat
  registryPos : Nat
  registryJson : Option Bytes
  pendingCtrlType : Byte
  seenN : Nat → Bool
  seenR : Nat → Bool

structure State where
  parser : Parser
  table : Table
  ptyData : Nat → ThreadData
  virtiosoRegistryJson : Option Bytes
  downlinkAckCount : UInt32
  stdout : Bytes
  clock : Nat

def Env.now (env : Env) (h : State) : StepIo := env.io h.clock

def State.log (h : State) (i : Nat) : Bytes := (h.ptyData i).log

def State.setPty (h : State) (i : Nat) (p : ThreadData) : State :=
  { h with ptyData := Function.update h.ptyData i p }

def initVirtiosoTags : Table where
  tags i := if i = 0 then ⟨some rawCcplexPty, 0⟩
    else if i = 1 then ⟨some autopilotControlPty, 0⟩
    else if i = 2 then ⟨some physicalUartDefaultPty, 0⟩
    else Tag.cleared
  numProc := 3
  ptyMaxCount := 3
  inputEnabled i := decide (i < 3)
  defaultTagIdx := 0

def Parser.start : Parser where
  outerInEscape := false
  curOuterTag := none
  inEscape := false
  curRxStream := none
  controlState := .idle
  registryLen := 0
  registryPos := 0
  registryJson := none
  pendingCtrlType := 0
  seenN _ := false
  seenR _ := false

def findVirtiosoPtyIdxByStreamId (t : Table) (streamId : Byte) : Option Nat :=
  (List.range t.numProc).find? (fun i => (t.tags i).value == streamId)

theorem find_eq_none_iff {t : Table} {id : Byte} :
    findVirtiosoPtyIdxByStreamId t id = none ↔ ∀ i < t.numProc, (t.tags i).value ≠ id := by
  simp [findVirtiosoPtyIdxByStreamId, List.find?_eq_none]

theorem find_eq_some_iff {t : Table} {id : Byte} {i : Nat} :
    findVirtiosoPtyIdxByStreamId t id = some i ↔
      i < t.numProc ∧ (t.tags i).value = id ∧ ∀ j < i, (t.tags j).value ≠ id := by
  rw [findVirtiosoPtyIdxByStreamId, List.find?_range_eq_some]
  simp only [beq_iff_eq, List.mem_range, Bool.not_eq_true', beq_eq_false_iff_ne]
  exact ⟨fun ⟨hv, hi, hj⟩ => ⟨hi, hv, hj⟩, fun ⟨hi, hv, hj⟩ => ⟨hv, hi, hj⟩⟩

theorem find_value {t : Table} {id : Byte} {i : Nat} (h : findVirtiosoPtyIdxByStreamId t id = some i) :
    i < t.numProc ∧ (t.tags i).value = id :=
  ⟨(find_eq_some_iff.mp h).1, (find_eq_some_iff.mp h).2.1⟩

end VirtiosoMux.Host
