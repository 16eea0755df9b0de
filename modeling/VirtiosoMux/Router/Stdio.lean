import VirtiosoMux.Library.Base64
import VirtiosoMux.Library.JsonLines
import VirtiosoMux.Library.Runs
import VirtiosoMux.Protocol.Codes
import VirtiosoMux.Router.Description

/-! # A command behind the router

`run_command` with the transport `process_stdio`. The router passes on what the command writes, to
its own output, the channel's log and its PTY, and what is typed at the PTY or on its standard input
to the command. Of each piece it keeps an event in `events.jsonl`. Once the command has exited, the
router reads what is left in the pipe and returns the command's status.
-/
namespace VirtiosoMux.Stdio
open Json Channels

/-! ### Which runner -/

inductive Runner
  | virtiosoVcmux
  | processStdio (channel : Channel)

/-- `repr` is how Python shows a value of the manifest, `none` for one that is not there. -/
def runner (repr : Option Document → Text) (manifest : Manifest) : Except Failure Runner :=
  match get manifest.transport "type" with
  | some (.str type) =>
    if type = codes "virtioso_vcmux" then .ok .virtiosoVcmux
    else if type = codes "process_stdio" then
      match manifest.channels with
      | [channel] => .ok (.processStdio channel)
      | _ => .error (.consoleRouterError (codes "run-command with process_stdio expects exactly one channel in the manifest"))
    else .error (unsupported (some (.str type)))
  | type => .error (unsupported type)
where
  unsupported (type : Option Document) : Failure := .consoleRouterError
    (codes "run-command currently supports transport.type=process_stdio or virtioso_vcmux; got " ++ repr type)

theorem runner_single {repr : Option Document → Text} {manifest : Manifest} {channel : Channel}
    (h : runner repr manifest = .ok (.processStdio channel)) : manifest.channels = [channel] := by
  unfold runner at h
  split at h
  · split at h
    · cases h
    split at h
    · split at h
      · rename_i heq
        cases h
        exact heq
      · cases h
    · cases h
  · cases h

/-! ### Events -/

inductive Direction
  | rx
  | tx
deriving DecidableEq

def Direction.text : Direction → Text
  | .rx => codes "rx"
  | .tx => codes "tx"

structure Event where
  source : Text
  dir : Direction
  seq : Nat
  clockMonotonicNs : Int
  clockRealtimeNs : Int
  payload : Bytes

def Event.document (e : Event) : Document :=
  .obj [(codes "source", .str e.source), (codes "dir", .str e.dir.text), (codes "seq", .int e.seq),
    (codes "clock_monotonic_ns", .int e.clockMonotonicNs), (codes "clock_realtime_ns", .int e.clockRealtimeNs),
    (codes "payload_b64", .str (ofBytes (Base64.encode e.payload))), (codes "payload_len", .int e.payload.length)]

def Event.line (e : Event) : Bytes := jsonLine e.document

def readDirection (s : Text) : Option Direction :=
  if s = codes "rx" then some .rx else if s = codes "tx" then some .tx else none

def getStr (members : Members) (key : String) : Option Text :=
  match get members key with
  | some (.str s) => some s
  | _ => none

def getInt (members : Members) (key : String) : Option Int :=
  match get members key with
  | some (.int n) => some n
  | _ => none

/-- An event as a reader of the log gets it, if its payload has the length that it says. -/
def readEvent : Document → Option Event
  | .obj members => do
    let source ← getStr members "source"
    let dir ← (getStr members "dir").bind readDirection
    let seq ← getInt members "seq"
    let clockMonotonicNs ← getInt members "clock_monotonic_ns"
    let clockRealtimeNs ← getInt members "clock_realtime_ns"
    let payload ← (getStr members "payload_b64").bind (fun s => Base64.decode (s.map UInt8.ofNat))
    let length ← getInt members "payload_len"
    if length = payload.length then some ⟨source, dir, seq.toNat, clockMonotonicNs, clockRealtimeNs, payload⟩ else none
  | _ => none

def readEvents (F : FloatReader) (log : Bytes) : List (Option Event) := (readLines F log).map (·.bind readEvent)

theorem map_ofNat_ofBytes (b : List UInt8) : (ofBytes b).map UInt8.ofNat = b := by
  rw [ofBytes, List.map_map]
  exact List.map_id'' (fun x => UInt8.ofNat_toNat) b

theorem readEvent_document (e : Event) : readEvent e.document = some e := by
  obtain ⟨source, dir, seq, monotonic, realtime, payload⟩ := e
  have hdir : readDirection dir.text = some dir := by cases dir <;> rfl
  have hpayload : Base64.decode ((ofBytes (Base64.encode payload)).map UInt8.ofNat) = some payload := by
    rw [map_ofNat_ofBytes, Base64.decode_encode]
  change (do
    let dir ← readDirection dir.text
    let payload' ← Base64.decode ((ofBytes (Base64.encode payload)).map UInt8.ofNat)
    if (payload.length : Int) = payload'.length then some (⟨source, dir, seq, monotonic, realtime, payload'⟩ : Event)
    else none) = _
  simp only [hdir, hpayload, Option.bind_eq_bind, Option.bind_some, if_true]

theorem document_decoded {F : FloatReader} {e : Event} (h : StringText e.source) : e.document.Decoded F := by
  have hkeys : (codes "source" :: codes "dir" :: codes "seq" :: codes "clock_monotonic_ns" :: codes "clock_realtime_ns" ::
      codes "payload_b64" :: [codes "payload_len"]).Nodup := by decide
  have hascii : ∀ k ∈ codes "source" :: codes "dir" :: codes "seq" :: codes "clock_monotonic_ns" ::
      codes "clock_realtime_ns" :: codes "payload_b64" :: [codes "payload_len"], ∀ c ∈ k, c < 0x80 := by decide
  have hdir : StringText e.dir.text := by
    cases e.dir <;> exact stringText_ascii (by decide)
  have hpayload : StringText (ofBytes (Base64.encode e.payload)) := by
    refine stringText_ascii ?_
    intro c hc
    obtain ⟨x, hx, rfl⟩ := List.mem_map.mp hc
    exact UInt8.lt_iff_toNat_lt.mp (Base64.encode_ascii e.payload x hx)
  refine .obj hkeys ?_ ?_
  · intro m hm
    exact stringText_ascii (hascii m.1 (List.mem_map_of_mem (f := Prod.fst) hm))
  · intro m hm
    simp only [List.mem_cons, List.not_mem_nil, or_false] at hm
    rcases hm with rfl | rfl | rfl | rfl | rfl | rfl | rfl
    · exact .str h
    · exact .str hdir
    · exact .int _
    · exact .int _
    · exact .int _
    · exact .str hpayload
    · exact .int _

/-- The events of a log are read back. -/
theorem readEvents_lines {F : FloatReader} {events : List Event} (h : ∀ e ∈ events, StringText e.source) :
    readEvents F (events.flatMap Event.line) = events.map some := by
  have hdocs : ∀ d ∈ events.map Event.document, d.Decoded F := by
    intro d hd
    obtain ⟨e, he, rfl⟩ := List.mem_map.mp hd
    exact document_decoded (h e he)
  have hnone : (0x0a : UInt8) ∉ ([] : List UInt8) := List.not_mem_nil
  have hlines := readLines_jsonLines hdocs hnone
  rw [List.append_nil, List.flatMap_map] at hlines
  rw [readEvents, show events.flatMap Event.line = events.flatMap (fun e => jsonLine e.document) from rfl, hlines,
    List.map_map, List.map_map]
  refine List.map_congr_left ?_
  intro e _
  exact readEvent_document e

/-! ### The loop -/

/-- What a write does: it takes all bytes, at most `n + 1` of them, or raises an `OSError`. -/
inductive Written
  | all
  | part (n : Nat)
  | error
deriving DecidableEq

def Written.taken (w : Written) (data : Bytes) : Bytes :=
  match w with
  | .all => data
  | .part n => data.take (n + 1)
  | .error => []

/-- The clocks of an event, and the number of bytes after which writing its line has raised. -/
structure EmitIo where
  clockMonotonicNs : Int
  clockRealtimeNs : Int
  failed : Option Nat

structure ChunkIo where
  stdout : Written
  raw : Written
  emit : EmitIo
  pty : Written

/-- A read of the pipe: at most `n + 1` bytes, `EIO`, or another `OSError`. -/
inductive PipeRead
  | bytes (n : Nat)
  | eio
  | error

/-- A read of an input. No bytes are the end of the file; `gone` is `EIO` or `EBADF`. -/
inductive InputRead
  | bytes (data : Bytes)
  | gone
  | error

def InputRead.count : InputRead → Nat
  | .bytes data => data.length
  | _ => 0

inductive Source
  | procOut
  | pty
  | stdin
deriving DecidableEq

inductive Phase
  | looping
  | draining (chunks : List Bytes) (code : Int)
  | returned (code : Int)
  | raised
deriving DecidableEq

/-- The command with its pipes and the router. Of the command's output there is what has been written
altogether, what of it had been when the command exited, and what is in the pipe. Of the files
there is what the router has appended. -/
structure State where
  exited : Option Int
  written : Bytes
  writtenAtExit : Bytes
  pipe : Bytes
  held : Bool
  input : Bytes
  registered : List Source
  seq : Nat
  eventsLog : Bytes
  rawLog : Bytes
  stdout : Bytes
  ptyOut : Bytes
  phase : Phase

/-- The loop begins. Standard input may not be one that can be waited for. -/
def start (channel : Channel) (stdin : Bool) : State where
  exited := none
  written := []
  writtenAtExit := []
  pipe := []
  held := true
  input := []
  registered := .procOut :: (if channel.pty then [.pty] else []) ++ (if stdin then [.stdin] else [])
  seq := 0
  eventsLog := []
  rawLog := []
  stdout := []
  ptyOut := []
  phase := .looping

def State.raise (s : State) : State := { s with phase := .raised }

section Router
variable (channel : Channel)

/-- `emit_event`, with `false` if it raises. -/
def emitEvent (s : State) (dir : Direction) (data : Bytes) (io : EmitIo) : State × Bool :=
  let s := { s with seq := s.seq + 1 }
  let event : Event := ⟨channel.name, dir, s.seq, io.clockMonotonicNs, io.clockRealtimeNs, data⟩
  match io.failed with
  | none => ({ s with eventsLog := s.eventsLog ++ event.line }, true)
  | some n => ({ s with eventsLog := s.eventsLog ++ event.line.take n }, false)

/-- An `OSError` of the PTY is ignored. -/
def forwardToPty (s : State) (data : Bytes) (w : Written) : State :=
  if channel.pty then { s with ptyOut := s.ptyOut ++ w.taken data } else s

def writeProcInput (s : State) (data : Bytes) (w : Written) : State := { s with input := s.input ++ w.taken data }

def deliver (s : State) (data : Bytes) (io : ChunkIo) : State × Bool :=
  if io.stdout = .error then (s, false)
  else
    let s := { s with stdout := s.stdout ++ io.stdout.taken data }
    if io.raw = .error then (s, false)
    else
      let s := { s with rawLog := s.rawLog ++ io.raw.taken data }
      let (s, ok) := emitEvent channel s .rx data io.emit
      if ok then (forwardToPty channel s data io.pty, true) else (s, false)

inductive ReadResult
  | data (bytes : Bytes)
  | again
  | eio
  | error

/-- A read of up to 4096 bytes. An empty pipe has no data for now, or has ended. -/
def State.readPipe (s : State) : PipeRead → ReadResult × State
  | .bytes n =>
    if s.pipe = [] then (if s.held then .again else .data [], s)
    else (.data (s.pipe.take (min (n + 1) 4096)), { s with pipe := s.pipe.drop (min (n + 1) 4096) })
  | .eio => (.eio, s)
  | .error => (.error, s)

def State.unregister (s : State) (source : Source) : State := { s with registered := s.registered.erase source }

def procOut (s : State) (r : PipeRead) (io : ChunkIo) : State :=
  match s.readPipe r with
  | (.data data, s) =>
    if data = [] then s.unregister .procOut
    else
      let (s, ok) := deliver channel s data io
      if ok then s else s.raise
  | (.eio, s) => s.unregister .procOut
  | (_, s) => s.raise

def inputReady (s : State) (source : Source) (r : InputRead) (emit : EmitIo) (w : Written) : State :=
  match r with
  | .bytes data =>
    if data = [] then s.unregister source
    else
      let (s, ok) := emitEvent channel s .tx data emit
      if ok then writeProcInput s data w else s.raise
  | .gone => s.unregister source
  | .error => s.raise

def poll (s : State) : State :=
  match s.exited with
  | none => s
  | some code => { s with phase := .draining [] code }

def finish (s : State) (chunks : List Bytes) (code : Int) (io : ChunkIo) : State :=
  let trailing := chunks.flatten
  if trailing = [] then { s with phase := .returned code }
  else
    let (s, ok) := deliver channel s trailing io
    if ok then { s with phase := .returned code } else s.raise

def drainTurn (s : State) (chunks : List Bytes) (code : Int) (r : PipeRead) (io : ChunkIo) : State :=
  match s.readPipe r with
  | (.data data, s) => if data = [] then finish channel s chunks code io else { s with phase := .draining (chunks ++ [data]) code }
  | (_, s) => finish channel s chunks code io

/-- The steps of the command, with all who hold its pipe, and of the router. -/
inductive Action
  | write (data : Bytes)
  | release
  | exit (code : Int)
  | procOut (r : PipeRead) (io : ChunkIo)
  | input (source : Source) (r : InputRead) (emit : EmitIo) (w : Written)
  | poll
  | drain (r : PipeRead) (io : ChunkIo)

def step (s : State) : Action → Option State
  | .write data => if s.held then some { s with written := s.written ++ data, pipe := s.pipe ++ data } else none
  | .release => some { s with held := false }
  | .exit code => if s.exited = none then some { s with exited := some code, writtenAtExit := s.written } else none
  | .procOut r io => if s.phase = .looping ∧ .procOut ∈ s.registered then some (procOut channel s r io) else none
  | .input source r emit w =>
    if s.phase = .looping ∧ source ∈ s.registered ∧ source ≠ .procOut ∧ r.count ≤ 4096 then
      some (inputReady channel s source r emit w)
    else none
  | .poll => if s.phase = .looping then some (poll s) else none
  | .drain r io =>
    match s.phase with
    | .draining chunks code => some (drainTurn channel s chunks code r io)
    | _ => none

end Router

end VirtiosoMux.Stdio
