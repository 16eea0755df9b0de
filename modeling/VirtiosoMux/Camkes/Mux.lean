import Mathlib
import VirtiosoMux.Protocol.Wire

/-! # The CAmkES multiplexer

The functions of `console_mux.c` between the clients' dataports and the serial device.
The dataports belong to the clients: what stands in them when a function runs is an
argument, and an index the code computes from it is not assumed to be in bounds. The
counters that only feed log lines are left out.
-/
namespace VirtiosoMux.Camkes

/-- `stream_id` of the source is an `int`; a 32-bit field is converted to it. -/
def toInt (w : UInt32) : Int := if w.toNat < 2 ^ 31 then w.toNat else (w.toNat : Int) - 2 ^ 32

/-- A client's batch dataport. `buf` is the memory from the start of the buffer on,
whose declared size is `batchSize`. -/
structure BatchBuffer where
  streamId : UInt32
  head : UInt32
  tail : UInt32
  buf : Nat → Byte

def batchSize : Nat := 4096 - 12

structure GetcharBuffer where
  head : UInt32
  tail : UInt32
  buf : Nat → Byte

def ringSize : Nat := 4096 - 8

/-- An entry of the generated sink table. The flags tell whether the function pointers
are set; the wrappers generated for different entries return different dataports. -/
structure DemuxSink where
  streamId : Int
  buf : Bool
  emit : Bool

def frameSize : Nat := 4096 - 8

def consoleMuxValidStreamId (streamId : Int) : Bool :=
  decide (streamId > 0) && decide (streamId ≤ 0xff) && decide (streamId ≠ 0xfe) && decide (streamId ≠ 0xfd)

def streamByte (streamId : Int) : Byte := UInt8.ofNat streamId.toNat

/-! ### Uplink -/

/-- The bytes of one `console_mux_uplink_bytes` call, or of none. -/
def consoleMuxEmitRegistry (json : Bytes) : List Bytes :=
  let len := json.length
  if len > 0xffff ∨ len + 5 > frameSize then []
  else [[vcmuxProtoEscStart, vcmuxProtoEscControl, vcmuxProtoControlStreamRegistry,
    UInt8.ofNat ((len >>> 8) % 256), UInt8.ofNat (len % 256)] ++ json]

/-- The registry goes out with the first frame. The flag is `console_mux_registry_emitted`. -/
def consoleMuxMaybeEmitRegistry (json : Bytes) (registryEmitted : Bool) : List Bytes :=
  if registryEmitted then [] else consoleMuxEmitRegistry json

def consoleMuxEmitDownlinkAck (streamId : Int) : List Bytes :=
  if consoleMuxValidStreamId streamId then
    [[vcmuxProtoEscStart, vcmuxProtoEscControl, vcmuxProtoControlDownlinkAck]]
  else []

/-- The loop variables of `console_mux_emit_framed_payload`: what has been handed to
`console_mux_uplink_bytes`, the filled part of the frame buffer, and the offsets read. -/
structure Framing where
  sent : List Bytes
  frame : Bytes
  reads : List Nat

def frameByte (id : Byte) (bytes : Nat → Byte) (f : Framing) (i : Nat) : Framing :=
  let byte := bytes i
  let f := { f with reads := f.reads ++ [i] }
  let f := if f.frame.length + 4 ≥ frameSize then
      { f with sent := f.sent ++ [f.frame], frame := [vcmuxProtoEscStart, id] }
    else f
  let frame := if byte = vcmuxProtoEscStart then f.frame ++ [vcmuxProtoEscStart] else f.frame
  { f with frame := frame ++ [byte] }

def closeFrame (f : Framing) : List Bytes :=
  let f := if f.frame.length + 2 ≥ frameSize then { f with sent := f.sent ++ [f.frame], frame := [] } else f
  f.sent ++ [f.frame ++ [vcmuxProtoEscStart, vcmuxProtoEscDefault]]

/-- Result: the calls of `console_mux_uplink_bytes`, the offsets of `bytes` that are read,
and the registry flag afterwards. -/
def consoleMuxEmitFramedPayload (json : Bytes) (registryEmitted : Bool) (streamId : Int) (bytes : Nat → Byte)
    (bytesLen : Nat) : List Bytes × List Nat × Bool :=
  if !consoleMuxValidStreamId streamId then ([], [], registryEmitted)
  else
    let registry := consoleMuxMaybeEmitRegistry json registryEmitted
    let id := streamByte streamId
    let f := (List.range bytesLen).foldl (frameByte id bytes) ⟨[], [vcmuxProtoEscStart, id], []⟩
    (registry ++ closeFrame f, f.reads, true)

/-- Result: the uplink calls, the indices of `batch->buf` that are read, the registry flag
and the dataport afterwards. -/
def muxBatchBatch (json : Bytes) (registryEmitted : Bool) (batch : Option BatchBuffer) :
    List Bytes × List Nat × Bool × Option BatchBuffer :=
  match batch with
  | none => ([], [], registryEmitted, none)
  | some b =>
    let streamId := toInt b.streamId
    if !consoleMuxValidStreamId streamId then ([], [], registryEmitted, some b)
    else if b.tail < b.head then ([], [], registryEmitted, some b)
    else
      let bytesLen := b.tail - b.head
      if bytesLen = 0 then ([], [], registryEmitted, some b)
      else
        let (calls, reads, emitted) := consoleMuxEmitFramedPayload json registryEmitted streamId
          (fun i => b.buf (b.head.toNat + i)) bytesLen.toNat
        (calls, reads.map (b.head.toNat + ·), emitted, some { b with head := b.tail })

/-! ### Downlink -/

/-- What the receiver does, in order. `selected` marks the start of a frame. -/
inductive Event
  | selected (streamId : Int)
  | stored (sink index : Nat) (byte : Byte)
  | dropped (streamId : Int) (byte : Byte)
  | ready (sink : Nat)
  | ack (streamId : Int)
deriving DecidableEq

/-- The receiver's cursor, the dataports of the sinks (`none` for a null pointer) and the
trace of what it has done. -/
structure Downlink where
  rxStream : Int
  rxEscape : Bool
  rings : Nat → Option GetcharBuffer
  events : List Event

def Downlink.record (m : Downlink) (e : Event) : Downlink := { m with events := m.events ++ [e] }

def consoleMuxSinkForStream (sinks : List DemuxSink) (streamId : Int) : Option Nat :=
  sinks.findIdx? (fun s => s.streamId == streamId)

def usable (sinks : List DemuxSink) (i : Nat) : Bool :=
  match sinks[i]? with
  | none => false
  | some s => s.buf && s.emit

def nextTail (rx : GetcharBuffer) : UInt32 := (rx.tail + 1) % UInt32.ofNat ringSize

/-- The result zero of the source is `true`. -/
def consoleMuxEnqueueStreamByte (sinks : List DemuxSink) (m : Downlink) (streamId : Int) (byte : Byte) :
    Downlink × Bool :=
  match consoleMuxSinkForStream sinks streamId with
  | none => (m.record (.dropped streamId byte), false)
  | some i =>
    if !usable sinks i then (m.record (.dropped streamId byte), false)
    else
      match m.rings i with
      | none => (m.record (.dropped streamId byte), false)
      | some rx =>
        if nextTail rx = rx.head then (m.record (.dropped streamId byte), false)
        else
          let rx' := { rx with buf := Function.update rx.buf rx.tail.toNat byte, tail := nextTail rx }
          ({ m with
            rings := Function.update m.rings i (some rx')
            events := m.events ++ [.stored i rx.tail.toNat byte] }, true)

def consoleMuxEmitStreamReady (sinks : List DemuxSink) (m : Downlink) (streamId : Int) : Downlink :=
  match consoleMuxSinkForStream sinks streamId with
  | none => m
  | some i => if (sinks[i]?.map DemuxSink.emit).getD false then m.record (.ready i) else m

/-- The acknowledgement record, if one is sent, goes out at once. -/
def Downlink.acknowledge (m : Downlink) (streamId : Int) : Downlink :=
  if consoleMuxEmitDownlinkAck streamId = [] then m else m.record (.ack streamId)

def consoleMuxFeedDownlinkByte (sinks : List DemuxSink) (m : Downlink) (byte : Byte) : Downlink :=
  if m.rxEscape then
    let m := { m with rxEscape := false }
    if byte = vcmuxProtoEscDefault then
      let m := consoleMuxEmitStreamReady sinks m m.rxStream
      { m.acknowledge m.rxStream with rxStream := -1 }
    else if byte = vcmuxProtoEscStart then
      if m.rxStream ≥ 0 then (consoleMuxEnqueueStreamByte sinks m m.rxStream byte).1 else m
    else if byte = vcmuxProtoEscControl then
      { consoleMuxEmitStreamReady sinks m m.rxStream with rxStream := -1 }
    else
      let m := consoleMuxEmitStreamReady sinks m m.rxStream
      if (consoleMuxSinkForStream sinks byte.toNat).isSome then
        { m.record (.selected byte.toNat) with rxStream := byte.toNat }
      else { m with rxStream := -1 }
  else if byte = vcmuxProtoEscStart then { m with rxEscape := true }
  else if m.rxStream ≥ 0 then (consoleMuxEnqueueStreamByte sinks m m.rxStream byte).1
  else m

/-- A received byte, with what the clients have done to their dataports before it. -/
structure Received where
  clients : (Nat → Option GetcharBuffer) → (Nat → Option GetcharBuffer)
  byte : Byte

def Downlink.receive (sinks : List DemuxSink) (m : Downlink) (r : Received) : Downlink :=
  consoleMuxFeedDownlinkByte sinks { m with rings := r.clients m.rings } r.byte

def consoleMuxDrainUart (sinks : List DemuxSink) (m : Downlink) (received : List Received) : Downlink :=
  received.foldl (Downlink.receive sinks) m

def Downlink.start (rings : Nat → Option GetcharBuffer) : Downlink := ⟨-1, false, rings, []⟩

/-! ### Where a byte goes -/

/-- Different streams have different sinks. -/
theorem consoleMuxSinkForStream_inj {sinks : List DemuxSink} {s s' : Int} {i : Nat}
    (h : consoleMuxSinkForStream sinks s = some i) (h' : consoleMuxSinkForStream sinks s' = some i) : s = s' := by
  have hid : ∀ {x : Int}, consoleMuxSinkForStream sinks x = some i → ∃ sink, sinks[i]? = some sink ∧ sink.streamId = x := by
    intro x hx
    obtain ⟨hlt, hsink, -⟩ := List.findIdx?_eq_some_iff_getElem.mp hx
    exact ⟨sinks[i], List.getElem?_eq_getElem hlt, by simpa using hsink⟩
  obtain ⟨sink, hsink, rfl⟩ := hid h
  obtain ⟨sink', hsink', rfl⟩ := hid h'
  rw [hsink] at hsink'
  cases hsink'
  rfl

def targetRing (sinks : List DemuxSink) (m : Downlink) (streamId : Int) : Option (Nat × GetcharBuffer) :=
  (consoleMuxSinkForStream sinks streamId).bind (fun i =>
    if usable sinks i then (m.rings i).map (fun rx => (i, rx)) else none)

def Accepting (sinks : List DemuxSink) (m : Downlink) (streamId : Int) : Prop :=
  ∃ i rx, targetRing sinks m streamId = some (i, rx) ∧ nextTail rx ≠ rx.head

instance (sinks : List DemuxSink) (m : Downlink) (streamId : Int) : Decidable (Accepting sinks m streamId) :=
  match h : targetRing sinks m streamId with
  | none => isFalse (by simp [Accepting, h])
  | some (i, rx) => decidable_of_iff (nextTail rx ≠ rx.head) (by simp [Accepting, h])

theorem enqueue_stored {sinks : List DemuxSink} {m : Downlink} {streamId : Int} {i : Nat} {rx : GetcharBuffer}
    (ht : targetRing sinks m streamId = some (i, rx)) (hroom : nextTail rx ≠ rx.head) (byte : Byte) :
    consoleMuxEnqueueStreamByte sinks m streamId byte = ({ m with
      rings := Function.update m.rings i (some { rx with
        buf := Function.update rx.buf rx.tail.toNat byte, tail := nextTail rx })
      events := m.events ++ [.stored i rx.tail.toNat byte] }, true) := by
  obtain ⟨j, hs, hj⟩ := Option.bind_eq_some_iff.mp ht
  split at hj
  · rename_i hu
    obtain ⟨rx', hr, heq⟩ := Option.map_eq_some_iff.mp hj
    cases heq
    simp [consoleMuxEnqueueStreamByte, hs, hu, hr, hroom]
  · cases hj

theorem enqueue_dropped {sinks : List DemuxSink} {m : Downlink} {streamId : Int}
    (h : ¬ Accepting sinks m streamId) (byte : Byte) :
    consoleMuxEnqueueStreamByte sinks m streamId byte = (m.record (.dropped streamId byte), false) := by
  cases hs : consoleMuxSinkForStream sinks streamId with
  | none => simp [consoleMuxEnqueueStreamByte, hs]
  | some i =>
    by_cases hu : usable sinks i = true
    · cases hr : m.rings i with
      | none => simp [consoleMuxEnqueueStreamByte, hs, hu, hr]
      | some rx =>
        have hfull : nextTail rx = rx.head := by
          by_contra hroom
          exact h ⟨i, rx, by simp [targetRing, hs, hu, hr], hroom⟩
        simp [consoleMuxEnqueueStreamByte, hs, hu, hr, hfull]
    · simp only [Bool.not_eq_true] at hu
      simp [consoleMuxEnqueueStreamByte, hs, hu]

end VirtiosoMux.Camkes
