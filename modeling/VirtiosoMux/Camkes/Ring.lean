import VirtiosoMux.Library.RingBuffer
import VirtiosoMux.Camkes.Mux

/-! # The downlink ring as a queue

The multiplexer appends to the ring of a stream and the VM behind it removes. With the
counters that `console_mux_enqueue_stream_byte` keeps, a run of both is followed from an
empty ring: nothing is lost, doubled or reordered, and only a full ring refuses a byte.
-/
namespace VirtiosoMux.Camkes

structure DownlinkStats where
  uartBytes : UInt64
  payloadBytes : UInt64
  deliveredFrames : UInt64
  missingSinkBytes : UInt64
  ringFullBytes : UInt64
  unknownStreamBytes : UInt64

def enqueueCounted (sinks : List DemuxSink) (stats : DownlinkStats) (m : Downlink) (streamId : Int) (byte : Byte) :
    DownlinkStats × Downlink × Bool :=
  match consoleMuxSinkForStream sinks streamId with
  | none => ({ stats with missingSinkBytes := stats.missingSinkBytes + 1 }, m.record (.dropped streamId byte), false)
  | some i =>
    if !usable sinks i then
      ({ stats with missingSinkBytes := stats.missingSinkBytes + 1 }, m.record (.dropped streamId byte), false)
    else
      match m.rings i with
      | none => ({ stats with missingSinkBytes := stats.missingSinkBytes + 1 }, m.record (.dropped streamId byte), false)
      | some rx =>
        if nextTail rx = rx.head then
          ({ stats with ringFullBytes := stats.ringFullBytes + 1 }, m.record (.dropped streamId byte), false)
        else
          let rx' := { rx with buf := Function.update rx.buf rx.tail.toNat byte, tail := nextTail rx }
          ({ stats with payloadBytes := stats.payloadBytes + 1 },
            { m with
              rings := Function.update m.rings i (some rx')
              events := m.events ++ [.stored i rx.tail.toNat byte] }, true)

/-- The VM behind a sink reads one byte if its ring is not empty. -/
def consumeRing (rx : GetcharBuffer) : Option (Byte × GetcharBuffer) :=
  if rx.head = rx.tail then none
  else some (rx.buf rx.head.toNat, { rx with head := (rx.head + 1) % UInt32.ofNat ringSize })

inductive Turn
  | enqueue (streamId : Int) (byte : Byte)
  | consume (sink : Nat)

/-- The multiplexer with the bytes it has accepted for each stream, and those that have been
consumed from each ring. -/
structure Traffic where
  stats : DownlinkStats
  mux : Downlink
  accepted : Int → Bytes
  consumed : Nat → Bytes

def Traffic.start (stats : DownlinkStats) (m : Downlink) : Traffic := ⟨stats, m, fun _ => [], fun _ => []⟩

def Traffic.enqueue (sinks : List DemuxSink) (t : Traffic) (streamId : Int) (byte : Byte) : Traffic :=
  let r := enqueueCounted sinks t.stats t.mux streamId byte
  { t with
    stats := r.1
    mux := r.2.1
    accepted := if r.2.2 then Function.update t.accepted streamId (t.accepted streamId ++ [byte]) else t.accepted }

def Traffic.consume (t : Traffic) (i : Nat) : Traffic :=
  match (t.mux.rings i).bind consumeRing with
  | none => t
  | some (byte, rx) =>
    { t with
      mux := { t.mux with rings := Function.update t.mux.rings i (some rx) }
      consumed := Function.update t.consumed i (t.consumed i ++ [byte]) }

def Traffic.step (sinks : List DemuxSink) (t : Traffic) : Turn → Traffic
  | .enqueue streamId byte => t.enqueue sinks streamId byte
  | .consume i => t.consume i

def Traffic.run (sinks : List DemuxSink) (t : Traffic) (turns : List Turn) : Traffic := turns.foldl (Traffic.step sinks) t

def GetcharBuffer.ring (rx : GetcharBuffer) : RingBuffer Byte := ⟨rx.head.toNat, rx.tail.toNat, rx.buf⟩

def GetcharBuffer.contents (rx : GetcharBuffer) : Bytes := rx.ring.contents ringSize

/-- The counters take no part in what a call does. -/
theorem enqueueCounted_eq (sinks : List DemuxSink) (stats : DownlinkStats) (m : Downlink) (streamId : Int) (byte : Byte) :
    (enqueueCounted sinks stats m streamId byte).2 = consoleMuxEnqueueStreamByte sinks m streamId byte := by
  unfold enqueueCounted consoleMuxEnqueueStreamByte
  cases consoleMuxSinkForStream sinks streamId with
  | none => rfl
  | some i =>
    dsimp only
    split
    · rfl
    · cases m.rings i with
      | none => rfl
      | some rx =>
        dsimp only
        split <;> rfl

/-! ### One ring -/

/-- An index of the ring moves as one of a ring buffer. -/
theorem succ_mod_ringSize {i : UInt32} (h : i.toNat < ringSize) :
    ((i + 1) % UInt32.ofNat ringSize).toNat = RingBuffer.next ringSize i.toNat := by
  have hsize : (UInt32.ofNat ringSize).toNat = ringSize := by decide
  have hone : (1 : UInt32).toNat = 1 := rfl
  have hlt : i.toNat + 1 < 2 ^ 32 := by
    unfold ringSize at h
    omega
  rw [UInt32.toNat_mod, UInt32.toNat_add, hsize, hone, Nat.mod_eq_of_lt hlt]
  rfl

section Ring
variable {rx : GetcharBuffer} (h : rx.ring.InBounds ringSize)
include h

theorem put_ring (byte : Byte) :
    GetcharBuffer.ring { rx with buf := Function.update rx.buf rx.tail.toNat byte, tail := nextTail rx } =
      rx.ring.put ringSize byte := by
  have htail : (nextTail rx).toNat = RingBuffer.next ringSize rx.tail.toNat := succ_mod_ringSize h.tail
  simp only [GetcharBuffer.ring, RingBuffer.put, htail]

theorem take_ring : GetcharBuffer.ring { rx with head := (rx.head + 1) % UInt32.ofNat ringSize } = rx.ring.take ringSize := by
  have hhead := succ_mod_ringSize (i := rx.head) h.head
  simp only [GetcharBuffer.ring, RingBuffer.take, hhead]

theorem nextTail_eq_head_iff : nextTail rx = rx.head ↔ RingBuffer.next ringSize rx.ring.tail = rx.ring.head := by
  have htail : (nextTail rx).toNat = RingBuffer.next ringSize rx.tail.toNat := succ_mod_ringSize h.tail
  rw [← UInt32.toNat_inj, htail]
  rfl

/-- A ring takes a byte exactly when it holds fewer than 4087. -/
theorem room_iff : nextTail rx ≠ rx.head ↔ rx.contents.length < ringSize - 1 := by
  have hlt := RingBuffer.used_lt h
  rw [Ne, nextTail_eq_head_iff h, RingBuffer.next_tail_eq_head_iff h, GetcharBuffer.contents, RingBuffer.length_contents]
  omega

/-- The VM takes the first byte of a ring that has one. -/
theorem consumeRing_cases : consumeRing rx = none ∧ rx.contents = [] ∨
    ∃ byte rx', consumeRing rx = some (byte, rx') ∧ rx'.ring.InBounds ringSize ∧ rx.contents = byte :: rx'.contents := by
  unfold consumeRing
  split
  · rename_i heq
    exact .inl ⟨rfl, RingBuffer.contents_empty h (congrArg UInt32.toNat heq)⟩
  · rename_i hne
    refine .inr ⟨_, _, rfl, ?_, ?_⟩
    · rw [take_ring h]
      exact h.take
    · rw [GetcharBuffer.contents, GetcharBuffer.contents, take_ring h]
      exact RingBuffer.contents_take h fun heq => hne (UInt32.toNat_inj.mp heq)

end Ring

/-! ### Calls -/

section Calls
variable {sinks : List DemuxSink} {m : Downlink} {streamId : Int} {i : Nat}

theorem enqueueCounted_full {rx : GetcharBuffer} (hsink : consoleMuxSinkForStream sinks streamId = some i)
    (husable : usable sinks i = true) (hring : m.rings i = some rx) (hfull : nextTail rx = rx.head) (stats : DownlinkStats)
    (byte : Byte) : enqueueCounted sinks stats m streamId byte =
      ({ stats with ringFullBytes := stats.ringFullBytes + 1 }, m.record (.dropped streamId byte), false) := by
  simp [enqueueCounted, hsink, husable, hring, hfull]

theorem enqueueCounted_room {rx : GetcharBuffer} (hsink : consoleMuxSinkForStream sinks streamId = some i)
    (husable : usable sinks i = true) (hring : m.rings i = some rx) (hroom : nextTail rx ≠ rx.head) (stats : DownlinkStats)
    (byte : Byte) : enqueueCounted sinks stats m streamId byte =
      ({ stats with payloadBytes := stats.payloadBytes + 1 }, { m with
        rings := Function.update m.rings i (some { rx with
          buf := Function.update rx.buf rx.tail.toNat byte, tail := nextTail rx })
        events := m.events ++ [.stored i rx.tail.toNat byte] }, true) := by
  simp [enqueueCounted, hsink, husable, hring, hroom]

/-- A byte for another stream leaves the ring alone. -/
theorem enqueueCounted_other (hsink : consoleMuxSinkForStream sinks streamId ≠ some i) (stats : DownlinkStats) (byte : Byte) :
    (enqueueCounted sinks stats m streamId byte).2.1.rings i = m.rings i := by
  unfold enqueueCounted
  cases hj : consoleMuxSinkForStream sinks streamId with
  | none => rfl
  | some j =>
    have hne : i ≠ j := by
      rintro rfl
      exact hsink hj
    dsimp only
    split
    · rfl
    · cases m.rings j with
      | none => rfl
      | some rx =>
        dsimp only
        split
        · rfl
        · exact Function.update_of_ne hne _ _

end Calls

/-! ### Runs -/

/-- The ring of the sink `i`, which serves `streamId`, holds the accepted bytes that have not
been consumed. -/
structure Traffic.Queued (streamId : Int) (i : Nat) (t : Traffic) (rx : GetcharBuffer) : Prop where
  ring : t.mux.rings i = some rx
  bounds : rx.ring.InBounds ringSize
  fifo : t.consumed i ++ rx.contents = t.accepted streamId

section Runs
variable {sinks : List DemuxSink} {streamId : Int} {i : Nat} {t : Traffic} {rx : GetcharBuffer}
  (hsink : consoleMuxSinkForStream sinks streamId = some i) (husable : usable sinks i = true)

theorem Traffic.Queued.keep {t' : Traffic} (h : t.Queued streamId i rx) (hring : t'.mux.rings i = t.mux.rings i)
    (haccepted : t'.accepted streamId = t.accepted streamId) (hconsumed : t'.consumed i = t.consumed i) :
    t'.Queued streamId i rx := by
  constructor
  · exact hring.trans h.ring
  · exact h.bounds
  · rw [hconsumed, haccepted, h.fifo]

include hsink husable

theorem Traffic.Queued.enqueue (h : t.Queued streamId i rx) (byte : Byte) :
    ∃ rx', (t.enqueue sinks streamId byte).Queued streamId i rx' := by
  by_cases hfull : nextTail rx = rx.head
  · refine ⟨rx, h.keep ?_ ?_ rfl⟩
    · rw [Traffic.enqueue, enqueueCounted_full hsink husable h.ring hfull]
      rfl
    · rw [Traffic.enqueue, enqueueCounted_full hsink husable h.ring hfull]
      rfl
  · refine ⟨{ rx with buf := Function.update rx.buf rx.tail.toNat byte, tail := nextTail rx }, ?_⟩
    have hput := put_ring h.bounds byte
    have hroom : RingBuffer.next ringSize rx.ring.tail ≠ rx.ring.head :=
      fun heq => hfull ((nextTail_eq_head_iff h.bounds).mpr heq)
    rw [Traffic.enqueue, enqueueCounted_room hsink husable h.ring hfull]
    constructor
    · exact Function.update_self _ _ _
    · rw [hput]
      exact h.bounds.put byte
    · change t.consumed i ++ GetcharBuffer.contents _ = Function.update t.accepted streamId _ streamId
      rw [Function.update_self, GetcharBuffer.contents, hput, RingBuffer.contents_put h.bounds hroom, ← List.append_assoc,
        ← h.fifo]
      rfl

omit husable in
theorem Traffic.Queued.enqueueOther (h : t.Queued streamId i rx) {s : Int} (hs : s ≠ streamId) (byte : Byte) :
    (t.enqueue sinks s byte).Queued streamId i rx := by
  apply h.keep
  · exact enqueueCounted_other (fun hi => hs (consoleMuxSinkForStream_inj hi hsink)) t.stats byte
  · simp only [Traffic.enqueue]
    split
    · exact Function.update_of_ne (Ne.symm hs) _ _
    · rfl
  · rfl

omit hsink husable in
theorem Traffic.Queued.consume (h : t.Queued streamId i rx) (j : Nat) : ∃ rx', (t.consume j).Queued streamId i rx' := by
  unfold Traffic.consume
  by_cases hj : j = i
  · subst hj
    rw [h.ring, Option.bind_some]
    rcases consumeRing_cases h.bounds with ⟨hnone, -⟩ | ⟨byte, rx', hsome, hbounds, hcontents⟩
    · rw [hnone]
      exact ⟨rx, h⟩
    · rw [hsome]
      refine ⟨rx', Function.update_self _ _ _, hbounds, ?_⟩
      change Function.update t.consumed j _ j ++ _ = _
      rw [Function.update_self, List.append_assoc, ← h.fifo, hcontents]
      rfl
  · cases (t.mux.rings j).bind consumeRing with
    | none => exact ⟨rx, h⟩
    | some read => exact ⟨rx, h.keep (Function.update_of_ne (Ne.symm hj) _ _) rfl (Function.update_of_ne (Ne.symm hj) _ _)⟩

theorem Traffic.Queued.step (h : t.Queued streamId i rx) (turn : Turn) : ∃ rx', (t.step sinks turn).Queued streamId i rx' := by
  cases turn with
  | enqueue s byte =>
    by_cases hs : s = streamId
    · subst hs
      exact h.enqueue hsink husable byte
    · exact ⟨rx, h.enqueueOther hsink hs byte⟩
  | consume j => exact h.consume j

theorem Traffic.Queued.run (h : t.Queued streamId i rx) (turns : List Turn) :
    ∃ rx', (t.run sinks turns).Queued streamId i rx' := by
  induction turns generalizing t rx with
  | nil => exact ⟨rx, h⟩
  | cons turn turns ih =>
    obtain ⟨rx', h'⟩ := h.step hsink husable turn
    exact ih h'

end Runs

theorem Traffic.start_queued {m : Downlink} {streamId : Int} {i : Nat} {rx : GetcharBuffer} (hring : m.rings i = some rx)
    (hhead : rx.head = 0) (htail : rx.tail = 0) (stats : DownlinkStats) : (Traffic.start stats m).Queued streamId i rx := by
  have hbounds : rx.ring.InBounds ringSize := by
    constructor
    · change rx.head.toNat < ringSize
      rw [hhead]
      decide
    · change rx.tail.toNat < ringSize
      rw [htail]
      decide
  constructor
  · exact hring
  · exact hbounds
  · exact RingBuffer.contents_empty hbounds (congrArg UInt32.toNat (hhead.trans htail.symm))

/-- The ring of a served stream is a queue of at most 4087 bytes, whatever the calls for this and
other streams and the reads of the VMs. -/
theorem ring_bounded_fifo (sinks : List DemuxSink) (streamId : Int) (i : Nat)
    (hsink : consoleMuxSinkForStream sinks streamId = some i) (husable : usable sinks i = true) (m : Downlink) (rx₀ : GetcharBuffer)
    (hring : m.rings i = some rx₀) (hhead : rx₀.head = 0) (htail : rx₀.tail = 0) (stats : DownlinkStats) (turns : List Turn) :
    let t := (Traffic.start stats m).run sinks turns
    ∃ rx, t.mux.rings i = some rx ∧ rx.head.toNat < ringSize ∧ rx.tail.toNat < ringSize ∧
      t.consumed i ++ rx.contents = t.accepted streamId ∧
      ∀ byte, ((enqueueCounted sinks t.stats t.mux streamId byte).2.2 = true ↔ rx.contents.length < 4087) ∧
        ((enqueueCounted sinks t.stats t.mux streamId byte).2.2 = false →
          (enqueueCounted sinks t.stats t.mux streamId byte).2.1.rings = t.mux.rings ∧
          (enqueueCounted sinks t.stats t.mux streamId byte).1 = { t.stats with ringFullBytes := t.stats.ringFullBytes + 1 }) := by
  intro t
  have hstart : (Traffic.start stats m).Queued streamId i rx₀ := Traffic.start_queued hring hhead htail stats
  obtain ⟨rx, h⟩ := hstart.run hsink husable turns
  refine ⟨rx, h.ring, h.bounds.head, h.bounds.tail, h.fifo, fun byte => ?_⟩
  have hroom : nextTail rx ≠ rx.head ↔ rx.contents.length < 4087 := room_iff h.bounds
  by_cases hfull : nextTail rx = rx.head
  · rw [enqueueCounted_full hsink husable h.ring hfull]
    refine ⟨?_, fun _ => ⟨rfl, rfl⟩⟩
    simp [← hroom, hfull]
  · rw [enqueueCounted_room hsink husable h.ring hfull]
    refine ⟨?_, nofun⟩
    simp [← hroom, hfull]

/-- Two bytes for one stream and one for another, with one read between them. -/
theorem ring_bounded_fifo_twoStreams :
    let t := (Traffic.start ⟨0, 0, 0, 0, 0, 0⟩ (Downlink.start fun _ => some ⟨0, 0, fun _ => 0⟩)).run
      [⟨1, true, true⟩, ⟨2, true, true⟩] [.enqueue 1 0x61, .enqueue 1 0x62, .consume 0, .enqueue 2 0x63]
    ∃ rx, t.mux.rings 0 = some rx ∧ rx.contents = [0x62] := by
  intro t
  obtain ⟨rx, hring, -, -, hfifo, -⟩ := ring_bounded_fifo [⟨1, true, true⟩, ⟨2, true, true⟩] 1 0 (by decide) (by decide)
    (Downlink.start fun _ => some ⟨0, 0, fun _ => 0⟩) _ rfl rfl rfl ⟨0, 0, 0, 0, 0, 0⟩
    [.enqueue 1 0x61, .enqueue 1 0x62, .consume 0, .enqueue 2 0x63]
  have hconsumed : t.consumed 0 = [0x61] := by decide +kernel
  have haccepted : t.accepted 1 = [0x61] ++ [0x62] := by decide +kernel
  exact ⟨rx, hring, List.append_cancel_left (hconsumed ▸ haccepted ▸ hfifo)⟩

end VirtiosoMux.Camkes
