import VirtiosoMux.Library.Demux
import VirtiosoMux.Camkes.Downlink

/-! # The receiver as a demultiplexer

`console_mux_feed_downlink_byte` moves its cursor as the general receiver of a stuffed line
does: it selects the streams that have a sink, and the control byte selects none. With all
rings open it also stores what that receiver hands on. Nothing is assumed about the cursor; a
stream number without a sink may stand in it.
-/
namespace VirtiosoMux.Camkes
open Demux

def Downlink.cursor (m : Downlink) : Cursor Int :=
  ⟨if m.rxStream ≥ 0 then some m.rxStream else none, m.rxEscape⟩

def sinkStream (sinks : List DemuxSink) (b : Byte) : Option Int :=
  if b ≠ vcmuxProtoEscControl ∧ (consoleMuxSinkForStream sinks b.toNat).isSome then some b.toNat else none

abbrev lineNext (sinks : List DemuxSink) : Cursor Int → Byte → Cursor Int :=
  next vcmuxProtoEscStart vcmuxProtoEscDefault (sinkStream sinks)

abbrev lineAfter (sinks : List DemuxSink) : Cursor Int → Bytes → Cursor Int :=
  after vcmuxProtoEscStart vcmuxProtoEscDefault (sinkStream sinks)

abbrev lineOutput (sinks : List DemuxSink) : Cursor Int → Bytes → List (Int × Byte) :=
  output vcmuxProtoEscStart vcmuxProtoEscDefault (sinkStream sinks)

def ringBytes (sinks : List DemuxSink) (i : Nat) (out : List (Int × Byte)) : Bytes :=
  received (fun streamId => consoleMuxSinkForStream sinks streamId = some i) out

theorem Effect.toCursor {m m' : Downlink} {cur : Int} {escape : Bool} {stored : Nat → Bytes} {acked : List Int}
    (e : Effect m m' cur escape stored acked) : m'.cursor = ⟨if cur ≥ 0 then some cur else none, escape⟩ := by
  rw [Downlink.cursor, e.cur, e.escape]

section Byte
variable (sinks : List DemuxSink) {m : Downlink} {r : Received}

/-- The control byte is answered with an event for the reader, and the cursor is cleared. -/
theorem receive_control (he : m.rxEscape = true) (hb : r.byte = vcmuxProtoEscControl) :
    Effect m (m.receive sinks r) (-1) false (fun _ => []) [] := by
  obtain ⟨es, hes, hq⟩ := emitStreamReady_eq sinks { m with rings := r.clients m.rings, rxEscape := false } m.rxStream
  have hclose : vcmuxProtoEscControl ≠ vcmuxProtoEscDefault := by decide
  have hesc : vcmuxProtoEscControl ≠ vcmuxProtoEscStart := by decide
  have heq : m.receive sinks r = { m with
      rings := r.clients m.rings, rxEscape := false, rxStream := -1, events := m.events ++ es } := by
    simp [Downlink.receive, consoleMuxFeedDownlinkByte, he, hb, hclose, hesc, hes]
  rw [heq]
  exact effect_quiet rfl hq

/-- Payload, escaped or not, is enqueued if a stream is selected. -/
theorem receive_enqueues (hp : m.rxEscape = true ↔ r.byte = vcmuxProtoEscStart) :
    m.receive sinks r =
      if m.rxStream ≥ 0 then
        (consoleMuxEnqueueStreamByte sinks { m with rings := r.clients m.rings, rxEscape := false } m.rxStream r.byte).1
      else { m with rings := r.clients m.rings, rxEscape := false } := by
  cases he : m.rxEscape with
  | true =>
    have hb := hp.mp he
    have hne : vcmuxProtoEscStart ≠ vcmuxProtoEscDefault := by decide
    simp only [Downlink.receive, consoleMuxFeedDownlinkByte, he, if_true, hb, hne, if_false]
  | false =>
    have hb : r.byte ≠ vcmuxProtoEscStart := fun hb => by rw [hp.mpr hb] at he; cases he
    simp only [Downlink.receive, consoleMuxFeedDownlinkByte, he, Bool.false_eq_true, if_false, hb]

theorem enqueue_cursor (m : Downlink) (streamId : Int) (byte : Byte) :
    (consoleMuxEnqueueStreamByte sinks m streamId byte).1.cursor = m.cursor := by
  unfold consoleMuxEnqueueStreamByte
  split
  · rfl
  · split
    · rfl
    · split
      · rfl
      · split <;> rfl

/-- A delimiter moves the cursor and stores nothing. -/
theorem receive_delimiter (hp : ¬ (m.rxEscape = true ↔ r.byte = vcmuxProtoEscStart)) :
    ∃ cur escape acked, Effect m (m.receive sinks r) cur escape (fun _ => []) acked ∧
      lineNext sinks m.cursor r.byte = ⟨if cur ≥ 0 then some cur else none, escape⟩ := by
  by_cases hb : r.byte = vcmuxProtoEscStart
  · have he : m.rxEscape = false := by simpa [hb] using hp
    exact ⟨_, _, _, receive_escape sinks he hb, by simp [next, Downlink.cursor, he, hb]⟩
  · have he : m.rxEscape = true := by simpa [hb] using hp
    have hesc : m.cursor.escape = true := he
    by_cases hclose : r.byte = vcmuxProtoEscDefault
    · exact ⟨_, _, _, receive_close sinks he hclose, by simp [next, hesc, hclose, Cursor.idle]⟩
    · by_cases hcontrol : r.byte = vcmuxProtoEscControl
      · have hselect : sinkStream sinks r.byte = none := by simp [sinkStream, hcontrol]
        exact ⟨_, _, _, receive_control sinks he hcontrol, by simp [next, hesc, hclose, hb, hselect]⟩
      · refine ⟨_, _, _, receive_select sinks he (not_reserved_iff.mpr ⟨hclose, hcontrol, hb⟩), ?_⟩
        by_cases hs : (consoleMuxSinkForStream sinks r.byte.toNat).isSome = true
        · simp [next, hesc, hclose, hb, hcontrol, sinkStream, hs]
        · simp [next, hesc, hclose, hb, sinkStream, hs]

/-- Full rings and missing sinks do not disturb the cursor. -/
theorem receive_cursor (m : Downlink) (r : Received) : (m.receive sinks r).cursor = lineNext sinks m.cursor r.byte := by
  by_cases hp : m.rxEscape = true ↔ r.byte = vcmuxProtoEscStart
  · have hnext : lineNext sinks m.cursor r.byte = ⟨m.cursor.current, false⟩ :=
      (receiver_payload (sinkStream sinks) (by decide) hp).1
    rw [hnext, receive_enqueues sinks hp]
    split
    · rw [enqueue_cursor]
      rfl
    · rfl
  · obtain ⟨cur, escape, acked, e, hnext⟩ := receive_delimiter sinks hp
    rw [e.toCursor, hnext]

/-- With all rings open what the general receiver hands on is stored. -/
theorem receive_stored (hopen : ringsOpen sinks m r) (i : Nat) :
    storedTo i (m.receive sinks r).events = storedTo i m.events ++
      ringBytes sinks i (emit vcmuxProtoEscStart vcmuxProtoEscDefault m.cursor r.byte).toList := by
  by_cases hp : m.rxEscape = true ↔ r.byte = vcmuxProtoEscStart
  · have hemit : emit vcmuxProtoEscStart vcmuxProtoEscDefault m.cursor r.byte = m.cursor.current.map (·, r.byte) :=
      (receiver_payload (sinkStream sinks) (by decide) hp).2
    rw [hemit]
    by_cases hc : m.rxStream ≥ 0
    · cases hs : consoleMuxSinkForStream sinks m.rxStream with
      | none =>
        rw [receive_enqueues sinks hp, if_pos hc]
        simp [consoleMuxEnqueueStreamByte, hs, Downlink.record, ringBytes, received, Downlink.cursor, hc, storedTo,
          Event.storedByte]
      | some j =>
        rw [(receive_payload sinks hs hc hopen hp).stored]
        by_cases hij : i = j
        · simp [ringBytes, received, Downlink.cursor, hc, hs, hij]
        · simp [ringBytes, received, Downlink.cursor, hc, hs, hij, Ne.symm hij]
    · rw [receive_enqueues sinks hp, if_neg hc]
      simp [ringBytes, Downlink.cursor, hc]
  · obtain ⟨cur, escape, acked, e, -⟩ := receive_delimiter sinks hp
    rw [e.stored, emit_delimiter hp]
    rfl

end Byte

section Line
variable (sinks : List DemuxSink)

theorem drain_cursor (m : Downlink) (received : List Received) :
    (consoleMuxDrainUart sinks m received).cursor = lineAfter sinks m.cursor (received.map Received.byte) := by
  induction received generalizing m with
  | nil => rfl
  | cons r rest ih =>
    change (consoleMuxDrainUart sinks (m.receive sinks r) rest).cursor = _
    rw [ih, receive_cursor]
    rfl

/-- A whole line, from any cursor. -/
theorem feeds_stored {sinks : List DemuxSink} {m m' : Downlink} {received : List Received} (h : Feeds sinks m received m') (i : Nat) :
    storedTo i m'.events = storedTo i m.events ++
      ringBytes sinks i (lineOutput sinks m.cursor (received.map Received.byte)) := by
  induction received generalizing m with
  | nil =>
    rw [h.nil_eq]
    exact (List.append_nil _).symm
  | cons r rest ih =>
    obtain ⟨t, hopen, hstep, hrun⟩ := h.head
    cases hstep
    rw [ih hrun, receive_stored sinks hopen, receive_cursor, List.append_assoc]
    exact congrArg _ (received_append _ _ _).symm

end Line

end VirtiosoMux.Camkes
