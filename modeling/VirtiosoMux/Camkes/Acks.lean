import VirtiosoMux.Library.Runs
import VirtiosoMux.Camkes.Mux

/-! # What an acknowledgement says about its frame

A frame is acknowledged at its close from the cursor alone; whether its bytes were
accepted was decided before, one by one, and the result was thrown away.
-/
namespace VirtiosoMux.Camkes

def dropsAfter (dropped : Bool) : Event → Bool
  | .selected _ => false
  | .dropped _ _ => true
  | _ => dropped

def droppedInFrame (events : List Event) : Bool := events.foldl dropsAfter false

def AcksTruthful (events : List Event) : Prop :=
  ∀ before streamId after, events = before ++ .ack streamId :: after → droppedInFrame before = false

/-- The byte is payload of the selected stream: a literal escape, or any other byte outside
an escape pair. -/
def Downlink.Payload (m : Downlink) (byte : Byte) : Prop :=
  m.rxStream ≥ 0 ∧ (m.rxEscape = true ↔ byte = vcmuxProtoEscStart)

instance (m : Downlink) (byte : Byte) : Decidable (m.Payload byte) := inferInstanceAs (Decidable (_ ∧ _))

/-- Payload only arrives when the stream's ring takes it. -/
def payloadAccepted (sinks : List DemuxSink) (m : Downlink) (r : Received) : Prop :=
  m.Payload r.byte → Accepting sinks { m with rings := r.clients m.rings } m.rxStream

instance (sinks : List DemuxSink) (m : Downlink) (r : Received) : Decidable (payloadAccepted sinks m r) :=
  inferInstanceAs (Decidable (_ → _))

def NoDrops (events : List Event) : Prop := ∀ s b, Event.dropped s b ∉ events

theorem NoDrops.snoc {events : List Event} (h : NoDrops events) {e : Event} (he : ∀ s b, e ≠ .dropped s b) :
    NoDrops (events ++ [e]) := by
  intro s b hmem
  rcases List.mem_append.mp hmem with hmem | hmem
  · exact h s b hmem
  · exact he s b (List.mem_singleton.mp hmem).symm

theorem NoDrops.droppedInFrame {events : List Event} (h : NoDrops events) : droppedInFrame events = false := by
  induction events using List.reverseRecOn with
  | nil => rfl
  | append_singleton events e ih =>
    have hprev : NoDrops events := fun s b hmem => h s b (List.mem_append_left _ hmem)
    rw [Camkes.droppedInFrame, List.foldl_append, List.foldl_cons, List.foldl_nil]
    cases e with
    | dropped s b => exact absurd (List.mem_append_right events (List.mem_singleton.mpr rfl)) (h s b)
    | selected => rfl
    | stored => exact ih hprev
    | ready => exact ih hprev
    | ack => exact ih hprev

theorem NoDrops.acksTruthful {events : List Event} (h : NoDrops events) : AcksTruthful events := by
  intro before streamId after heq
  refine NoDrops.droppedInFrame ?_
  intro s b hmem
  exact h s b (by rw [heq]; exact List.mem_append_left _ hmem)

/-! ### One byte -/

theorem emitStreamReady_noDrops {sinks : List DemuxSink} {m : Downlink} (h : NoDrops m.events) (streamId : Int) :
    NoDrops (consoleMuxEmitStreamReady sinks m streamId).events := by
  unfold consoleMuxEmitStreamReady
  split
  · exact h
  · split
    · exact h.snoc (by simp)
    · exact h

theorem acknowledge_noDrops {m : Downlink} (h : NoDrops m.events) (streamId : Int) :
    NoDrops (m.acknowledge streamId).events := by
  unfold Downlink.acknowledge
  split
  · exact h
  · exact h.snoc (by simp)

theorem enqueue_noDrops {sinks : List DemuxSink} {m : Downlink} (h : NoDrops m.events) {streamId : Int}
    (hacc : Accepting sinks m streamId) (byte : Byte) :
    NoDrops (consoleMuxEnqueueStreamByte sinks m streamId byte).1.events := by
  obtain ⟨i, rx, ht, hroom⟩ := hacc
  rw [enqueue_stored ht hroom]
  exact h.snoc (by simp)

theorem receive_noDrops {sinks : List DemuxSink} {m : Downlink} (h : NoDrops m.events) {r : Received}
    (hok : payloadAccepted sinks m r) : NoDrops (m.receive sinks r).events := by
  unfold Downlink.receive consoleMuxFeedDownlinkByte
  have hready : ∀ b, NoDrops (consoleMuxEmitStreamReady sinks
      { m with rings := r.clients m.rings, rxEscape := b } m.rxStream).events := by
    intro b
    exact emitStreamReady_noDrops (m := { m with rings := r.clients m.rings, rxEscape := b }) h _
  split
  · rename_i hesc
    simp only at hesc ⊢
    split
    · exact acknowledge_noDrops (hready false) _
    · split
      · rename_i hbyte
        split
        · rename_i hcur
          refine enqueue_noDrops (m := { m with rings := r.clients m.rings, rxEscape := false }) h ?_ _
          exact hok ⟨hcur, by simp [hesc, hbyte]⟩
        · exact h
      · split
        · exact hready false
        · split
          · exact (hready false).snoc (by simp)
          · exact hready false
  · rename_i hesc
    simp only [Bool.not_eq_true] at hesc
    split
    · exact h
    · rename_i hbyte
      split
      · rename_i hcur
        exact enqueue_noDrops (m := { m with rings := r.clients m.rings }) h (hok ⟨hcur, by simp [hesc, hbyte]⟩) _
      · exact h

/-- In every run in which payload only arrives when its ring takes it, an acknowledgement
means that the whole frame was accepted. -/
theorem acks_truthful {sinks : List DemuxSink} {rings : Nat → Option GetcharBuffer} {received : List Received}
    {m : Downlink} (hr : Machine.Runs (fun m r => some (m.receive sinks r)) (payloadAccepted sinks)
      (Downlink.start rings) received m) : AcksTruthful m.events := by
  have hstep : ∀ (s : Downlink) (r : Received) (t : Downlink), NoDrops s.events → payloadAccepted sinks s r →
      some (s.receive sinks r) = some t → NoDrops t.events := by
    intro s r t h hok hs
    cases hs
    exact receive_noDrops h hok
  have hstart : NoDrops (Downlink.start rings).events := by simp [NoDrops, Downlink.start]
  exact (hr.invariant hstep hstart).acksTruthful

def undisturbed (bytes : Bytes) : List Received := bytes.map (fun b => ⟨id, b⟩)

/-- A ring with room for the frame. -/
theorem acks_truthful_oneFrame : ∃ m, Machine.Runs (fun m r => some (m.receive [⟨1, true, true⟩] r))
      (payloadAccepted [⟨1, true, true⟩]) (Downlink.start (fun _ => some ⟨0, 0, fun _ => 0⟩))
      (undisturbed [0xfe, 0x01, 0x41, 0xfe, 0x00]) m ∧
    m.events = [.selected 1, .stored 0 0 0x41, .ready 0, .ack 1] ∧ AcksTruthful m.events := by
  have hr : Machine.Runs (fun (m : Downlink) r => some (m.receive [⟨1, true, true⟩] r))
      (payloadAccepted [⟨1, true, true⟩]) (Downlink.start (fun _ => some ⟨0, 0, fun _ => 0⟩))
      (undisturbed [0xfe, 0x01, 0x41, 0xfe, 0x00]) _ := Machine.runs_of_guarded rfl
  exact ⟨_, hr, by decide, acks_truthful hr⟩

/-- The ring is full, the byte is dropped, and the frame is acknowledged. -/
theorem full_ring_acknowledged : ¬ ∀ sinks rings received,
    AcksTruthful (consoleMuxDrainUart sinks (Downlink.start rings) received).events := by
  intro h
  have hevents : (consoleMuxDrainUart [⟨1, true, true⟩] (Downlink.start (fun _ => some ⟨1, 0, fun _ => 0⟩))
      (undisturbed [0xfe, 0x01, 0x41, 0xfe, 0x00])).events =
      [.selected 1, .dropped 1 0x41, .ready 0] ++ [.ack 1] := by decide +kernel
  have hack := h _ _ _ _ 1 [] hevents
  cases hack

end VirtiosoMux.Camkes
