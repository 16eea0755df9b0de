import VirtiosoMux.Camkes.Mux

/-! # Indices into the clients' buffers

The multiplexer compares the indices it finds in a dataport with each other, not with the
size of the buffer. Which contents lead it out of bounds is determined exactly.
-/
namespace VirtiosoMux.Camkes

theorem frameByte_reads (id : Byte) (bytes : Nat → Byte) (f : Framing) (i : Nat) :
    (frameByte id bytes f i).reads = f.reads ++ [i] := by
  simp only [frameByte]
  split <;> rfl

theorem framing_reads (id : Byte) (bytes : Nat → Byte) (is : List Nat) (f : Framing) :
    (is.foldl (frameByte id bytes) f).reads = f.reads ++ is := by
  induction is generalizing f with
  | nil => simp
  | cons i is ih => rw [List.foldl_cons, ih, frameByte_reads]; simp

/-- A batch that is not refused is read from its head up to its tail. -/
theorem muxBatchBatch_reads {b : BatchBuffer} (hid : consoleMuxValidStreamId (toInt b.streamId) = true)
    (hlt : b.head < b.tail) (json : Bytes) (emitted : Bool) :
    (muxBatchBatch json emitted (some b)).2.1 =
      (List.range (b.tail.toNat - b.head.toNat)).map (b.head.toNat + ·) := by
  have hle : b.head ≤ b.tail := UInt32.le_of_lt hlt
  have hn : ¬ b.tail < b.head := UInt32.not_lt.mpr hle
  have hlen : (b.tail - b.head).toNat = b.tail.toNat - b.head.toNat := UInt32.toNat_sub_of_le _ _ hle
  have hpos : b.tail - b.head ≠ 0 := by
    intro h0
    have : (b.tail - b.head).toNat = 0 := by rw [h0]; rfl
    have := UInt32.lt_iff_toNat_lt.mp hlt
    omega
  simp [muxBatchBatch, hid, hn, hpos, hlen, consoleMuxEmitFramedPayload, framing_reads]

def BatchInBounds (batch : Option BatchBuffer) : Prop :=
  ∀ b, batch = some b → consoleMuxValidStreamId (toInt b.streamId) = false ∨ b.tail ≤ b.head ∨ b.tail.toNat ≤ batchSize

theorem batch_reads_iff (json : Bytes) (emitted : Bool) (batch : Option BatchBuffer) :
    (∀ i ∈ (muxBatchBatch json emitted batch).2.1, i < batchSize) ↔ BatchInBounds batch := by
  cases batch with
  | none => simp [muxBatchBatch, BatchInBounds]
  | some b =>
    by_cases hid : consoleMuxValidStreamId (toInt b.streamId) = true
    · by_cases hlt : b.head < b.tail
      · rw [muxBatchBatch_reads hid hlt]
        have hlt' := UInt32.lt_iff_toNat_lt.mp hlt
        constructor
        · intro h b' hb'
          cases hb'
          have hlast := h (b.tail.toNat - 1) (List.mem_map.mpr
            ⟨b.tail.toNat - 1 - b.head.toNat, List.mem_range.mpr (by omega), by omega⟩)
          exact .inr (.inr (by omega))
        · intro h i hi
          obtain ⟨k, hk, rfl⟩ := List.mem_map.mp hi
          have hk := List.mem_range.mp hk
          rcases h b rfl with h | h | h
          · rw [hid] at h; cases h
          · exact absurd hlt (UInt32.not_lt.mpr h)
          · omega
      · have hle := UInt32.not_lt.mp hlt
        have hempty : (muxBatchBatch json emitted (some b)).2.1 = [] := by
          rcases UInt32.lt_or_eq_of_le hle with h | h
          · simp [muxBatchBatch, hid, h]
          · have hn : ¬ b.tail < b.head := by rw [h]; exact UInt32.lt_irrefl _
            simp [muxBatchBatch, hid, h]
        simp [hempty, BatchInBounds, hle]
    · simp only [Bool.not_eq_true] at hid
      simp [muxBatchBatch, BatchInBounds, hid]

def RingInBounds (sinks : List DemuxSink) (m : Downlink) (streamId : Int) : Prop :=
  ∀ i rx, targetRing sinks m streamId = some (i, rx) → nextTail rx = rx.head ∨ rx.tail.toNat < ringSize

def Event.writtenIndex : Event → Option Nat
  | .stored _ index _ => some index
  | _ => none

def writes (sinks : List DemuxSink) (m : Downlink) (streamId : Int) (byte : Byte) : List Nat :=
  ((consoleMuxEnqueueStreamByte sinks m streamId byte).1.events.drop m.events.length).filterMap Event.writtenIndex

theorem ring_writes_iff (sinks : List DemuxSink) (m : Downlink) (streamId : Int) (byte : Byte) :
    (∀ i ∈ writes sinks m streamId byte, i < ringSize) ↔ RingInBounds sinks m streamId := by
  by_cases hacc : Accepting sinks m streamId
  · obtain ⟨i, rx, ht, hroom⟩ := hacc
    simp [writes, enqueue_stored ht hroom, Event.writtenIndex, RingInBounds, ht, hroom]
  · have hall : RingInBounds sinks m streamId := by
      intro i rx ht
      by_contra hno
      exact hacc ⟨i, rx, ht, fun heq => hno (.inl heq)⟩
    simp [writes, enqueue_dropped hacc, Downlink.record, Event.writtenIndex, hall]

/-- The multiplexer reads a batch in bounds if and only if the batch is refused, empty or
ends inside its buffer, and writes a ring in bounds if and only if the byte is dropped or
the ring's tail lies inside its buffer. -/
theorem client_buffer_bounds (json : Bytes) (emitted : Bool) (batch : Option BatchBuffer) (sinks : List DemuxSink)
    (m : Downlink) (streamId : Int) (byte : Byte) :
    ((∀ i ∈ (muxBatchBatch json emitted batch).2.1, i < batchSize) ∧
      (∀ i ∈ writes sinks m streamId byte, i < ringSize)) ↔
    (BatchInBounds batch ∧ RingInBounds sinks m streamId) :=
  and_congr (batch_reads_iff json emitted batch) (ring_writes_iff sinks m streamId byte)

/-- A batch from 4084 to 4085 is read behind its buffer, and a ring whose tail is 5000 is
written behind its buffer. -/
theorem client_buffer_overrun :
    (muxBatchBatch [] true (some ⟨1, 4084, 4085, fun _ => 0⟩)).2.1 = [4084] ∧
    writes [⟨1, true, true⟩] (Downlink.start (fun _ => some ⟨0, 5000, fun _ => 0⟩)) 1 0x41 = [5000] ∧
    ¬ ∀ json emitted batch sinks m streamId byte,
      (∀ i ∈ (muxBatchBatch json emitted batch).2.1, i < batchSize) ∧
      (∀ i ∈ writes sinks m streamId byte, i < ringSize) := by
  have hread : (muxBatchBatch [] true (some ⟨1, 4084, 4085, fun _ => 0⟩)).2.1 = [4084] := by decide +kernel
  refine ⟨hread, by decide +kernel, ?_⟩
  intro h
  have hr := (h [] true (some ⟨1, 4084, 4085, fun _ => 0⟩) [] (Downlink.start (fun _ => none)) 0 0).1 4084
  rw [hread] at hr
  exact absurd (hr (by simp)) (by decide)

end VirtiosoMux.Camkes
