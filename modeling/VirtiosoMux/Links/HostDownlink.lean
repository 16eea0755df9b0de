import VirtiosoMux.Host.UartReports
import VirtiosoMux.Host.StreamTable
import VirtiosoMux.Camkes.Downlink

/-! # Downlink from the host to the CAmkES multiplexer

The write lock is held for a whole call, so the line carries the calls one after the other,
in the order in which the PTY threads acquired the lock. The receiver takes the fragments
apart again: the ring of a stream receives what was written to its PTY, and every fragment
is acknowledged.
-/
namespace VirtiosoMux.HostDownlink
open Host Camkes Pieces

/-- A call of `write_virtioso_data_to_uart` with the globals it reads. -/
structure Write where
  uart : Uart
  io : UartIo
  ptyIdx : Byte
  data : Bytes

def Write.stream (w : Write) : Byte := (w.uart.tags w.ptyIdx.toNat).value

def Write.sent (w : Write) : Bytes := (writeVirtiosoDataToUart w.uart w.io w.ptyIdx w.data).1

def Write.fragments (w : Write) : List Bytes := pieces virtiosoDownlinkFragmentPayloadSize w.data

/-- A write to a stream's PTY or to `autopilot_control` on a raw line. The value of the PTY is zero
or can be selected, and every buffer is written as a whole. -/
structure Write.Regular (w : Write) : Prop where
  mode : w.uart.virtiosoModeEnabled = true
  outer : w.uart.virtiosoOuterMode = .raw
  stream : w.stream = vcmuxProtoEscDefault ∨ ¬ Reserved w.stream
  index : w.ptyIdx.toNat < w.uart.ptyMaxCount
  notRaw : w.ptyIdx.toNat ≠ w.uart.rawPtyIdx
  notDefault : w.ptyIdx.toNat ≠ virtiosoDefaultPtyIdx
  whole : ∀ c ∈ uartCalls w.uart w.io w.ptyIdx w.data,
    c.allocated = true ∧ ∃ count, c.outcome = .accepted count true ∧ c.buf.length ≤ count

/-- What arrives on the line is one frame for each fragment. -/
theorem Write.Regular.sent_eq {w : Write} (hw : w.Regular) :
    w.sent = w.fragments.flatMap (frameBytes w.stream) := by
  have hraw : ¬ (w.ptyIdx.toNat = w.uart.rawPtyIdx ∨ w.ptyIdx.toNat = virtiosoDefaultPtyIdx) := by
    rintro (h | h)
    · exact hw.notRaw h
    · exact hw.notDefault h
  have hsup : ¬ Suppressed w.uart w.ptyIdx := by
    rintro ⟨-, h | ⟨-, h⟩⟩
    · exact hw.notRaw h
    · exact hw.notDefault h
  have hfails : ¬ ∃ c ∈ uartCalls w.uart w.io w.ptyIdx w.data, c.Fails := by
    rintro ⟨c, hc, hf⟩
    obtain ⟨halloc, count, hout, hlen⟩ := hw.whole c hc
    simp only [UartCall.Fails, halloc, hout, PutbufIo.accepted.injEq] at hf
    grind
  have hcomplete : ∀ c ∈ uartCalls w.uart w.io w.ptyIdx w.data, c.Complete := by
    intro c hc
    obtain ⟨-, count, hout, hlen⟩ := hw.whole c hc
    exact ⟨count, true, hout, hlen⟩
  obtain ⟨hsent, -⟩ := writeDataToUart_calls hsup hw.index (.inl hw.mode) w.data
  have hmode : writeDataToUart w.uart w.io w.ptyIdx w.data =
      writeVirtiosoDataToUart w.uart w.io w.ptyIdx w.data := by
    simp [writeDataToUart, hw.mode]
  rw [hmode] at hsent
  calc w.sent = (runCalls (uartCalls w.uart w.io w.ptyIdx w.data)).1 := hsent
    _ = (uartCalls w.uart w.io w.ptyIdx w.data).flatMap UartCall.buf := (runCalls_complete_iff hfails).mpr hcomplete
    _ = completeEncoding w.uart w.ptyIdx w.data := uartCalls_bytes _ _ _ _
    _ = w.fragments.flatMap (frameBytes w.stream) := by
      simp only [completeEncoding, hw.mode, if_true, if_neg hraw, carry, hw.outer]
      rfl

/-! ### The receiver -/

def NeverFull (sinks : List DemuxSink) (m : Downlink) (received : List Received) : Prop :=
  ∀ front r back, received = front ++ r :: back → ringsOpen sinks (consoleMuxDrainUart sinks m front) r

theorem feeds_drain {sinks : List DemuxSink} {m : Downlink} (received : List Received)
    (h : NeverFull sinks m received) : Feeds sinks m received (consoleMuxDrainUart sinks m received) := by
  induction received using List.reverseRecOn with
  | nil => exact .refl m
  | append_singleton received r ih =>
    have hrest : NeverFull sinks m received := by
      intro front r' back hsplit
      exact h front r' (back ++ [r]) (by simp [hsplit])
    refine .snoc (ih hrest) (h received r [] rfl) ?_
    simp [consoleMuxDrainUart]

/-- One check for each position of the line. -/
theorem neverFull_of_positions {sinks : List DemuxSink} {m : Downlink} {received : List Received}
    (h : ∀ k < received.length, ∀ s ∈ sinks, Accepting sinks { consoleMuxDrainUart sinks m (received.take k) with
      rings := received[k]?.elim id Received.clients (consoleMuxDrainUart sinks m (received.take k)).rings } s.streamId) :
    NeverFull sinks m received := by
  intro front r back hsplit streamId i hs
  obtain ⟨hlt, hv, -⟩ := List.findIdx?_eq_some_iff_getElem.mp hs
  have hopen := h front.length (by simp [hsplit]) sinks[i] (List.getElem_mem hlt)
  simp only [beq_iff_eq] at hv
  simpa [hsplit, hv] using hopen

section Receiver
variable {sinks : List DemuxSink} {m m' : Downlink} {received : List Received}

def Write.acks (sinks : List DemuxSink) (w : Write) : List Int :=
  if (frameSink sinks w.stream).isSome then List.replicate w.fragments.length (w.stream.toNat : Int) else []

theorem feeds_fragments {id : Byte} (hid : id = vcmuxProtoEscDefault ∨ ¬ Reserved id) (ps : List Bytes)
    (h : Feeds sinks m received m') (hw : received.map Received.byte = ps.flatMap (frameBytes id))
    (hcur : m.rxStream = -1) (he : m.rxEscape = false) :
    Effect m m' (-1) false (fun j => if frameSink sinks id = some j then ps.flatten else [])
      (if (frameSink sinks id).isSome then List.replicate ps.length (id.toNat : Int) else []) := by
  induction ps generalizing m received with
  | nil =>
    rw [h.done hw]
    exact ⟨hcur, he, by simp, by simp⟩
  | cons p ps ih =>
    rw [List.flatMap_cons] at hw
    obtain ⟨xs, ys, t, hx, hy, h₁, h₂⟩ := h.parts hw
    have e₁ := feeds_frame hid p h₁ hx hcur he
    have e₂ := ih h₂ hy e₁.cur e₁.escape
    refine (e₁.trans e₂).congr ?_ ?_
    · intro j
      by_cases hj : frameSink sinks id = some j <;> simp [hj]
    · cases frameSink sinks id <;> simp [List.replicate_succ]

theorem feeds_writes (writes : List Write) (hreg : ∀ w ∈ writes, w.Regular)
    (h : Feeds sinks m received m') (hw : received.map Received.byte = writes.flatMap Write.sent)
    (hcur : m.rxStream = -1) (he : m.rxEscape = false) :
    Effect m m' (-1) false (fun j => (writes.filter (fun w => frameSink sinks w.stream = some j)).flatMap Write.data)
      (writes.flatMap (Write.acks sinks)) := by
  induction writes generalizing m received with
  | nil =>
    rw [h.done hw]
    exact ⟨hcur, he, by simp, by simp⟩
  | cons w writes ih =>
    have hwr := hreg w List.mem_cons_self
    rw [List.flatMap_cons, hwr.sent_eq] at hw
    obtain ⟨xs, ys, t, hx, hy, h₁, h₂⟩ := h.parts hw
    have e₁ := feeds_fragments hwr.stream w.fragments h₁ hx hcur he
    have e₂ := ih (fun w' hw' => hreg w' (List.mem_cons_of_mem _ hw')) h₂ hy e₁.cur e₁.escape
    have hdata : w.fragments.flatten = w.data := pieces_flatten (by decide) w.data
    refine (e₁.trans e₂).congr ?_ rfl
    intro j
    by_cases hj : frameSink sinks w.stream = some j <;> simp [hj, hdata]

end Receiver

/-- Different streams have different sinks. -/
theorem frameSink_inj {sinks : List DemuxSink} {id id' : Byte} {i : Nat} (h : frameSink sinks id = some i)
    (h' : frameSink sinks id' = some i) : id = id' := by
  have hvalue : ∀ {x : Byte}, frameSink sinks x = some i → consoleMuxSinkForStream sinks x.toNat = some i := by
    intro x hx
    unfold frameSink at hx
    split at hx
    · cases hx
    · exact hx
  have hid := consoleMuxSinkForStream_inj (hvalue h) (hvalue h')
  exact UInt8.toNat_inj.mp (by exact_mod_cast hid)

/-- However the calls of the PTY threads follow each other, the ring of a stream receives
exactly the data written to the stream's PTY, in order, every call on a stream with a sink
is acknowledged once for each 512 bytes or part of them, other calls leave no trace, and the
receiver ends without an active stream and without a pending escape. -/
theorem downlink_exact (sinks : List DemuxSink) (rings : Nat → Option GetcharBuffer) (writes : List Write)
    (hreg : ∀ w ∈ writes, w.Regular) (received : List Received)
    (hbytes : received.map Received.byte = writes.flatMap Write.sent)
    (hfull : NeverFull sinks (Downlink.start rings) received) :
    ∃ m, consoleMuxDrainUart sinks (Downlink.start rings) received = m ∧
    (∀ id i, frameSink sinks id = some i →
      storedTo i m.events = (writes.filter (fun w => w.stream = id)).flatMap Write.data) ∧
    (∀ i, (∀ id, frameSink sinks id ≠ some i) → storedTo i m.events = []) ∧
    Camkes.acks m.events = writes.flatMap (fun w =>
      if (frameSink sinks w.stream).isSome then
        List.replicate ((w.data.length + 511) / 512) (w.stream.toNat : Int)
      else []) ∧
    m.rxStream = -1 ∧ m.rxEscape = false := by
  have e := feeds_writes writes hreg (feeds_drain received hfull) hbytes rfl rfl
  refine ⟨_, rfl, ?_, ?_, ?_, e.cur, e.escape⟩
  · intro id i hid
    rw [e.stored]
    simp only [Downlink.start, storedTo, List.filterMap_nil, List.nil_append]
    congr 1
    refine List.filter_congr ?_
    intro w _
    refine decide_eq_decide.mpr ⟨fun h => frameSink_inj h hid, ?_⟩
    rintro rfl
    exact hid
  · intro i hnone
    rw [e.stored]
    have hempty : writes.filter (fun w => frameSink sinks w.stream = some i) = [] :=
      List.filter_eq_nil_iff.mpr (fun w _ => by simpa using hnone w.stream)
    simp [hempty, Downlink.start, storedTo]
  · rw [e.acked]
    simp only [Downlink.start, Camkes.acks, List.filterMap_nil, List.nil_append]
    congr 1
    funext w
    rw [Write.acks, Write.fragments, pieces_count (by decide)]
    rfl

def twoPtyUart : Uart :=
  { rawUart with
    tags := fun i => if i = 3 then ⟨some (ascii "vm0"), 1⟩ else if i = 4 then ⟨some (ascii "vm1"), 2⟩ else Tag.cleared
    ptyMaxCount := 5 }

def wholeIo : UartIo := ⟨fun _ => true, fun _ => .accepted 1029 true⟩

/-- An escape byte and a letter for the first stream, then a letter for the second. -/
def twoWrites : List Write := [⟨twoPtyUart, wholeIo, 3, [0xfe, 0x41]⟩, ⟨twoPtyUart, wholeIo, 4, [0x42]⟩]

theorem twoWrites_regular : ∀ w ∈ twoWrites, w.Regular := by
  have hescape : pieces 512 [(0xfe : Byte), 0x41] = [[0xfe, 0x41]] := pieces_short (by decide) (by decide)
  have hletter : pieces 512 [(0x42 : Byte)] = [[0x42]] := pieces_short (by decide) (by decide)
  intro w hw
  rcases List.mem_pair.mp hw with rfl | rfl
  · refine ⟨rfl, rfl, .inr (by decide), by decide, by decide, by decide, ?_⟩
    intro c hc
    simp only [uartCalls, virtiosoDownlinkFragmentPayloadSize, hescape] at hc
    cases List.mem_singleton.mp hc
    exact ⟨rfl, 1029, rfl, by decide⟩
  · refine ⟨rfl, rfl, .inr (by decide), by decide, by decide, by decide, ?_⟩
    intro c hc
    simp only [uartCalls, virtiosoDownlinkFragmentPayloadSize, hletter] at hc
    cases List.mem_singleton.mp hc
    exact ⟨rfl, 1029, rfl, by decide⟩

def twoReceived : List Received :=
  [0xfe, 0x01, 0xfe, 0xfe, 0x41, 0xfe, 0x00, 0xfe, 0x02, 0x42, 0xfe, 0x00].map (Received.mk id)

theorem twoWrites_sent : twoReceived.map Received.byte = twoWrites.flatMap Write.sent := by
  have hescape : pieces 512 [(0xfe : Byte), 0x41] = [[0xfe, 0x41]] := pieces_short (by decide) (by decide)
  have hletter : pieces 512 [(0x42 : Byte)] = [[0x42]] := pieces_short (by decide) (by decide)
  simp only [twoWrites, List.flatMap_cons, List.flatMap_nil, Write.sent, writeVirtiosoDataToUart,
    virtiosoDownlinkFragmentPayloadSize, hescape, hletter]
  decide

theorem downlink_exact_twoWrites : ∃ m,
    consoleMuxDrainUart [⟨1, true, true⟩, ⟨2, true, true⟩] (Downlink.start (fun _ => some ⟨0, 0, fun _ => 0⟩))
      twoReceived = m ∧
    storedTo 0 m.events = [0xfe, 0x41] ∧ storedTo 1 m.events = [0x42] ∧ Camkes.acks m.events = [1, 2] ∧
    m.rxStream = -1 := by
  have hfull : NeverFull [⟨1, true, true⟩, ⟨2, true, true⟩] (Downlink.start (fun _ => some ⟨0, 0, fun _ => 0⟩))
      twoReceived := neverFull_of_positions (by decide)
  obtain ⟨m, hm, hstored, -, hacks, hcur, -⟩ := downlink_exact [⟨1, true, true⟩, ⟨2, true, true⟩]
    (fun _ => some ⟨0, 0, fun _ => 0⟩) twoWrites twoWrites_regular twoReceived twoWrites_sent hfull
  exact ⟨m, hm, hstored 1 0 (by decide), hstored 2 1 (by decide), hacks, hcur⟩

end VirtiosoMux.HostDownlink
