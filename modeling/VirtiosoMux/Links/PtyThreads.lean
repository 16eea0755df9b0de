import VirtiosoMux.Host.UartThreads
import VirtiosoMux.Links.HostDownlink

/-! # From the PTYs of the host to the rings of the guests

The PTY threads of the host race for the line. What each of them reads reaches the ring of its
stream in order, whatever the others do.
-/
namespace VirtiosoMux.PtyThreads
open Host Camkes Locked HostDownlink

def writeOf (e : Turn Byte PtyInput RoundIo) : Write := ⟨e.call.uart, turnIo e, e.thread, e.call.data⟩

theorem writeOf_sent {e : Turn Byte PtyInput RoundIo} (h : (writeOf e).Regular) :
    (writeDataToUart e.call.uart (turnIo e) e.thread e.call.data).1 = (writeOf e).sent := by
  have hmode : e.call.uart.virtiosoModeEnabled = true := h.mode
  simp [writeDataToUart, hmode, Write.sent, writeOf]

/-- Row `e.thread` of the table is what the call has read. -/
def OfTable (T : Table) (e : Turn Byte PtyInput RoundIo) : Prop :=
  e.thread.toNat < T.numProc ∧ e.call.uart.tags e.thread.toNat = T.tags e.thread.toNat

/-- A sink behind the stream of a PTY takes the turns of this PTY's thread and no others. -/
theorem sink_iff_thread {sinks : List DemuxSink} {T : Table} (hT : T.Clean) {t : Byte} (h3 : 3 ≤ t.toNat)
    (ht : t.toNat < T.numProc) {i : Nat} (hi : frameSink sinks (T.tags t.toNat).value = some i)
    {e : Turn Byte PtyInput RoundIo} (he : OfTable T e) :
    frameSink sinks (writeOf e).stream = some i ↔ e.thread = t := by
  have hstream : (writeOf e).stream = (T.tags e.thread.toNat).value := by rw [← he.2]; rfl
  rw [hstream]
  constructor
  · intro hsink
    have hvalue := frameSink_inj hsink hi
    have hzero := (not_reserved_iff.mp (hT.selectable _ h3 ht)).1
    by_cases h3' : 3 ≤ e.thread.toNat
    · exact UInt8.toNat_inj.mp (hT.distinct _ _ h3' he.1 h3 ht hvalue)
    · rw [hT.zero _ (by omega)] at hvalue
      exact absurd hvalue.symm hzero
  · rintro rfl
    exact hi

theorem filter_turns {T : Table} {turns : List (Turn Byte PtyInput RoundIo)} (hrow : ∀ e ∈ turns, OfTable T e) {t : Byte}
    {sinks : List DemuxSink} (hT : T.Clean) (h3 : 3 ≤ t.toNat) (ht : t.toNat < T.numProc) {i : Nat}
    (hi : frameSink sinks (T.tags t.toNat).value = some i) :
    ((turns.map writeOf).filter (fun w => frameSink sinks w.stream = some i)).flatMap Write.data =
      (callsOf t turns).flatMap PtyInput.data := by
  have hfilter : (turns.map writeOf).filter (fun w => frameSink sinks w.stream = some i) =
      (turns.filter (fun e => e.thread = t)).map writeOf := by
    rw [List.filter_map]
    congr 1
    exact List.filter_congr fun e he => decide_eq_decide.mpr (sink_iff_thread hT h3 ht hi (hrow e he))
  rw [hfilter, callsOf, List.flatMap_map, List.flatMap_map]
  rfl

section Drained
variable {sinks : List DemuxSink} {rings : Nat → Option GetcharBuffer} {T : Table}
  {as : List (Locked.Action Byte PtyInput RoundIo)} {s : Host.PtyThreads} (hr : RunsTo uartLine as s) (hfree : s.lock = none)
  (hreg : ∀ e ∈ s.turns, (writeOf e).Regular) {received : List Received} (hbytes : received.map Received.byte = s.out)
  (hfull : NeverFull sinks (Downlink.start rings) received)
include hr hfree hreg hbytes hfull

/-- On the line there are the turns as whole writes. -/
theorem drain_turns : Effect (Downlink.start rings) (consoleMuxDrainUart sinks (Downlink.start rings) received) (-1) false
    (fun i => ((s.turns.map writeOf).filter (fun w => frameSink sinks w.stream = some i)).flatMap Write.data)
    ((s.turns.map writeOf).flatMap (Write.acks sinks)) := by
  have h := orderly uartLine_releases hr
  have hturn := h.free hfree
  have hout : s.out = (s.turns.map writeOf).flatMap Write.sent := by
    rw [h.out, hturn, Option.toList_none, List.append_nil, List.flatMap_map]
    exact List.flatMap_congr fun e he => (turn_output (h.returned e he)).trans (writeOf_sent (hreg e he))
  exact feeds_writes (s.turns.map writeOf) (List.forall_mem_map.mpr hreg) (feeds_drain received hfull) (hbytes.trans hout)
    rfl rfl

/-- The ring behind a stream gets what the thread of its PTY has read. -/
theorem thread_stored (hT : T.Clean) (hrow : ∀ e ∈ s.turns, OfTable T e) {t : Byte} {i : Nat} (h3 : 3 ≤ t.toNat)
    (ht : t.toNat < T.numProc) (hi : frameSink sinks (T.tags t.toNat).value = some i) :
    storedTo i (consoleMuxDrainUart sinks (Downlink.start rings) received).events ++
      (s.thread t).waits.flatMap PtyInput.data = (s.made t).flatMap PtyInput.data := by
  have h := orderly uartLine_releases hr
  have hmade := h.made t
  rw [h.free hfree, Option.toList_none, List.append_nil] at hmade
  rw [(drain_turns hr hfree hreg hbytes hfull).stored, filter_turns hrow hT h3 ht hi, hmade, List.flatMap_append]
  rfl

end Drained

/-- While no thread has the lock, the line read by the multiplexer puts into the ring of every stream what the thread
of its PTY has read, in order and without what still waits for the lock, and ends outside a frame. -/
theorem pty_inputs_delivered (sinks : List DemuxSink) (rings : Nat → Option GetcharBuffer) {T : Table} (hT : T.Clean)
    {as : List (Locked.Action Byte PtyInput RoundIo)} {s : Host.PtyThreads} (hr : RunsTo uartLine as s) (hfree : s.lock = none)
    (hrow : ∀ e ∈ s.turns, OfTable T e) (hreg : ∀ e ∈ s.turns, (writeOf e).Regular) {received : List Received}
    (hbytes : received.map Received.byte = s.out) (hfull : NeverFull sinks (Downlink.start rings) received) :
    ∃ m, consoleMuxDrainUart sinks (Downlink.start rings) received = m ∧ m.rxStream = -1 ∧ m.rxEscape = false ∧
      ∀ (t : Byte) (i : Nat), 3 ≤ t.toNat → t.toNat < T.numProc → frameSink sinks (T.tags t.toNat).value = some i →
        storedTo i m.events ++ (s.thread t).waits.flatMap PtyInput.data = (s.made t).flatMap PtyInput.data := by
  have e := drain_turns hr hfree hreg hbytes hfull
  exact ⟨_, rfl, e.cur, e.escape, fun t i h3 ht hi => thread_stored hr hfree hreg hbytes hfull hT hrow h3 ht hi⟩

def oneInput : List (Locked.Action Byte PtyInput RoundIo) :=
  [.call 3 ⟨rawUart, [0x41], true⟩, .acquire 3, .emit 3 ⟨true, .accepted 5 true⟩, .emit 3 ⟨true, .accepted 5 true⟩]

def oneTurn : Turn Byte PtyInput RoundIo :=
  ⟨3, ⟨rawUart, [0x41], true⟩, [⟨true, .accepted 5 true⟩, ⟨true, .accepted 5 true⟩]⟩

def oneTable : Table := ⟨rawUart.tags, 4, 4, fun _ => false, 0⟩

theorem oneTable_clean : oneTable.Clean := by
  refine ⟨by decide, by decide, fun i h3 hi => ?_, fun i j h3 hi h3' hj _ => ?_⟩
  · obtain rfl : i = 3 := by simp only [oneTable] at hi; omega
    decide
  · simp only [oneTable] at hi hj
    omega

theorem oneInput_runs : ∃ s, RunsTo uartLine oneInput s ∧ s.turns = [oneTurn] ∧ s.lock = none ∧
    s.out = [0xfe, 0x01, 0x41, 0xfe, 0x00] ∧ s.made 3 = [⟨rawUart, [0x41], true⟩] ∧ (s.thread 3).waits = [] := by
  have hone := pieces_single 511 0x41
  have henter : uartLine.enter 3 ⟨rawUart, [0x41], true⟩ = some ⟨rawUart, 3, .fragments 0 [[0x41]]⟩ := by
    simp only [uartLine, uartEnter, virtiosoDownlinkFragmentPayloadSize, hone]
    rfl
  obtain ⟨s, hs, hrest⟩ : ∃ s : Host.PtyThreads, oneInput.foldlM (step uartLine) Line.start = some s ∧ s.turns = [oneTurn] ∧
      s.lock = none ∧ s.out = [0xfe, 0x01, 0x41, 0xfe, 0x00] ∧ s.made 3 = [⟨rawUart, [0x41], true⟩] ∧
      (s.thread 3).waits = [] := by
    simp only [oneInput, List.foldlM_cons, step, Line.start, henter, Option.bind_eq_bind, Option.bind_some]
    exact ⟨_, rfl, rfl, rfl, rfl, rfl, rfl⟩
  exact ⟨s, Machine.runs_of_foldlM (fun _ _ _ => trivial) hs, hrest⟩

theorem oneTurn_regular : (writeOf oneTurn).Regular := by
  have hone := pieces_single 511 0x41
  refine ⟨rfl, rfl, .inr (by decide), by decide, by decide, by decide, ?_⟩
  intro c hc
  simp only [writeOf, oneTurn, uartCalls, virtiosoDownlinkFragmentPayloadSize, hone] at hc
  cases List.mem_singleton.mp hc
  exact ⟨rfl, 5, rfl, by decide⟩

def oneReceived : List Received := [0xfe, 0x01, 0x41, 0xfe, 0x00].map (Received.mk id)

theorem oneReceived_neverFull :
    NeverFull [⟨1, true, true⟩] (Downlink.start fun _ => some ⟨0, 0, fun _ => 0⟩) oneReceived :=
  neverFull_of_positions (by decide)

theorem pty_inputs_delivered_oneInput : ∃ m,
    consoleMuxDrainUart [⟨1, true, true⟩] (Downlink.start (fun _ => some ⟨0, 0, fun _ => 0⟩)) oneReceived = m ∧
      storedTo 0 m.events = [0x41] := by
  obtain ⟨s, hr, hturns, hfree, hout, hmade, hwaits⟩ := oneInput_runs
  have hrow : OfTable oneTable oneTurn := ⟨by decide, rfl⟩
  obtain ⟨m, hm, -, -, hdelivered⟩ := pty_inputs_delivered [⟨1, true, true⟩] (fun _ => some ⟨0, 0, fun _ => 0⟩)
    oneTable_clean hr hfree (fun e he => by rw [hturns] at he; cases List.mem_singleton.mp he; exact hrow)
    (fun e he => by rw [hturns] at he; cases List.mem_singleton.mp he; exact oneTurn_regular)
    (show oneReceived.map Received.byte = s.out by simp [oneReceived, hout]) oneReceived_neverFull
  have hstored := hdelivered 3 0 (by decide) (by decide) (by decide)
  rw [hwaits, hmade] at hstored
  exact ⟨m, hm, by simpa using hstored⟩

end VirtiosoMux.PtyThreads
