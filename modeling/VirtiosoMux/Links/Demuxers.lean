import VirtiosoMux.Host.Receiver
import VirtiosoMux.Camkes.Receiver
import VirtiosoMux.Links.HostDownlink

/-! # The two demuxers on one line

`feed_virtioso_byte` and `console_mux_feed_downlink_byte` are both the general receiver of a
stuffed line, as long as no control pair occurs, so they agree on every line, well formed or
not, and what holds of that receiver holds of both: one whole frame brings it back into step.
-/
namespace VirtiosoMux.Demuxers
open Host Camkes Demux HostDownlink

def SameIds (t : Table) (sinks : List DemuxSink) : Prop :=
  ∀ streamId : Int, (∃ i, 3 ≤ i ∧ i < t.numProc ∧ t.streamAt i = streamId) ↔ ∃ s ∈ sinks, s.streamId = streamId

theorem sinkForStream_isSome_iff {sinks : List DemuxSink} {streamId : Int} :
    (consoleMuxSinkForStream sinks streamId).isSome = true ↔ ∃ s ∈ sinks, s.streamId = streamId := by
  simp [consoleMuxSinkForStream, List.findIdx?_isSome]

/-- A byte that is not the close code selects the same stream on both sides. -/
theorem SameIds.selected {t : Table} {sinks : List DemuxSink} (hsame : SameIds t sinks) (hzero : ∀ i < 3, (t.tags i).value = 0)
    {b : Byte} (hb : b ≠ vcmuxProtoEscDefault) : t.selected b = sinkStream sinks b := by
  have hknown : (findVirtiosoPtyIdxByStreamId t b).isSome = true ↔ (consoleMuxSinkForStream sinks b.toNat).isSome = true := by
    rw [sinkForStream_isSome_iff, ← hsame]
    constructor
    · intro h
      obtain ⟨i, hi⟩ := Option.isSome_iff_exists.mp h
      obtain ⟨hlt, hv⟩ := find_value hi
      refine ⟨i, ?_, hlt, by rw [Table.streamAt, hv]⟩
      by_contra h3
      exact hb (hv.symm.trans (hzero i (by omega)))
    · rintro ⟨i, -, hlt, hv⟩
      have hvalue : (t.tags i).value = b := by
        unfold Table.streamAt at hv
        exact UInt8.toNat_inj.mp (by exact_mod_cast hv)
      by_contra hnone
      simp only [Option.not_isSome_iff_eq_none] at hnone
      exact find_eq_none_iff.mp hnone i hlt hvalue
  by_cases hk : (findVirtiosoPtyIdxByStreamId t b).isSome = true
  · simp [Table.selected, sinkStream, hk, hknown.mp hk]
  · have hk' : ¬ (consoleMuxSinkForStream sinks b.toNat).isSome = true := fun h => hk (hknown.mpr h)
    simp [Table.selected, sinkStream, hk, hk']

/-- The ring and the log of one stream take the same part of an output. -/
theorem ringBytes_eq {t : Table} {sinks : List DemuxSink} {i k : Nat}
    (hk : consoleMuxSinkForStream sinks (t.streamAt i) = some k) (out : List (Int × Byte)) :
    ringBytes sinks k out = slotBytes t i out := by
  have hiff : ∀ streamId, consoleMuxSinkForStream sinks streamId = some k ↔ streamId = t.streamAt i := by
    intro streamId
    constructor
    · intro hs
      obtain ⟨hlt, hv, -⟩ := List.findIdx?_eq_some_iff_getElem.mp hk
      obtain ⟨_, hv', -⟩ := List.findIdx?_eq_some_iff_getElem.mp hs
      simp only [beq_iff_eq] at hv hv'
      rw [← hv', hv]
    · rintro rfl
      exact hk
  simp only [ringBytes, slotBytes, received, hiff]

theorem neverFull_front {sinks : List DemuxSink} {m : Downlink} {front back : List Camkes.Received}
    (h : NeverFull sinks m (front ++ back)) : NeverFull sinks m front := by
  intro first r rest hsplit
  exact h first r (rest ++ back) (by simp [hsplit])

theorem noControlPair_front {escape : Bool} {front back : Bytes} (h : NoControlPair escape (front ++ back)) :
    NoControlPair escape front := by
  induction front generalizing escape with
  | nil => cases escape <;> trivial
  | cons b front ih =>
    cases escape with
    | true => exact ⟨h.1, ih h.2⟩
    | false => exact @ih (decide (b = vcmuxProtoEscStart)) h

/-- From their initial cursors the two demuxers agree after every part of a line that has no
control pair: they stand at the same stream with the same escape flag, and the ring of a stream
has received what the stream's log has grown by. -/
theorem demuxers_agree {env : Env} (he : env.Healthy) {h : State} (hr : h.Receiving) (hesc : h.parser.inEscape = false)
    (hcur : h.parser.curRxStream = none) {sinks : List DemuxSink} (hsame : SameIds h.table sinks)
    (rings : Nat → Option GetcharBuffer) (received : List Camkes.Received)
    (hpairs : NoControlPair false (received.map Camkes.Received.byte))
    (hfull : NeverFull sinks (Downlink.start rings) received) :
    ∀ front back, received = front ++ back → ∃ h' m',
      feedVirtiosoBytes env h (front.map Camkes.Received.byte) = (h', true) ∧
      consoleMuxDrainUart sinks (Downlink.start rings) front = m' ∧
      h'.parser.inEscape = m'.rxEscape ∧
      h'.parser.curRxStream.map h.table.streamAt = (if m'.rxStream ≥ 0 then some m'.rxStream else none) ∧
      ∀ i k, 3 ≤ i → i < h.table.numProc → consoleMuxSinkForStream sinks (h.table.streamAt i) = some k →
        h'.log i = h.log i ++ storedTo k m'.events := by
  rintro front back rfl
  rw [List.map_append] at hpairs
  have hstart : h.cursor = (Downlink.start rings).cursor := by
    simp [State.cursor, hesc, hcur, Downlink.start, Downlink.cursor]
  obtain ⟨h', hrun, hline⟩ := @line_refines env he h hr (front.map Camkes.Received.byte)
    (by rw [hesc]; exact noControlPair_front hpairs)
  -- the two instances of the general receiver select alike
  obtain ⟨hafter, houtput⟩ := receiver_congr (fun b hclose _ => hsame.selected hr.sound.slots.zero hclose) h.cursor
    (front.map Camkes.Received.byte)
  have hcursor : h'.cursor = (consoleMuxDrainUart sinks (Downlink.start rings) front).cursor := by
    rw [hline.cursor, drain_cursor, ← hstart, hafter]
  have htable := hline.table
  refine ⟨h', _, hrun, rfl, ?_, ?_, ?_⟩
  · exact congrArg Cursor.escape hcursor
  · have hcurrent := congrArg Cursor.current hcursor
    rw [← htable]
    exact hcurrent
  · intro i k h3 hi hk
    have hstored := feeds_stored (feeds_drain front (neverFull_front hfull)) k
    have hempty : storedTo k (Downlink.start rings).events = [] := rfl
    rw [hline.log i h3 hi, hstored, hempty, List.nil_append, ← hstart, houtput, ringBytes_eq hk]

/-- The stream one has been announced to the host; the other side has a sink for it. -/
theorem demuxers_agree_announced : ∃ h h' m',
    ttyInputHandler quietEnv (start quietEnv) [0xfe, 0xfd, 0x01, 0x00, 0x02, 0x01, 0x78] = (h, true) ∧
    feedVirtiosoBytes quietEnv h [0xfe, 0x01, 0x41, 0xfe] = (h', true) ∧
    consoleMuxDrainUart [⟨1, true, true⟩] (Downlink.start (fun _ => some ⟨0, 0, fun _ => 0⟩))
      ([0xfe, 0x01, 0x41, 0xfe].map (Camkes.Received.mk id)) = m' ∧
    h'.log 3 = storedTo 0 m'.events := by
  let h := (ttyInputHandler quietEnv (start quietEnv) [0xfe, 0xfd, 0x01, 0x00, 0x02, 0x01, 0x78]).1
  have hrun : ttyInputHandler quietEnv (start quietEnv) [0xfe, 0xfd, 0x01, 0x00, 0x02, 0x01, 0x78] = (h, true) :=
    Prod.ext rfl (by decide)
  have hcount : h.table.numProc = 4 := by decide
  have hstream : h.table.streamAt 3 = 1 := by decide
  have hsame : SameIds h.table [⟨1, true, true⟩] := by
    intro streamId
    constructor
    · rintro ⟨i, h3, hi, rfl⟩
      have hi3 : i = 3 := by omega
      exact ⟨_, List.mem_singleton_self _, by rw [hi3, hstream]⟩
    · rintro ⟨s, hs, rfl⟩
      rw [List.mem_singleton.mp hs]
      exact ⟨3, Nat.le_refl 3, by omega, hstream⟩
  obtain ⟨h', m', hfeed, hdrain, -, -, hlog⟩ := demuxers_agree quietEnv_healthy
    (reached_receiving quietEnv_healthy hrun (by decide)) (by decide) (by decide) hsame
    (fun _ => some ⟨0, 0, fun _ => 0⟩) ([0xfe, 0x01, 0x41, 0xfe].map (Camkes.Received.mk id)) (by decide)
    (neverFull_of_positions (by decide)) _ [] (List.append_nil _).symm
  refine ⟨h, h', m', hrun, hfeed, hdrain, ?_⟩
  have hempty : h.log 3 = [] := by decide
  simpa [hempty] using hlog 3 0 (by decide) (by omega) (by rw [hstream]; decide)

/-! ### Back into step -/

/-- The bytes that `open_tty_device` sends first. -/
def resetBytes : Bytes := [0x00, uartProtoEscStart, uartProtoEscReset]

/-- Every frame of a registered stream from here on adds its payload to the log of the stream, and
nothing else is added to the logs of the streams. -/
def HostDelivers (env : Env) (h : State) : Prop :=
  ∀ frames : List (Byte × Bytes), (∀ f ∈ frames, ¬ Reserved f.1) →
    ∃ h', feedVirtiosoBytes env h (frames.flatMap (fun f => frameBytes f.1 f.2)) = (h', true) ∧
      ∀ i, 3 ≤ i → i < h.table.numProc → h'.log i = h.log i ++
        (frames.filter (fun f => findVirtiosoPtyIdxByStreamId h.table f.1 = some i)).flatMap Prod.snd

/-- Every frame of a stream with a sink from here on is stored in the ring of the sink, and nothing
else is stored, as long as the rings have room. -/
def MuxDelivers (sinks : List DemuxSink) (m : Downlink) : Prop :=
  ∀ (frames : List (Byte × Bytes)) (received : List Camkes.Received), (∀ f ∈ frames, ¬ Reserved f.1) →
    received.map Camkes.Received.byte = frames.flatMap (fun f => frameBytes f.1 f.2) → NeverFull sinks m received →
    ∀ i, storedTo i (consoleMuxDrainUart sinks m received).events = storedTo i m.events ++
      (frames.filter (fun f => consoleMuxSinkForStream sinks f.1.toNat = some i)).flatMap Prod.snd

theorem ids_selectable {frames : List (Byte × Bytes)} (hids : ∀ f ∈ frames, ¬ Reserved f.1) :
    ∀ f ∈ frames, f.1 ≠ vcmuxProtoEscDefault ∧ f.1 ≠ vcmuxProtoEscStart := by
  intro f hf
  obtain ⟨hclose, -, hesc⟩ := not_reserved_iff.mp (hids f hf)
  exact ⟨hclose, hesc⟩

theorem hostDelivers_of_escape {env : Env} (he : env.Healthy) {h : State} (hr : h.Receiving)
    (hesc : h.parser.inEscape = false) : HostDelivers env h := by
  intro frames hids
  obtain ⟨h', hrun, hline⟩ := line_refines he hr (noControlPair_frames h.parser.inEscape hids)
  refine ⟨h', hrun, ?_⟩
  intro i h3 hi
  have hout := receiver_frames h.table.selected (show vcmuxProtoEscDefault ≠ vcmuxProtoEscStart by decide)
    (ids_selectable hids) (fun streamId => streamId = h.table.streamAt i) (c := h.cursor) hesc
  rw [hline.log i h3 hi, slotBytes]
  refine congrArg (h.log i ++ ·) (hout.trans ?_)
  congr 1
  refine List.filter_congr ?_
  intro f hf
  obtain ⟨hclose, hcontrol, -⟩ := not_reserved_iff.mp (hids f hf)
  cases hfind : findVirtiosoPtyIdxByStreamId h.table f.1 with
  | none => simp [Table.selected, hfind]
  | some j =>
    obtain ⟨hj, hv⟩ := find_value hfind
    have h3j : 3 ≤ j := by
      by_contra h3j
      exact hclose (hv.symm.trans (hr.sound.slots.zero j (by omega)))
    have hselected : h.table.selected f.1 = some (h.table.streamAt j) := by
      simp [Table.selected, hfind, hcontrol, Table.streamAt, hv]
    simp only [hselected, Option.elim_some, Option.some.injEq, hr.streamAt_inj h3 hi h3j hj]
    exact decide_eq_decide.mpr eq_comm

theorem muxDelivers_of_escape {sinks : List DemuxSink} {m : Downlink} (hesc : m.rxEscape = false) : MuxDelivers sinks m := by
  intro frames received hids hw hfull i
  have hout := receiver_frames (sinkStream sinks) (show vcmuxProtoEscDefault ≠ vcmuxProtoEscStart by decide)
    (ids_selectable hids) (fun streamId => consoleMuxSinkForStream sinks streamId = some i) (c := m.cursor) hesc
  rw [feeds_stored (feeds_drain received hfull) i, hw, ringBytes]
  refine congrArg (storedTo i m.events ++ ·) (hout.trans ?_)
  congr 1
  refine List.filter_congr ?_
  intro f hf
  have hcontrol : f.1 ≠ vcmuxProtoEscControl := (not_reserved_iff.mp (hids f hf)).2.1
  cases hs : consoleMuxSinkForStream sinks f.1.toNat with
  | none => simp [sinkStream, hs]
  | some j => simp [sinkStream, hs, hcontrol]

/-- The last byte of a frame clears the cursor of the receiver, whatever it was. -/
theorem drain_frame (sinks : List DemuxSink) (m : Downlink) {received : List Camkes.Received} {id : Byte}
    (hid : ¬ Reserved id) {p : Bytes} (hw : received.map Camkes.Received.byte = frameBytes id p) :
    (consoleMuxDrainUart sinks m received).rxEscape = false ∧ (consoleMuxDrainUart sinks m received).rxStream = -1 := by
  obtain ⟨front, close, rfl, hfront, hclose⟩ := List.map_eq_append_iff.mp hw
  obtain ⟨r₁, rest, rfl, hb₁, hrest⟩ := List.map_eq_cons_iff.mp hclose
  obtain ⟨r₂, rest', rfl, hb₂, hnil⟩ := List.map_eq_cons_iff.mp hrest
  cases List.map_eq_nil_iff.mp hnil
  have hunclosed : (consoleMuxDrainUart sinks m front).rxEscape = false := by
    have hcursor := congrArg Cursor.escape (drain_cursor sinks m front)
    rw [hfront] at hcursor
    exact hcursor.trans (after_unclosed _ (by decide) (not_reserved_iff.mp hid).2.2 _ p)
  have e₁ := receive_escape sinks hunclosed hb₁
  have e₂ := receive_close sinks e₁.escape hb₂
  have hdrain : consoleMuxDrainUart sinks m (front ++ [r₁, r₂]) =
      ((consoleMuxDrainUart sinks m front).receive sinks r₁).receive sinks r₂ := by
    simp [consoleMuxDrainUart]
  rw [hdrain]
  exact ⟨e₂.escape, e₂.cur⟩

/-- Whatever the cursor of either demuxer was, a whole frame leaves it with no stream and no escape,
and from then on frames are delivered. The receiver behind the serial line delivers frames also
from the bytes on that are sent when the device is opened. -/
theorem demuxers_resynchronise {env : Env} (he : env.Healthy) (sinks : List DemuxSink) :
    (∀ h : State, h.Receiving → ∀ id p, ¬ Reserved id →
      ∃ h', feedVirtiosoBytes env h (frameBytes id p) = (h', true) ∧
        h'.parser.inEscape = false ∧ h'.parser.curRxStream = none ∧ HostDelivers env h') ∧
    (∀ (m : Downlink) (received : List Camkes.Received) id p, ¬ Reserved id →
      received.map Camkes.Received.byte = frameBytes id p →
      ∃ m', consoleMuxDrainUart sinks m received = m' ∧ m'.rxEscape = false ∧ m'.rxStream = -1 ∧ MuxDelivers sinks m') ∧
    (∀ (m : Downlink) (received : List Camkes.Received), received.map Camkes.Received.byte = resetBytes →
      ∃ m', consoleMuxDrainUart sinks m received = m' ∧ MuxDelivers sinks m') := by
  refine ⟨?_, ?_, ?_⟩
  · intro h hr id p hid
    have hpairs : NoControlPair h.parser.inEscape (frameBytes id p) := by
      simpa using @noControlPair_frames h.parser.inEscape [(id, p)] (by simpa using hid)
    obtain ⟨h', hrun, hline⟩ := line_refines he hr hpairs
    have hcursor : h'.cursor = .idle :=
      hline.cursor.trans (after_frame _ (by decide) (not_reserved_iff.mp hid).2.2 _ p)
    have hesc : h'.parser.inEscape = false := congrArg Cursor.escape hcursor
    refine ⟨h', hrun, hesc, ?_, hostDelivers_of_escape he hline.receiving hesc⟩
    simpa [State.cursor, Cursor.idle, hesc] using hcursor
  · intro m received id p hid hw
    obtain ⟨hesc, hcur⟩ := drain_frame sinks m hid hw
    exact ⟨_, rfl, hesc, hcur, muxDelivers_of_escape hesc⟩
  · intro m received hw
    refine ⟨_, rfl, muxDelivers_of_escape ?_⟩
    have hcursor := congrArg Cursor.escape (drain_cursor sinks m received)
    rw [hw] at hcursor
    exact hcursor.trans (after_plain _ (by decide) _ [0x00, uartProtoEscStart])

/-- The frame comes while an escape is pending. -/
theorem demuxers_resynchronise_pending : ∃ h h', ttyInputHandler quietEnv (start quietEnv) [0xfe] = (h, true) ∧
    h.parser.inEscape = true ∧ feedVirtiosoBytes quietEnv h (frameBytes 0x05 [0x41]) = (h', true) ∧
    h'.parser.inEscape = false := by
  let h := (ttyInputHandler quietEnv (start quietEnv) [0xfe]).1
  have hrun : ttyInputHandler quietEnv (start quietEnv) [0xfe] = (h, true) := Prod.ext rfl (by decide)
  obtain ⟨h', hfeed, hesc, -⟩ := (demuxers_resynchronise quietEnv_healthy []).1 h
    (reached_receiving quietEnv_healthy hrun (by decide)) 0x05 [0x41] (by decide)
  exact ⟨h, h', hrun, by decide, hfeed, hesc⟩

end VirtiosoMux.Demuxers
