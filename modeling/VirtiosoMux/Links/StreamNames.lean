import VirtiosoMux.Muxd.Enrollment
import VirtiosoMux.Host.Connected

/-! # Stream names from the enrollment to the host

A name crosses three length encodings: the byte before it in the enrollment, the two bytes of the
control record, which count the identifier, and the C buffer of 256 bytes with its terminator.
-/
namespace VirtiosoMux.Links
open Host

/-- The entry that an announcement adds. -/
theorem connect_entry {t : Table} {id : Byte} (hfresh : findVirtiosoPtyIdxByStreamId t id = none) (hroom : t.numProc < ptyCapacity)
    {name : Bytes} (hnul : (0 : Byte) ∉ name) (hlen : name.length ≤ 255) :
    (t.connect id name).numProc = t.numProc + 1 ∧ (t.connect id name).tags t.numProc = ⟨some name, id⟩ ∧
      (∀ i < t.numProc, (t.connect id name).tags i = t.tags i) ∧
      findVirtiosoPtyIdxByStreamId (t.connect id name) id = some t.numProc := by
  have hconnect := connect_fresh hfresh hroom name
  rw [List.take_of_length_le hlen, cString_of_notMem hnul] at hconnect
  have hnew : (t.connect id name).tags t.numProc = ⟨some name, id⟩ := by
    rw [hconnect]
    exact Function.update_self _ _ _
  have hold : ∀ i < t.numProc, (t.connect id name).tags i = t.tags i := by
    intro i hi
    rw [hconnect]
    exact Function.update_of_ne (Nat.ne_of_lt hi) _ _
  have hcount : (t.connect id name).numProc = t.numProc + 1 := by rw [hconnect]
  refine ⟨hcount, hnew, hold, find_eq_some_iff.mpr ⟨?_, ?_, ?_⟩⟩
  · rw [hcount]
    exact Nat.lt_succ_self _
  · rw [hnew]
  · intro j hj
    rw [hold j hj]
    exact find_eq_none_iff.mp hfresh j hj

/-- The bytes of an enrollment are read as the name; its CTRL_CONNECTED record, handed to the inner
parser between records with whatever else the receiving thread reads, registers a stream of exactly
that name. -/
theorem stream_names_survive {name : Bytes} (hutf8 : Muxd.ValidUtf8 name) (hnul : (0 : Byte) ∉ name) (hpos : 0 < name.length)
    (hlen : name.length ≤ 255) :
    ∃ sent nameBuf, Muxd.enrollment name = some sent ∧
      (∀ output, Muxd.readEnrollment (sent ++ output) = some (nameBuf, output)) ∧
      (∀ s c, s.task c = .enrolling →
        Muxd.step s (.enroll c nameBuf) = some (s.setTask c (.named (Muxd.fromUtf8Lossy nameBuf)))) ∧
      ∀ env h id received, Env.Opens env → h.parser.controlState = .idle → h.parser.inEscape = false →
        findVirtiosoPtyIdxByStreamId h.table id = none → h.table.numProc < ptyCapacity →
        (ttyInputHandler env h received).2 = true → Along env (fun h ch => ¬ OuterReset env h ch) h received →
        handedBytes env h received =
          Muxd.encodeControlFrame vcmuxProtoControlStreamConnected id (Muxd.fromUtf8Lossy nameBuf) [] →
        (ttyInputHandler env h received).1.table.numProc = h.table.numProc + 1 ∧
        (ttyInputHandler env h received).1.table.tags h.table.numProc = ⟨some name, id⟩ ∧
        (∀ i < h.table.numProc, (ttyInputHandler env h received).1.table.tags i = h.table.tags i) ∧
        findVirtiosoPtyIdxByStreamId (ttyInputHandler env h received).1.table id = some h.table.numProc ∧
        (ttyInputHandler env h received).1.parser.controlState = .idle ∧
        (ttyInputHandler env h received).1.parser.inEscape = false := by
  obtain ⟨sent, hsent, hread⟩ := Muxd.enrollment_read hpos hlen
  refine ⟨sent, name, hsent, hread, ?_, ?_⟩
  · intro s c htask
    simp only [Muxd.step, htask]
    exact if_pos ⟨hpos, hlen⟩
  · intro env h id received ho hidle hplain hfresh hroom hrun hno hbytes
    have hfed := fed_handler hrun hno
    have hcut : name.take 65534 = name := List.take_of_length_le (by omega)
    rw [hbytes, Muxd.fromUtf8Lossy_valid hutf8, Muxd.encodeControlFrame_eq, List.nil_append, hcut] at hfed
    obtain ⟨htable, hcontrol, hescape⟩ := fed_connected ho hidle hplain (by omega) hfresh hroom hfed
    obtain ⟨hcount, hnew, hold, hfind⟩ := connect_entry hfresh hroom hnul hlen
    rw [htable]
    exact ⟨hcount, hnew, hold, hfind, hcontrol, hescape⟩

theorem quietEnv_opens : quietEnv.Opens := by
  constructor <;> intros <;> rfl

/-- The name `é` on the identifier 5. -/
theorem stream_names_survive_accent :
    (ttyInputHandler quietEnv (start quietEnv) [0xfe, 0xfd, 0x01, 0x00, 0x03, 0x05, 0xc3, 0xa9]).1.table.tags 3 =
      ⟨some [0xc3, 0xa9], 5⟩ := by
  have hutf8 : Muxd.ValidUtf8 [0xc3, 0xa9] := ⟨['é'], by decide⟩
  obtain ⟨sent, nameBuf, hsent, hread, -, hall⟩ := stream_names_survive hutf8 (by decide) (by decide) (by decide)
  have hsent' : Muxd.enrollment [0xc3, 0xa9] = some [0x02, 0xc3, 0xa9] := by decide
  have hread' : Muxd.readEnrollment ([0x02, 0xc3, 0xa9] ++ []) = some ([0xc3, 0xa9], []) := by decide
  cases hsent'.symm.trans hsent
  cases hread'.symm.trans (hread [])
  have hno : Along quietEnv (fun h ch => ¬ OuterReset quietEnv h ch) (start quietEnv)
      [0xfe, 0xfd, 0x01, 0x00, 0x03, 0x05, 0xc3, 0xa9] :=
    along_of_forall (fun h ch hreset => absurd hreset.1 (by decide)) _ _
  have hregistered := hall quietEnv (start quietEnv) 5 [0xfe, 0xfd, 0x01, 0x00, 0x03, 0x05, 0xc3, 0xa9] quietEnv_opens
    rfl rfl (by decide +kernel) (by decide +kernel) (by decide +kernel) hno (by decide +kernel)
  exact hregistered.2.1

end VirtiosoMux.Links
