import VirtiosoMux.Host.Carrier

/-! # The copy of the carrier

Every byte of the carrier is meant to appear in `raw_ccplex`. A plain byte is copied before it
reaches the inner parser; an unescaped `0xff` reaches the inner parser through another branch and
is not copied.
-/
namespace VirtiosoMux.Host

def handedBytes (env : Env) : State → Bytes → Bytes
  | _, [] => []
  | h, ch :: rest => ((handed env h ch).map Prod.snd).toList ++
      if (feedNvidiaOuterOrVirtiosoRaw env h ch).2 < 0 then []
      else handedBytes env { (feedNvidiaOuterOrVirtiosoRaw env h ch).1 with
        clock := (feedNvidiaOuterOrVirtiosoRaw env h ch).1.clock + 1 } rest

/-- The byte is the second of a pair `ff ff` under the tag of the carrier. -/
def LiteralCarried (env : Env) (h : State) (ch : Byte) : Prop :=
  h.parser.outerInEscape = true ∧ ch = uartProtoEscEsc ∧ h.parser.curOuterTag = some env.virtiosoOuterTagIdx

instance (env : Env) (h : State) (ch : Byte) : Decidable (LiteralCarried env h ch) :=
  inferInstanceAs (Decidable (_ ∧ _ ∧ _))

/-- In nvidia-tcu mode, without line patching and timestamps, `raw_ccplex` has a log, and its PTY
does not fail with other than the tolerated errors. The writes to the log may fail. -/
structure Env.LogsCarrier (env : Env) : Prop where
  mode : env.virtiosoOuterMode = .nvidiaTcu
  noPatch : env.disablePatch = true
  noStamp : env.logTimestampEnabled = false
  saves : env.saveOutputPath.isSome = true
  master : ((env.io 0).pty rawCcplexPtyIdx).master = true
  logOpen : ((env.io 0).pty rawCcplexPtyIdx).logOpen = true
  ptyOk : ∀ n k, ((env.io n).flush rawCcplexPtyIdx k).pty ≠ .error

theorem State.Sound.setRaw {h : State} (hs : h.Sound) (p : ThreadData) : (h.setPty rawCcplexPtyIdx p).Sound :=
  ⟨hs.counts, hs.capacity, hs.slots, hs.current, hs.record, hs.autopilot⟩

section Copies
variable {env : Env} (he : env.LogsCarrier)
include he

/-- The copy is logged, or nothing is and the thread ends. -/
theorem copy_logged {h : State} (hmax : rawCcplexPtyIdx < h.table.ptyMaxCount)
    (hfd : (h.ptyData rawCcplexPtyIdx).logFd = true) (ch : Byte) :
    ∃ p ret, patch2flushStream env h rawCcplexPtyIdx ch = (h.setPty rawCcplexPtyIdx p, ret) ∧ p.logFd = true ∧
      ((ret = 0 ∧ p.log = h.log rawCcplexPtyIdx ++ [ch]) ∨ (ret = -3 ∧ p.log = h.log rawCcplexPtyIdx)) := by
  have hpty := he.ptyOk h.clock 2
  cases hlog : ((env.io h.clock).flush rawCcplexPtyIdx 2).logOk with
  | false =>
    refine ⟨{ h.ptyData rawCcplexPtyIdx with log := h.log rawCcplexPtyIdx }, -3, ?_, hfd, .inr ⟨rfl, rfl⟩⟩
    simp [patch2flushStream, flushStream, he.noPatch, he.noStamp, Env.now, hfd, hlog, hmax, State.log]
  | true =>
    cases hw : ((env.io h.clock).flush rawCcplexPtyIdx 2).pty with
    | error => exact absurd hw hpty
    | ok =>
      refine ⟨{ h.ptyData rawCcplexPtyIdx with
        log := h.log rawCcplexPtyIdx ++ [ch]
        written := (h.ptyData rawCcplexPtyIdx).written ++ [ch] }, 0, ?_, hfd, .inl ⟨rfl, rfl⟩⟩
      simp [patch2flushStream, flushStream, he.noPatch, he.noStamp, Env.now, hfd, hlog, hmax, hw, State.log]
    | again =>
      refine ⟨{ h.ptyData rawCcplexPtyIdx with log := h.log rawCcplexPtyIdx ++ [ch] }, 0, ?_, hfd, .inl ⟨rfl, rfl⟩⟩
      simp [patch2flushStream, flushStream, he.noPatch, he.noStamp, Env.now, hfd, hlog, hmax, hw, State.log]

/-- One received byte: the log grows by the byte handed on, unless it is an unescaped `0xff`. -/
theorem receive_copies {h : State} (hs : h.Sound) (hfd : (h.ptyData rawCcplexPtyIdx).logFd = true) (ch : Byte) :
    ((feedNvidiaOuterOrVirtiosoRaw env h ch).1.ptyData rawCcplexPtyIdx).logFd = true ∧
    (feedNvidiaOuterOrVirtiosoRaw env h ch).1.log rawCcplexPtyIdx = h.log rawCcplexPtyIdx ++
      (if LiteralCarried env h ch then [] else ((handed env h ch).map Prod.snd).toList) ∧
    (LiteralCarried env h ch → ((handed env h ch).map Prod.snd).toList = [uartProtoEscStart]) ∧
    (0 ≤ (feedNvidiaOuterOrVirtiosoRaw env h ch).2 →
      (handed env h ch).map Prod.snd = (outerByte env.virtiosoOuterTagIdx h.outerCursor ch).2 ∧
      (feedNvidiaOuterOrVirtiosoRaw env h ch).1.outerCursor = (outerByte env.virtiosoOuterTagIdx h.outerCursor ch).1) := by
  have hkeep : ∀ g : State, g.Sound → ∀ b, (feedVirtiosoByte env g b).1.ptyData rawCcplexPtyIdx = g.ptyData rawCcplexPtyIdx := by
    intro g hg b
    have hb := hg.slots.builtin
    exact feedVirtiosoByte_slots env g b (by simp only [rawCcplexPtyIdx]; omega) (hg.target_ne (by decide) (by decide))
  have hcursor : ∀ g b, (feedVirtiosoByte env g b).1.outerCursor = g.outerCursor := by
    intro g b
    have hmoves := feedVirtiosoByte_cursor env g b
    rw [State.outerCursor, hmoves.outerInEscape, hmoves.curOuterTag]
    rfl
  rcases outer_cases he.mode h ch with ⟨c, hbyte, -, hfeed, hhanded⟩ | ⟨hesc, hch, hbyte, hfeed, hhanded⟩ |
    ⟨hesc, hch, htag, hbyte, hfeed, hhanded⟩ | ⟨hesc, hch, htag, hbyte, hfeed, hhanded⟩
  · have hlit : ¬ LiteralCarried env h ch := by
      rintro ⟨hin, hff, htag⟩
      simp [handed, he.mode, hin, hff, htag] at hhanded
    rw [hfeed, hhanded, hbyte, if_neg hlit]
    exact ⟨hfd, (List.append_nil _).symm, fun hl => absurd hl hlit, fun _ => ⟨rfl, rfl⟩⟩
  · have hlit : ¬ LiteralCarried env h ch := by
      rintro ⟨-, hff, -⟩
      rw [hch] at hff
      exact absurd hff (by decide)
    rw [hfeed, hhanded, hbyte, if_neg hlit]
    exact ⟨hfd, (List.append_nil _).symm, fun hl => absurd hl hlit, fun _ => ⟨rfl, rfl⟩⟩
  · have hsound : (h.setOuterEscape false).Sound :=
      ⟨hs.counts, hs.capacity, hs.slots, hs.current, hs.record, hs.autopilot⟩
    have hslot := hkeep _ hsound uartProtoEscStart
    rw [hfeed, hhanded, hbyte, if_pos ⟨hesc, hch, htag⟩, State.log, hslot, List.append_nil]
    exact ⟨hfd, rfl, fun _ => rfl, fun _ => ⟨rfl, hcursor _ _⟩⟩
  · have hlit : ¬ LiteralCarried env h ch := by
      rintro ⟨hin, -⟩
      rw [hesc] at hin
      cases hin
    have hmax : rawCcplexPtyIdx < h.table.ptyMaxCount := by
      have := hs.counts
      have := hs.slots.builtin
      simp only [rawCcplexPtyIdx]
      omega
    obtain ⟨p, ret, hcopy, hpfd, hcases⟩ := copy_logged he hmax hfd ch
    rw [hfeed, hhanded, hbyte, if_neg hlit]
    simp only [feedCarrier, handedWithCopy, if_pos hmax, hcopy]
    have hself : (h.setPty rawCcplexPtyIdx p).ptyData rawCcplexPtyIdx = p := by simp [State.setPty]
    rcases hcases with ⟨rfl, hlog⟩ | ⟨rfl, hlog⟩
    · have hslot := hkeep _ (hs.setRaw p) ch
      rw [hself] at hslot
      simp only [ne_eq, not_true_eq_false, if_false, State.log, hslot, Option.map_some, Option.toList_some]
      exact ⟨hpfd, hlog, fun hl => absurd hl hlit, fun _ => ⟨trivial, hcursor _ _⟩⟩
    · simp only [ne_eq, show (-3 : Int) ≠ 0 by decide, not_false_eq_true, if_true, State.log, hself]
      exact ⟨hpfd, by simpa [State.log] using hlog, fun hl => absurd hl hlit, fun hneg => absurd hneg (by decide)⟩

/-- A whole run: the log grows by a part of what is handed on, by all of it exactly if no `0xff` is
unescaped. -/
theorem run_copies {h : State} (hs : h.Sound) (hfd : (h.ptyData rawCcplexPtyIdx).logFd = true) (bytes : Bytes) :
    ∃ copies, (ttyInputHandler env h bytes).1.log rawCcplexPtyIdx = h.log rawCcplexPtyIdx ++ copies ∧
      copies.length ≤ (handedBytes env h bytes).length ∧
      (copies = handedBytes env h bytes ↔ Along env (fun h ch => ¬ LiteralCarried env h ch) h bytes) := by
  induction bytes generalizing h with
  | nil => exact ⟨[], (List.append_nil _).symm, Nat.le_refl _, by simp [handedBytes, Along]⟩
  | cons ch rest ih =>
    obtain ⟨hfd', hlog, hlit, -⟩ := receive_copies he hs hfd ch
    simp only [ttyInputHandler, handedBytes, Along]
    by_cases hneg : (feedNvidiaOuterOrVirtiosoRaw env h ch).2 < 0
    · simp only [if_pos hneg, List.append_nil, Int.not_le.mpr hneg, false_imp_iff, and_true]
      refine ⟨_, hlog, ?_, ?_⟩
      · split
        · exact Nat.zero_le _
        · exact Nat.le_refl _
      · by_cases hl : LiteralCarried env h ch
        · simp [hl, hlit hl]
        · simp [hl]
    · obtain ⟨copies, hrest, hlen, hiff⟩ := ih ((hs.receive (.inl (Int.not_lt.mp hneg))).tick) hfd'
      simp only [if_neg hneg, Int.not_lt.mp hneg, true_imp_iff]
      refine ⟨(if LiteralCarried env h ch then [] else ((handed env h ch).map Prod.snd).toList) ++ copies, ?_, ?_, ?_⟩
      · rw [hrest, ← List.append_assoc, ← hlog]
        rfl
      · rw [List.length_append, List.length_append]
        split
        · simp only [List.length_nil]
          omega
        · omega
      · by_cases hl : LiteralCarried env h ch
        · -- a byte is missing, so the lengths differ
          rw [if_pos hl, hlit hl]
          refine ⟨?_, fun hok => absurd hl hok.1⟩
          intro heq
          have := congrArg List.length heq
          simp only [List.nil_append, List.length_append, List.length_singleton] at this
          omega
        · rw [if_neg hl, List.append_cancel_left_eq, hiff]
          exact ⟨fun hok => ⟨hl, hok⟩, fun hok => hok.2⟩

/-- Up to the end of the thread, the bytes handed on are those of the outer decoder. -/
theorem handedBytes_carried {h : State} (hs : h.Sound) (hfd : (h.ptyData rawCcplexPtyIdx).logFd = true) {bytes : Bytes}
    (hrun : (ttyInputHandler env h bytes).2 = true) :
    handedBytes env h bytes = carried env.virtiosoOuterTagIdx h.outerCursor bytes := by
  induction bytes generalizing h with
  | nil => rfl
  | cons ch rest ih =>
    obtain ⟨hfd', -, -, houter⟩ := receive_copies he hs hfd ch
    simp only [ttyInputHandler] at hrun
    by_cases hneg : (feedNvidiaOuterOrVirtiosoRaw env h ch).2 < 0
    · simp only [if_pos hneg] at hrun
      cases hrun
    · obtain ⟨hbyte, hcursor⟩ := houter (Int.not_lt.mp hneg)
      simp only [if_neg hneg] at hrun
      have hrest := ih ((hs.receive (.inl (Int.not_lt.mp hneg))).tick) hfd' hrun
      rw [carried_cons, ← hbyte, ← hcursor, handedBytes, if_neg hneg, hrest]
      rfl

theorem start_logFd : ((start env).ptyData rawCcplexPtyIdx).logFd = true := by
  -- the other two openings leave the slot alone
  have hother : ∀ (h : State) i name, i ≠ rawCcplexPtyIdx →
      (createPtyAtIndex env h i name false).1.ptyData rawCcplexPtyIdx = h.ptyData rawCcplexPtyIdx := by
    intro h i name hi
    obtain ⟨p, out, ok, heq, -⟩ := createPtyAtIndex_slot env h i name false
    rw [heq]
    exact Function.update_of_ne (Ne.symm hi) p h.ptyData
  have hmaster := he.master
  have hopen := he.logOpen
  have hcap : ¬ ptyCapacity ≤ rawCcplexPtyIdx := by decide
  rw [start, hother _ _ _ (by decide), hother _ _ _ (by decide)]
  simp only [createPtyAtIndex, Env.now, if_neg hcap, hmaster, Bool.not_true, Bool.false_eq_true, if_false, Bool.false_and]
  split
  · simp [State.setPty, he.saves, hopen]
  · simp [emitPtySessionRecord, State.setPty, he.saves, hopen]

/-- `raw_ccplex` logs exactly the bytes handed to the inner parser, which are the decoded bytes of
the carrier, if and only if no `0xff` is unescaped under the tag of the carrier. -/
theorem carrier_copies (bytes : Bytes) :
    ((ttyInputHandler env (start env) bytes).1.log rawCcplexPtyIdx = handedBytes env (start env) bytes ↔
      Along env (fun h ch => ¬ LiteralCarried env h ch) (start env) bytes) ∧
    ((ttyInputHandler env (start env) bytes).2 = true →
      handedBytes env (start env) bytes = carried env.virtiosoOuterTagIdx .start bytes) := by
  have hs := start_sound env
  obtain ⟨pd, out, hstart, hempty, -⟩ := start_state env
  have hlog : (start env).log rawCcplexPtyIdx = [] := by
    rw [hstart]
    exact (hempty rawCcplexPtyIdx).1
  obtain ⟨copies, hcopies, -, hiff⟩ := run_copies he hs (start_logFd he) bytes
  refine ⟨?_, ?_⟩
  · rw [hcopies, hlog, List.nil_append]
    exact hiff
  · intro hrun
    rw [handedBytes_carried he hs (start_logFd he) hrun, (start_outer env).1]

end Copies

theorem quietCarrierEnv_logsCarrier : quietCarrierEnv.LogsCarrier := by
  refine ⟨rfl, rfl, rfl, rfl, rfl, rfl, ?_⟩
  intro n k
  simp [quietCarrierEnv, quietEnv]

/-- A frame without `0xff`. -/
theorem carrier_copies_frame :
    (ttyInputHandler quietCarrierEnv (start quietCarrierEnv) [0xff, 0xe1, 0xfe, 0x07, 0x41, 0xfe, 0x00]).1.log rawCcplexPtyIdx =
      handedBytes quietCarrierEnv (start quietCarrierEnv) [0xff, 0xe1, 0xfe, 0x07, 0x41, 0xfe, 0x00] :=
  (carrier_copies quietCarrierEnv_logsCarrier _).1.mpr (by decide)

/-- An unescaped `0xff` reaches the inner parser and is missing from the log. -/
theorem literal_not_copied :
    ¬ ∀ bytes, (ttyInputHandler quietCarrierEnv (start quietCarrierEnv) bytes).1.log rawCcplexPtyIdx =
      handedBytes quietCarrierEnv (start quietCarrierEnv) bytes := by
  intro hall
  exact absurd (hall [0xff, 0xe1, 0xff, 0xff]) (by decide)

end VirtiosoMux.Host
