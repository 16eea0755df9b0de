import VirtiosoMux.Host.Carrier
import VirtiosoMux.Host.Carrier
import VirtiosoMux.Host.Runs

/-! # The reset of the outer layer

The pair `ff fd` clears the tag, the stream cursor and the escape of the inner layer, but not its
control state. What follows a reset is handled as after a start exactly if no control record was
open.
-/
namespace VirtiosoMux.Host

/-! ### How a run handles its bytes -/

def copied (env : Env) (h : State) (ch : Byte) : Bool :=
  match env.virtiosoOuterMode with
  | .raw => true
  | .nvidiaTcu => !h.parser.outerInEscape && decide (ch ≠ uartProtoEscStart) &&
      decide (h.parser.curOuterTag = some env.virtiosoOuterTagIdx)

/-- What becomes of a received byte: its copy, the slot that it is written to, and the record that
it completes. -/
structure Handling where
  copied : Bool
  target : Option Nat
  announcement : Option (Byte × Bytes)
  registry : Option Bytes
deriving DecidableEq

def handling (env : Env) (h : State) (ch : Byte) : Handling :=
  ⟨copied env h ch, (handed env h ch).bind (fun (g, b) => innerTarget g b), receivedAnnouncement env h ch,
    receivedRegistry env h ch⟩

def handlings (env : Env) : State → Bytes → List Handling
  | _, [] => []
  | h, ch :: rest => handling env h ch ::
      if (feedNvidiaOuterOrVirtiosoRaw env h ch).2 < 0 then []
      else handlings env { (feedNvidiaOuterOrVirtiosoRaw env h ch).1 with
        clock := (feedNvidiaOuterOrVirtiosoRaw env h ch).1.clock + 1 } rest

structure SameOutputs (h h' : State) : Prop where
  streams : SameStreams h h'
  copies : h'.ptyData rawCcplexPtyIdx = h.ptyData rawCcplexPtyIdx

structure SameHandling (env : Env) (h h' : State) (bytes : Bytes) : Prop where
  trace : handlings env h' bytes = handlings env h bytes
  stopped : (ttyInputHandler env h' bytes).2 = (ttyInputHandler env h bytes).2
  outputs : SameOutputs (ttyInputHandler env h bytes).1 (ttyInputHandler env h' bytes).1

/-! ### States that differ in a closed record only -/

structure Alike (h h' : State) : Prop where
  agree : h.Agree False h'
  sound : h.Sound
  sound' : h'.Sound
  copies : h'.ptyData rawCcplexPtyIdx = h.ptyData rawCcplexPtyIdx
  seenN : h'.parser.seenN rawCcplexPtyIdx = h.parser.seenN rawCcplexPtyIdx
  seenR : h'.parser.seenR rawCcplexPtyIdx = h.parser.seenR rawCcplexPtyIdx
  outerInEscape : h'.parser.outerInEscape = h.parser.outerInEscape
  curOuterTag : h'.parser.curOuterTag = h.parser.curOuterTag
  clock : h'.clock = h.clock

structure SameStep (a b : State × Int) : Prop where
  ret : b.2 = a.2
  outputs : SameOutputs a.1 b.1
  alike : 0 ≤ a.2 → Alike a.1 b.1

section Step
variable {env : Env} {h h' : State}

theorem Alike.outputs (ha : Alike h h') : SameOutputs h h' := ⟨ha.agree.streams, ha.copies⟩

theorem Alike.calls (ha : Alike h h') (env : Env) : SameCalls env h.clock env h'.clock :=
  ⟨rfl, rfl, rfl, by rw [ha.clock]⟩

theorem Alike.tick (ha : Alike h h') : Alike { h with clock := h.clock + 1 } { h' with clock := h'.clock + 1 } :=
  ⟨ha.agree.moments _ _, ha.sound.tick, ha.sound'.tick, ha.copies, ha.seenN, ha.seenR, ha.outerInEscape, ha.curOuterTag,
    by rw [ha.clock]⟩

theorem Alike.copy (ha : Alike h h') (p : ThreadData) (n r e : Bool) :
    Alike (((h.setPty rawCcplexPtyIdx p).setSeen rawCcplexPtyIdx n r).setOuterEscape e)
      (((h'.setPty rawCcplexPtyIdx p).setSeen rawCcplexPtyIdx n r).setOuterEscape e) := by
  refine ⟨ha.agree.copy p p n r n r e e, ha.sound.copy p n r e, ha.sound'.copy p n r e, ?_, ?_, ?_, rfl, ha.curOuterTag,
    ha.clock⟩
  · simp [State.setPty, State.setSeen]
  · simp [State.setSeen]
  · simp [State.setSeen]

theorem Alike.feedVirtiosoByte (ha : Alike h h') (ch : Byte) :
    SameStep (feedVirtiosoByte env h ch) (feedVirtiosoByte env h' ch) := by
  obtain ⟨hagree, hret⟩ := feedVirtiosoByte_agree ha.sound ha.agree (ha.calls env) ch
  have hne : ∀ g : State, g.Sound → innerTarget g ch ≠ some rawCcplexPtyIdx :=
    fun g hg => hg.target_ne (by decide) (by decide)
  have hslot : ∀ g : State, g.Sound → (Host.feedVirtiosoByte env g ch).1.ptyData rawCcplexPtyIdx = g.ptyData rawCcplexPtyIdx := by
    intro g hg
    have hb := hg.slots.builtin
    exact feedVirtiosoByte_slots env g ch (by simp only [rawCcplexPtyIdx]; omega) (hne g hg)
  have hcopies : (Host.feedVirtiosoByte env h' ch).1.ptyData rawCcplexPtyIdx =
      (Host.feedVirtiosoByte env h ch).1.ptyData rawCcplexPtyIdx := by
    rw [hslot h' ha.sound', hslot h ha.sound]
    exact ha.copies
  refine ⟨hret, ⟨hagree.streams, hcopies⟩, ?_⟩
  intro hok
  have hseen := feedVirtiosoByte_seen env h ch (hne h ha.sound)
  have hseen' := feedVirtiosoByte_seen env h' ch (hne h' ha.sound')
  have hmoves := feedVirtiosoByte_cursor env h ch
  have hmoves' := feedVirtiosoByte_cursor env h' ch
  refine ⟨hagree, ha.sound.feed (.inl hok), ha.sound'.feed (.inl (by rw [hret]; exact hok)), hcopies, ?_, ?_, ?_, ?_, ?_⟩
  · rw [hseen.1, hseen'.1]
    exact ha.seenN
  · rw [hseen.2, hseen'.2]
    exact ha.seenR
  · rw [hmoves.outerInEscape, hmoves'.outerInEscape]
    exact ha.outerInEscape
  · rw [hmoves.curOuterTag, hmoves'.curOuterTag]
    exact ha.curOuterTag
  · rw [feedVirtiosoByte_clock, feedVirtiosoByte_clock]
    exact ha.clock

/-- The copy is the same on both sides. -/
theorem Alike.copied (ha : Alike h h') (env : Env) (ch : Byte) :
    ∃ p n r ret, patch2flushStream env h rawCcplexPtyIdx ch = ((h.setPty rawCcplexPtyIdx p).setSeen rawCcplexPtyIdx n r, ret) ∧
      patch2flushStream env h' rawCcplexPtyIdx ch = ((h'.setPty rawCcplexPtyIdx p).setSeen rawCcplexPtyIdx n r, ret) ∧
      Alike ((h.setPty rawCcplexPtyIdx p).setSeen rawCcplexPtyIdx n r)
        ((h'.setPty rawCcplexPtyIdx p).setSeen rawCcplexPtyIdx n r) := by
  obtain ⟨p, n, r, ret, heq, heq'⟩ := patch2flushStream_agree ha.agree.streams.table ha.copies ha.seenN ha.seenR
    (ha.calls env) ch
  refine ⟨p, n, r, ret, heq, heq', ?_⟩
  have hcopy := ha.copy p n r h.parser.outerInEscape
  have hself : ((h'.setPty rawCcplexPtyIdx p).setSeen rawCcplexPtyIdx n r).setOuterEscape h.parser.outerInEscape =
      (h'.setPty rawCcplexPtyIdx p).setSeen rawCcplexPtyIdx n r := by
    rw [← ha.outerInEscape]
    rfl
  rw [hself] at hcopy
  exact hcopy

theorem Alike.feedCarrier (ha : Alike h h') (ch : Byte) : SameStep (feedCarrier env h ch) (feedCarrier env h' ch) := by
  unfold Host.feedCarrier
  rw [ha.agree.streams.table]
  split
  · obtain ⟨p, n, r, ret, heq, heq', hcopy⟩ := ha.copied env ch
    rw [heq, heq']
    dsimp only
    split
    · exact ⟨rfl, hcopy.outputs, fun hneg => absurd hneg (by simp)⟩
    · exact hcopy.feedVirtiosoByte ch
  · exact ha.feedVirtiosoByte ch

/-- A move of the outer cursors, and with it of the inner cursor and escape, on both sides. -/
theorem Alike.move (ha : Alike h h') (e : Bool) (tag : Option Nat) :
    Alike (h.setOuter ⟨e, tag⟩) (h'.setOuter ⟨e, tag⟩) :=
  have hs := ha.sound
  have hs' := ha.sound'
  have hp := ha.agree.inner
  have hst := ha.agree.streams
  ⟨⟨⟨hst.table, hst.ptyData, hst.registry, hst.acks, hst.stdout⟩,
      ⟨hp.inEscape, hp.curRxStream, hp.controlState, hp.registryJson, hp.seenN, hp.seenR, hp.length, hp.pending⟩⟩,
    ⟨hs.counts, hs.capacity, hs.slots, hs.current, hs.record, hs.autopilot⟩,
    ⟨hs'.counts, hs'.capacity, hs'.slots, hs'.current, hs'.record, hs'.autopilot⟩,
    ha.copies, ha.seenN, ha.seenR, rfl, rfl, ha.clock⟩

theorem Alike.setOuterEscape (ha : Alike h h') (e : Bool) : Alike (h.setOuterEscape e) (h'.setOuterEscape e) := by
  have hmove := ha.move e h.parser.curOuterTag
  have hself : h'.setOuter ⟨e, h.parser.curOuterTag⟩ = h'.setOuterEscape e := by
    rw [← ha.curOuterTag]
    rfl
  rw [hself] at hmove
  exact hmove

theorem State.Sound.noStream (hs : h.Sound) : ((h.setEscape false).setStream none).Sound :=
  ⟨hs.counts, hs.capacity, hs.slots, fun _ hi => absurd hi (by simp), hs.record, hs.autopilot⟩

theorem Alike.reset (ha : Alike h h') : Alike ((h.setEscape false).setStream none) ((h'.setEscape false).setStream none) :=
  ⟨(ha.agree.setEscape false).setStream none, ha.sound.noStream, ha.sound'.noStream, ha.copies, ha.seenN, ha.seenR,
    ha.outerInEscape, ha.curOuterTag, ha.clock⟩

theorem SameStep.of_alike (ha : Alike h h') : SameStep (h, 0) (h', 0) := ⟨rfl, ha.outputs, fun _ => ha⟩

/-- One received byte. -/
theorem Alike.receive (ha : Alike h h') (hmode : env.virtiosoOuterMode = .nvidiaTcu) (ch : Byte) :
    SameStep (feedNvidiaOuterOrVirtiosoRaw env h ch) (feedNvidiaOuterOrVirtiosoRaw env h' ch) := by
  have hclosed := ha.move false h.parser.curOuterTag
  unfold feedNvidiaOuterOrVirtiosoRaw
  rw [hmode]
  dsimp only
  rw [ha.outerInEscape, ha.curOuterTag]
  split
  · split
    · split
      · exact hclosed.feedVirtiosoByte uartProtoEscStart
      · exact .of_alike hclosed
    split
    · exact .of_alike (ha.reset.move false none)
    · split
      · exact .of_alike (ha.move false _)
      · exact .of_alike hclosed
  split
  · exact .of_alike (ha.move true _)
  split
  · exact ha.feedCarrier ch
  · exact .of_alike ha

/-- What the inner parser makes of a byte is read from what the states agree on. -/
theorem State.Agree.targets (ha : h.Agree False h') (ch : Byte) :
    innerTarget h' ch = innerTarget h ch ∧ completedAnnouncement h' ch = completedAnnouncement h ch ∧
    completedRegistry h' ch = completedRegistry h ch := by
  have hp := ha.inner
  refine ⟨?_, ?_, ?_⟩
  · unfold innerTarget
    rw [hp.controlState, hp.inEscape, hp.curRxStream, ha.streams.table]
  · by_cases hc : h.parser.controlState = .announcePayload
    · have hread : h.parser.controlState.ReadsLength := by simp [hc, ControlState.ReadsLength]
      have hpend := hp.pending (.inr (by simp [hc, ControlState.ReadsType]))
      have hstore := storePayload_agree ha hread ch
      obtain ⟨hlen, hpos⟩ := hstore.inner.length (.inr hread)
      unfold completedAnnouncement
      rw [hp.controlState, hlen, hpos, hpend, (hp.length (.inr hread)).1, hstore.inner.registryJson]
    · have hc' : h'.parser.controlState ≠ .announcePayload := by rw [hp.controlState]; exact hc
      simp [completedAnnouncement, hc, hc']
  · by_cases hc : h.parser.controlState = .registryJson
    · have hread : h.parser.controlState.ReadsLength := by simp [hc, ControlState.ReadsLength]
      have hstore := storePayload_agree ha hread ch
      obtain ⟨hlen, hpos⟩ := hstore.inner.length (.inr hread)
      unfold completedRegistry
      rw [hp.controlState, hlen, hpos, ha.streams.registry, hstore.inner.registryJson]
    · have hc' : h'.parser.controlState ≠ .registryJson := by rw [hp.controlState]; exact hc
      simp [completedRegistry, hc, hc']

/-- The same byte is handed on, or none. -/
theorem Alike.handed (ha : Alike h h') (hmode : env.virtiosoOuterMode = .nvidiaTcu) (ch : Byte) :
    (handed env h ch = none ∧ handed env h' ch = none) ∨
    (∃ g g' b, handed env h ch = some (g, b) ∧ handed env h' ch = some (g', b) ∧ Alike g g') := by
  unfold Host.handed
  rw [hmode]
  dsimp only
  rw [ha.outerInEscape, ha.curOuterTag]
  split
  · split
    · exact .inr ⟨_, _, _, rfl, rfl, ha.setOuterEscape false⟩
    · exact .inl ⟨rfl, rfl⟩
  split
  · exact .inl ⟨rfl, rfl⟩
  split
  · unfold handedWithCopy
    rw [ha.agree.streams.table]
    split
    · obtain ⟨p, n, r, ret, heq, heq', hcopy⟩ := ha.copied env ch
      rw [heq, heq']
      dsimp only
      split
      · exact .inl ⟨rfl, rfl⟩
      · exact .inr ⟨_, _, ch, rfl, rfl, hcopy⟩
    · exact .inr ⟨h, h', ch, rfl, rfl, ha⟩
  · exact .inl ⟨rfl, rfl⟩

theorem Alike.handling (ha : Alike h h') (hmode : env.virtiosoOuterMode = .nvidiaTcu) (ch : Byte) :
    handling env h' ch = handling env h ch := by
  have hcopied : Host.copied env h' ch = Host.copied env h ch := by
    unfold Host.copied
    rw [hmode, ha.outerInEscape, ha.curOuterTag]
  unfold Host.handling receivedAnnouncement receivedRegistry
  rw [hcopied]
  rcases ha.handed hmode ch with ⟨hh, hh'⟩ | ⟨g, g', b, hh, hh', hg⟩
  · rw [hh, hh']
  · obtain ⟨ht, hann, hreg⟩ := hg.agree.targets b
    rw [hh, hh']
    simp only [Option.bind_some, ht, hann, hreg]

theorem Alike.sameHandling (ha : Alike h h') (hmode : env.virtiosoOuterMode = .nvidiaTcu) (bytes : Bytes) :
    SameHandling env h h' bytes := by
  induction bytes generalizing h h' with
  | nil => exact ⟨rfl, rfl, ha.outputs⟩
  | cons ch rest ih =>
    have hstep := ha.receive hmode ch
    have hhandling := ha.handling hmode ch
    by_cases hneg : (feedNvidiaOuterOrVirtiosoRaw env h ch).2 < 0
    · have hneg' : (feedNvidiaOuterOrVirtiosoRaw env h' ch).2 < 0 := by rw [hstep.ret]; exact hneg
      refine ⟨?_, ?_, ?_⟩
      · simp only [handlings, hhandling, if_pos hneg, if_pos hneg']
      · simp only [ttyInputHandler, if_pos hneg, if_pos hneg']
      · simp only [ttyInputHandler, if_pos hneg, if_pos hneg']
        exact hstep.outputs
    · have hneg' : ¬ (feedNvidiaOuterOrVirtiosoRaw env h' ch).2 < 0 := by rw [hstep.ret]; exact hneg
      have hrest := ih (hstep.alike (Int.not_lt.mp hneg)).tick
      refine ⟨?_, ?_, ?_⟩
      · simp only [handlings, hhandling, if_neg hneg, if_neg hneg', hrest.trace]
      · simp only [ttyInputHandler, if_neg hneg, if_neg hneg']
        exact hrest.stopped
      · simp only [ttyInputHandler, if_neg hneg, if_neg hneg']
        exact hrest.outputs

end Step

/-! ### Resets -/

/-- The parser as it starts. The line-ending flags belong to the PTYs and stay. -/
def Parser.restarted (p : Parser) : Parser := { Parser.start with seenN := p.seenN, seenR := p.seenR }

def State.restarted (h : State) : State := { h with parser := h.parser.restarted }

def afterReset (env : Env) (prior : Bytes) : State :=
  (ttyInputHandler env (start env) (prior ++ [uartProtoEscStart, uartProtoEscReset])).1

section Reset
variable {env : Env} (hmode : env.virtiosoOuterMode = .nvidiaTcu)
include hmode

theorem feed_outerEscape {h : State} (hout : h.parser.outerInEscape = false) :
    feedNvidiaOuterOrVirtiosoRaw env h uartProtoEscStart = (h.setOuterEscape true, 0) := by
  simp [feedNvidiaOuterOrVirtiosoRaw, hmode, hout, State.setOuterEscape]

theorem feed_outerReset {h : State} (hin : h.parser.outerInEscape = true) :
    feedNvidiaOuterOrVirtiosoRaw env h uartProtoEscReset =
      (((h.setEscape false).setStream none).setOuter .start, 0) := by
  have hne : uartProtoEscReset ≠ uartProtoEscEsc := by decide
  simp only [feedNvidiaOuterOrVirtiosoRaw, hmode, hin, if_true, if_neg hne]
  rfl

theorem feed_outerSelect {h : State} (hin : h.parser.outerInEscape = true) {ch : Byte} {k : Nat}
    (htag : chipTagIdx ch = some k) : feedNvidiaOuterOrVirtiosoRaw env h ch = (h.setOuter ⟨false, some k⟩, 0) := by
  have hesc : ch ≠ uartProtoEscEsc := by
    rintro rfl
    rw [show chipTagIdx uartProtoEscEsc = none by decide] at htag
    cases htag
  have hreset : ch ≠ uartProtoEscReset := by
    rintro rfl
    rw [show chipTagIdx uartProtoEscReset = none by decide] at htag
    cases htag
  have hfind : chipTags.findIdx? (fun tag => tag.value == ch) = some k := htag
  simp only [feedNvidiaOuterOrVirtiosoRaw, hmode, hin, if_true, if_neg hesc, if_neg hreset, hfind]
  rfl

theorem afterReset_eq {prior : Bytes} {h : State} (hrun : ttyInputHandler env (start env) prior = (h, true))
    (hout : h.parser.outerInEscape = false) :
    afterReset env prior = { ((h.setEscape false).setStream none).setOuter .start with clock := h.clock + 2 } := by
  rw [afterReset, handler_append _ hrun, handler_cons _ (feed_outerEscape hmode hout),
    handler_cons _ (feed_outerReset hmode rfl)]
  rfl

omit hmode in
/-- Outside of a record the reset leaves nothing that is read again. -/
theorem alike_restarted {h : State} (hs : h.Sound) (hidle : h.parser.controlState = .idle) :
    Alike (((h.setEscape false).setStream none).setOuter .start).restarted
      (((h.setEscape false).setStream none).setOuter .start) := by
  have hjson : h.parser.registryJson = none := by
    have := hs.record
    simpa only [Parser.RecordSound, hidle] using this
  have hsound := hs.noStream
  refine ⟨⟨⟨rfl, fun _ _ => rfl, rfl, rfl, rfl⟩, ⟨rfl, rfl, hidle, hjson, fun _ _ => rfl, fun _ _ => rfl, ?_, ?_⟩⟩, ?_, ?_, rfl, rfl, rfl, rfl, rfl, rfl⟩
  · intro hr
    exact absurd rfl ((hr.resolve_left id).1)
  · intro hr
    exact absurd (hr.resolve_left id) (by simp [State.restarted, Parser.restarted, Parser.start, ControlState.ReadsType])
  · exact ⟨hs.counts, hs.capacity, hs.slots, fun _ hi => absurd hi (by simp [State.restarted, Parser.restarted, Parser.start]),
      rfl, hs.autopilot⟩
  · exact ⟨hs.counts, hs.capacity, hs.slots, hsound.current, hs.record, hs.autopilot⟩

/-- The tag of the carrier and an unescaped `0xff`. -/
def probe (env : Env) : Bytes :=
  [uartProtoEscStart, ((chipTags[env.virtiosoOuterTagIdx]?).getD Tag.cleared).value, uartProtoEscStart, uartProtoEscEsc]

omit hmode in
theorem chipTagIdx_carrier (htag : env.virtiosoOuterTagIdx < chipTags.length) :
    chipTagIdx ((chipTags[env.virtiosoOuterTagIdx]?).getD Tag.cleared).value = some env.virtiosoOuterTagIdx := by
  have hall : ∀ k < chipTags.length, chipTagIdx ((chipTags[k]?).getD Tag.cleared).value = some k := by decide
  exact hall _ htag

omit hmode in
theorem handlings_cons {h h' : State} {ch : Byte} (rest : Bytes) (hf : feedNvidiaOuterOrVirtiosoRaw env h ch = (h', 0)) :
    handlings env h (ch :: rest) = handling env h ch :: handlings env h'.tick rest := by
  simp [handlings, hf, State.tick]

/-- The last byte of the probe is handed to the inner parser without a copy. -/
theorem handlings_probe (htag : env.virtiosoOuterTagIdx < chipTags.length) {h : State}
    (hout : h.parser.outerInEscape = false) :
    (handlings env h (probe env)).getLast? = some ⟨false, innerTarget h uartProtoEscStart,
      completedAnnouncement h uartProtoEscStart, completedRegistry h uartProtoEscStart⟩ := by
  let g : State := (((h.setOuterEscape true).tick.setOuter ⟨false, some env.virtiosoOuterTagIdx⟩).tick.setOuterEscape true).tick
  have hlast : handling env g uartProtoEscEsc = ⟨false, innerTarget h uartProtoEscStart,
      completedAnnouncement h uartProtoEscStart, completedRegistry h uartProtoEscStart⟩ := by
    have hhanded : handed env g uartProtoEscEsc = some (g.setOuterEscape false, uartProtoEscStart) := by
      have hin : g.parser.outerInEscape = true := rfl
      have hsel : g.parser.curOuterTag = some env.virtiosoOuterTagIdx := rfl
      simp [handed, hmode, hin, hsel]
    simp only [handling, receivedAnnouncement, receivedRegistry, hhanded, Option.bind_some, copied, hmode]
    rfl
  rw [probe, handlings_cons _ (feed_outerEscape hmode hout),
    handlings_cons _ (feed_outerSelect hmode rfl (chipTagIdx_carrier htag)), handlings_cons _ (feed_outerEscape hmode rfl)]
  have hsingle : handlings env g [uartProtoEscEsc] = [handling env g uartProtoEscEsc] := by
    simp [handlings]
  rw [show handlings env _ [uartProtoEscEsc] = [handling env g uartProtoEscEsc] from hsingle, hlast]
  rfl

/-- After a reset every suffix is handled as after a start exactly if the reset did not fall into a
control record. -/
theorem reset_restarts (htag : env.virtiosoOuterTagIdx < chipTags.length) {prior : Bytes} {h : State}
    (hrun : ttyInputHandler env (start env) prior = (h, true)) (hout : h.parser.outerInEscape = false) :
    (∀ bytes, SameHandling env (afterReset env prior).restarted (afterReset env prior) bytes) ↔
      h.parser.controlState = .idle := by
  have hs := reached_sound hrun
  rw [afterReset_eq hmode hrun hout]
  refine ⟨?_, ?_⟩
  · intro hall
    by_contra hcontrol
    let r : State := { ((h.setEscape false).setStream none).setOuter .start with clock := h.clock + 2 }
    have htrace : handlings env r (probe env) = handlings env r.restarted (probe env) := (hall (probe env)).trace
    have hopen := handlings_probe hmode htag (h := r) rfl
    have hrestarted := handlings_probe hmode htag (h := r.restarted) rfl
    rw [htrace, hrestarted] at hopen
    -- the open record takes the byte that a fresh parser writes to the default slot
    have htarget : innerTarget r uartProtoEscStart = none := by
      unfold innerTarget
      split
      · rename_i hc
        exact absurd hc hcontrol
      · rfl
    have hdefault : innerTarget r.restarted uartProtoEscStart = some virtiosoDefaultPtyIdx := by
      have hmax : virtiosoDefaultPtyIdx < h.table.ptyMaxCount := by
        have := hs.counts
        have := hs.slots.builtin
        simp only [virtiosoDefaultPtyIdx]
        omega
      exact if_pos hmax
    rw [htarget, hdefault] at hopen
    simp at hopen
  · intro hidle bytes
    have ha := alike_restarted hs hidle
    have hclock : Alike { (((h.setEscape false).setStream none).setOuter .start).restarted with clock := h.clock + 2 }
        { ((h.setEscape false).setStream none).setOuter .start with clock := h.clock + 2 } :=
      ⟨ha.agree.moments _ _, ha.sound.moment _, ha.sound'.moment _, ha.copies, ha.seenN, ha.seenR, ha.outerInEscape,
        ha.curOuterTag, rfl⟩
    exact hclock.sameHandling hmode bytes

end Reset

/-- A reset behind a complete frame. -/
theorem reset_restarts_frame :
    SameHandling quietCarrierEnv (afterReset quietCarrierEnv [0xff, 0xe1, 0xfe, 0x07, 0x41, 0xfe, 0x00]).restarted
      (afterReset quietCarrierEnv [0xff, 0xe1, 0xfe, 0x07, 0x41, 0xfe, 0x00]) [0xff, 0xe1, 0x41] :=
  (reset_restarts (h := (ttyInputHandler quietCarrierEnv (start quietCarrierEnv)
    [0xff, 0xe1, 0xfe, 0x07, 0x41, 0xfe, 0x00]).1) rfl (by decide) rfl rfl).mpr rfl [0xff, 0xe1, 0x41]

/-- A reset behind the first two bytes of a control record: the next byte of the carrier is taken as
the command of that record. -/
theorem reset_inside_record :
    ¬ ∀ bytes, SameHandling quietCarrierEnv (afterReset quietCarrierEnv [0xff, 0xe1, 0xfe, 0xfd]).restarted
      (afterReset quietCarrierEnv [0xff, 0xe1, 0xfe, 0xfd]) bytes := by
  intro hall
  exact absurd (hall [0xff, 0xe1, 0x41]).trace (by decide)

end VirtiosoMux.Host
