import VirtiosoMux.Library.Demux
import VirtiosoMux.Host.Invariant
import VirtiosoMux.Protocol.Wire

/-! # The inner parser as a demultiplexer

Between two control records `feed_virtioso_byte` is the general receiver of a stuffed line as
far as the registered streams are concerned; bytes outside a frame go to the default slot and
to no stream. An escape pair with the control byte leaves this part of the parser.
-/
namespace VirtiosoMux.Host
open Demux

def feedVirtiosoBytes (env : Env) : State → Bytes → State × Bool
  | h, [] => (h, true)
  | h, ch :: rest =>
    let (h, ret) := feedVirtiosoByte env h ch
    if ret < 0 then (h, false) else feedVirtiosoBytes env { h with clock := h.clock + 1 } rest

def Table.streamAt (t : Table) (i : Nat) : Int := (t.tags i).value.toNat

def State.cursor (h : State) : Cursor Int := ⟨h.parser.curRxStream.map h.table.streamAt, h.parser.inEscape⟩

/-- The stream that the second byte of an escape pair selects. -/
def Table.selected (t : Table) (b : Byte) : Option Int :=
  if b ≠ vcmuxProtoEscControl ∧ (findVirtiosoPtyIdxByStreamId t b).isSome then some b.toNat else none

def slotBytes (t : Table) (i : Nat) (out : List (Int × Byte)) : Bytes := received (fun streamId => streamId = t.streamAt i) out

/-- No escape pair of the line carries the control byte. The flag tells whether an escape is
pending before the line. -/
def NoControlPair : Bool → Bytes → Prop
  | _, [] => True
  | true, ch :: rest => ch ≠ vcmuxProtoEscControl ∧ NoControlPair false rest
  | false, ch :: rest => NoControlPair (decide (ch = vcmuxProtoEscStart)) rest

instance NoControlPair.decidable : (escape : Bool) → (bytes : Bytes) → Decidable (NoControlPair escape bytes)
  | true, [] => inferInstanceAs (Decidable True)
  | false, [] => inferInstanceAs (Decidable True)
  | true, _ :: rest =>
    have := NoControlPair.decidable false rest
    inferInstanceAs (Decidable (_ ∧ _))
  | false, ch :: rest => NoControlPair.decidable (decide (ch = vcmuxProtoEscStart)) rest

/-- The parser is between control records and every slot is logged. -/
structure State.Receiving (h : State) : Prop where
  sound : h.Sound
  logging : h.Logging
  control : h.parser.controlState = .idle

/-- What a byte or a line does to a receiving demuxer: the table stays, the cursor is `c`, and the
streams' logs have grown by the output. -/
structure Receives (h h' : State) (c : Cursor Int) (out : List (Int × Byte)) : Prop where
  receiving : h'.Receiving
  table : h'.table = h.table
  cursor : h'.cursor = c
  log : ∀ i, 3 ≤ i → i < h.table.numProc → h'.log i = h.log i ++ slotBytes h.table i out

theorem Receives.refl {h : State} (hr : h.Receiving) : Receives h h h.cursor [] :=
  ⟨hr, rfl, rfl, fun _ _ _ => (List.append_nil _).symm⟩

theorem Receives.trans {h₁ h₂ h₃ : State} {c₂ c₃ : Cursor Int} {out out' : List (Int × Byte)}
    (h : Receives h₁ h₂ c₂ out) (h' : Receives h₂ h₃ c₃ out') : Receives h₁ h₃ c₃ (out ++ out') := by
  refine ⟨h'.receiving, h'.table.trans h.table, h'.cursor, ?_⟩
  intro i h3 hi
  rw [h'.log i h3 (by rw [h.table]; exact hi), h.log i h3 hi, h.table, List.append_assoc]
  exact congrArg _ (received_append _ _ _).symm

theorem Receives.tick {h h' : State} {c : Cursor Int} {out : List (Int × Byte)} (hx : Receives h h' c out) :
    Receives h { h' with clock := h'.clock + 1 } c out :=
  ⟨⟨hx.receiving.sound.tick, ⟨hx.receiving.logging.counts, hx.receiving.logging.builtin, hx.receiving.logging.logFd⟩,
    hx.receiving.control⟩, hx.table, hx.cursor, hx.log⟩

section Byte
variable {env : Env} {h : State} (hr : h.Receiving)
include hr

/-- A byte that only moves the cursor. -/
theorem Receives.moves {h' : State} {ch : Byte} (hf : feedVirtiosoByte env h ch = (h', 0))
    (hc : h'.parser.controlState = .idle) (ht : h'.table = h.table) (hp : h'.ptyData = h.ptyData) :
    Receives h h' h'.cursor [] := by
  have hs : (feedVirtiosoByte env h ch).1.Sound := hr.sound.feed (.inl (by rw [hf]))
  rw [hf] at hs
  refine ⟨⟨hs, ⟨?_, ?_, ?_⟩, hc⟩, ht, rfl, ?_⟩
  · rw [ht]
    exact hr.logging.counts
  · rw [ht]
    exact hr.logging.builtin
  · intro i hi
    rw [hp]
    exact hr.logging.logFd i (by rwa [ht] at hi)
  · intro i _ _
    simp [State.log, hp, slotBytes]

/-- A byte that is delivered to slot `j`. -/
theorem Receives.delivers {h₀ : State} {ch : Byte} {j : Nat} (hf : feedVirtiosoByte env h ch = (h₀.deliver env j ch, 0))
    (hc : h₀.parser.controlState = .idle) (ht : h₀.table = h.table) (hp : h₀.ptyData = h.ptyData)
    {out : List (Int × Byte)}
    (hout : ∀ i, 3 ≤ i → i < h.table.numProc → slotBytes h.table i out = if i = j then [ch] else []) :
    Receives h (h₀.deliver env j ch) h₀.cursor out := by
  have hs : (feedVirtiosoByte env h ch).1.Sound := hr.sound.feed (.inl (by rw [hf]))
  rw [hf] at hs
  refine ⟨⟨hs, ⟨?_, ?_, ?_⟩, hc⟩, ht, rfl, ?_⟩
  · rw [deliver_table, ht]
    exact hr.logging.counts
  · rw [deliver_table, ht]
    exact hr.logging.builtin
  · intro i hi
    rw [deliver_logFd, hp]
    exact hr.logging.logFd i (by rwa [deliver_table, ht] at hi)
  · intro i h3 hi
    have hlog : h₀.log i = h.log i := by simp only [State.log, hp]
    rw [deliver_log, hlog, hout i h3 hi]

/-- Two slots behind the built-in ones carry different identifiers. -/
theorem State.Receiving.streamAt_inj {i j : Nat} (h3i : 3 ≤ i) (hi : i < h.table.numProc) (h3j : 3 ≤ j)
    (hj : j < h.table.numProc) : h.table.streamAt j = h.table.streamAt i ↔ i = j := by
  constructor
  · intro heq
    have hvalue : (h.table.tags j).value.toNat = (h.table.tags i).value.toNat := by
      unfold Table.streamAt at heq
      exact_mod_cast heq
    exact (hr.sound.slots.distinct j i h3j hj h3i hi (UInt8.toNat_inj.mp hvalue)).symm
  · rintro rfl
    rfl

/-- Payload of the selected stream stands in its log only. -/
theorem State.Receiving.slotBytes_current {j : Nat} (hcur : h.parser.curRxStream = some j) (ch : Byte) (i : Nat)
    (h3 : 3 ≤ i) (hi : i < h.table.numProc) :
    slotBytes h.table i [(h.table.streamAt j, ch)] = if i = j then [ch] else [] := by
  obtain ⟨h3j, hj⟩ := hr.sound.current j hcur
  by_cases hij : h.table.streamAt j = h.table.streamAt i
  · simp [slotBytes, received, hij, (hr.streamAt_inj h3 hi h3j hj).mp hij]
  · have hne : i ≠ j := fun heq => hij ((hr.streamAt_inj h3 hi h3j hj).mpr heq)
    simp [slotBytes, received, hij, hne]

/-- Outside an escape: a byte of the selected stream, a byte outside frames, or an escape. -/
theorem feed_refines_plain (he : env.Healthy) {ch : Byte} (hx : h.parser.inEscape = false) :
    ∃ h', feedVirtiosoByte env h ch = (h', 0) ∧
      Receives h h' (next vcmuxProtoEscStart vcmuxProtoEscDefault h.table.selected h.cursor ch)
        (emit vcmuxProtoEscStart vcmuxProtoEscDefault h.cursor ch).toList := by
  have hesc : h.cursor.escape = h.parser.inEscape := rfl
  by_cases hch : ch = vcmuxProtoEscStart
  · subst hch
    have hf : feedVirtiosoByte env h vcmuxProtoEscStart = _ := feed_escape hr.control hx
    refine ⟨_, hf, ?_⟩
    have hmove : Receives h (h.setEscape true) ⟨h.cursor.current, true⟩ [] := Receives.moves hr hf hr.control rfl rfl
    simpa [next, emit, hesc, hx] using hmove
  · cases hcur : h.parser.curRxStream with
    | none =>
      have hf := feed_unframed he hr.control hr.logging hx hcur hch
      refine ⟨_, hf, ?_⟩
      have hmove : Receives h (h.deliver env virtiosoDefaultPtyIdx ch) h.cursor [] :=
        Receives.delivers hr hf hr.control rfl rfl (fun i h3 _ => by
        have hne : i ≠ virtiosoDefaultPtyIdx := by simp only [virtiosoDefaultPtyIdx]; omega
        simp [slotBytes, hne])
      simpa [next, emit, hesc, hx, hch, State.cursor, hcur] using hmove
    | some j =>
      have hf := feed_framed he hr.control hr.logging hx hcur (hr.sound.current j hcur).2 hch
      refine ⟨_, hf, ?_⟩
      have hmove := Receives.delivers hr hf hr.control rfl rfl (hr.slotBytes_current hcur ch)
      simpa [next, emit, hesc, hx, hch, State.cursor, hcur] using hmove

omit hr in
/-- The slot that the identifier selects carries its stream. -/
theorem find_selected {ch : Byte} (hcontrol : ch ≠ vcmuxProtoEscControl) :
    (findVirtiosoPtyIdxByStreamId h.table ch).map h.table.streamAt = h.table.selected ch := by
  cases hfind : findVirtiosoPtyIdxByStreamId h.table ch with
  | none => simp [Table.selected, hfind]
  | some j => simp [Table.selected, hfind, hcontrol, Table.streamAt, (find_value hfind).2]

/-- Behind an escape: the end of a frame, a literal escape, or an identifier. -/
theorem feed_refines_escape (he : env.Healthy) {ch : Byte} (hx : h.parser.inEscape = true)
    (hcontrol : ch ≠ vcmuxProtoEscControl) :
    ∃ h', feedVirtiosoByte env h ch = (h', 0) ∧
      Receives h h' (next vcmuxProtoEscStart vcmuxProtoEscDefault h.table.selected h.cursor ch)
        (emit vcmuxProtoEscStart vcmuxProtoEscDefault h.cursor ch).toList := by
  have hesc : h.cursor.escape = h.parser.inEscape := rfl
  by_cases hclose : ch = vcmuxProtoEscDefault
  · subst hclose
    have hf : feedVirtiosoByte env h vcmuxProtoEscDefault = _ := feed_close hr.control hx
    refine ⟨_, hf, ?_⟩
    have hmove := Receives.moves hr hf hr.control rfl rfl
    simpa [next, emit, hesc, hx, State.cursor, Cursor.idle] using hmove
  by_cases hch : ch = vcmuxProtoEscStart
  · subst hch
    cases hcur : h.parser.curRxStream with
    | none =>
      have hf : feedVirtiosoByte env h vcmuxProtoEscStart = (h.setEscape false, 0) := by
        simp [feedVirtiosoByte, hr.control, hx, hcur, hclose]
      refine ⟨_, hf, ?_⟩
      have hmove : Receives h (h.setEscape false) ⟨h.cursor.current, false⟩ [] :=
        Receives.moves hr hf hr.control rfl rfl
      simpa [next, emit, hesc, hx, hclose, State.cursor, hcur] using hmove
    | some j =>
      have hf : feedVirtiosoByte env h vcmuxProtoEscStart = _ :=
        feed_literal he hr.control hr.logging hx hcur (hr.sound.current j hcur).2
      refine ⟨_, hf, ?_⟩
      have hmove := Receives.delivers hr hf hr.control rfl rfl (hr.slotBytes_current hcur vcmuxProtoEscStart)
      simpa [next, emit, hesc, hx, hclose, State.cursor, hcur] using hmove
  · have hid : ¬ Reserved ch := not_reserved_iff.mpr ⟨hclose, hcontrol, hch⟩
    have hf : feedVirtiosoByte env h ch = _ := feed_select hr.control hx hid
    refine ⟨_, hf, ?_⟩
    have hmove := Receives.moves hr hf hr.control rfl rfl
    simpa [next, emit, hesc, hx, hclose, hch, State.cursor, find_selected hcontrol] using hmove

/-- One byte moves the cursor as the general receiver does, and the logs grow by what that
hands on. -/
theorem feed_refines (he : env.Healthy) {ch : Byte} (hp : h.parser.inEscape = true → ch ≠ vcmuxProtoEscControl) :
    ∃ h', feedVirtiosoByte env h ch = (h', 0) ∧
      Receives h h' (next vcmuxProtoEscStart vcmuxProtoEscDefault h.table.selected h.cursor ch)
        (emit vcmuxProtoEscStart vcmuxProtoEscDefault h.cursor ch).toList := by
  cases hx : h.parser.inEscape with
  | false => exact feed_refines_plain hr he hx
  | true => exact feed_refines_escape hr he hx (hp hx)

end Byte

/-! ### Lines -/

theorem noControlPair_next (select : Byte → Option Int) (c : Cursor Int) {ch : Byte} {rest : Bytes}
    (hn : NoControlPair c.escape (ch :: rest)) :
    (c.escape = true → ch ≠ vcmuxProtoEscControl) ∧
      NoControlPair (next vcmuxProtoEscStart vcmuxProtoEscDefault select c ch).escape rest := by
  cases hx : c.escape with
  | true =>
    rw [hx] at hn
    refine ⟨fun _ => hn.1, ?_⟩
    have hnext : (next vcmuxProtoEscStart vcmuxProtoEscDefault select c ch).escape = false := by
      simp only [next, hx, if_true]
      split
      · rfl
      · split <;> rfl
    rw [hnext]
    exact hn.2
  | false =>
    rw [hx] at hn
    refine ⟨by simp, ?_⟩
    have hnext : (next vcmuxProtoEscStart vcmuxProtoEscDefault select c ch).escape = decide (ch = vcmuxProtoEscStart) := by
      by_cases hch : ch = vcmuxProtoEscStart
      · simp [next, hx, hch]
      · simp [next, hx, hch]
    rw [hnext]
    exact hn

/-- A line without control pairs is taken to its end, from any cursor. -/
theorem line_refines {env : Env} (he : env.Healthy) {h : State} (hr : h.Receiving) {bytes : Bytes}
    (hn : NoControlPair h.parser.inEscape bytes) :
    ∃ h', feedVirtiosoBytes env h bytes = (h', true) ∧
      Receives h h' (after vcmuxProtoEscStart vcmuxProtoEscDefault h.table.selected h.cursor bytes)
        (output vcmuxProtoEscStart vcmuxProtoEscDefault h.table.selected h.cursor bytes) := by
  induction bytes generalizing h with
  | nil => exact ⟨h, rfl, .refl hr⟩
  | cons ch rest ih =>
    obtain ⟨hch, hrest⟩ := noControlPair_next h.table.selected h.cursor hn
    obtain ⟨h₁, hf, hstep⟩ := feed_refines hr he hch
    have htick := hstep.tick
    generalize hnext : ({ h₁ with clock := h₁.clock + 1 } : State) = h₂ at htick
    rw [← htick.cursor] at hrest
    obtain ⟨h₃, hrun, hline⟩ := ih htick.receiving hrest
    refine ⟨h₃, ?_, ?_⟩
    · simp only [feedVirtiosoBytes, hf, hnext]
      exact hrun
    · rw [htick.table, htick.cursor] at hline
      exact htick.trans hline

theorem noControlPair_stuff (p rest : Bytes) :
    NoControlPair false (ByteStuffing.stuff vcmuxProtoEscStart p ++ rest) ↔ NoControlPair false rest := by
  induction p with
  | nil => exact Iff.rfl
  | cons b p ih =>
    by_cases hb : b = vcmuxProtoEscStart
    · subst hb
      have hne : vcmuxProtoEscStart ≠ vcmuxProtoEscControl := by decide
      simpa [NoControlPair, hne] using ih
    · simpa [NoControlPair, hb] using ih

/-- Frames carry no control pair, also if an escape is pending before them. -/
theorem noControlPair_frames (escape : Bool) {frames : List (Byte × Bytes)} (hids : ∀ f ∈ frames, ¬ Reserved f.1) :
    NoControlPair escape (frames.flatMap (fun f => frameBytes f.1 f.2)) := by
  induction frames generalizing escape with
  | nil => cases escape <;> trivial
  | cons f frames ih =>
    obtain ⟨-, hcontrol, hesc⟩ := not_reserved_iff.mp (hids f List.mem_cons_self)
    have hrest := ih false (fun g hg => hids g (List.mem_cons_of_mem f hg))
    have hbody : NoControlPair false (ByteStuffing.stuff vcmuxProtoEscStart f.2 ++
        ([vcmuxProtoEscStart, vcmuxProtoEscDefault] ++ frames.flatMap (fun f => frameBytes f.1 f.2))) :=
      (noControlPair_stuff _ _).mpr ⟨by decide, hrest⟩
    have hsplit : (f :: frames).flatMap (fun f => frameBytes f.1 f.2) = vcmuxProtoEscStart :: f.1 ::
        (ByteStuffing.stuff vcmuxProtoEscStart f.2 ++
          ([vcmuxProtoEscStart, vcmuxProtoEscDefault] ++ frames.flatMap (fun f => frameBytes f.1 f.2))) := by
      simp [frameBytes]
    rw [hsplit]
    cases escape with
    | true =>
      refine ⟨by decide, ?_⟩
      rw [NoControlPair, decide_eq_false hesc]
      exact hbody
    | false => exact ⟨hcontrol, hbody⟩

/-! ### Reached states

When no call fails, every slot in use has its log, so the states between two control records
are receiving ones.
-/

section Reached
variable {env : Env} (he : env.Healthy)
include he

theorem createRegistryPtys_logs (remaining i : Nat) {h h' : State} (hok : createRegistryPtys env remaining i h = (h', true)) :
    ∀ j, i ≤ j → j < i + remaining → (h'.ptyData j).logFd = true := by
  induction remaining generalizing i h with
  | zero =>
    intro j hij hj
    omega
  | succ remaining ih =>
    intro j hij hj
    by_cases hcap : i < ptyCapacity
    · obtain ⟨device, out, hcreate⟩ := createPtyAtIndex_healthy he h hcap (((h.table.tags i).name).getD [])
        (h.table.inputEnabled i)
      simp only [createRegistryPtys, hcreate, if_true] at hok
      by_cases hji : j = i
      · obtain ⟨pd, out', m, ok, heq, hpd, -, -⟩ := createRegistryPtys_slots env remaining (i + 1)
          { h with
            ptyData := Function.update h.ptyData i ⟨true, device, 0, [], []⟩
            stdout := out
            table := { h.table with ptyMaxCount := i + 1 } }
        rw [heq] at hok
        cases hok
        change (pd j).logFd = true
        rw [hpd j (by omega), hji]
        simp
      · exact ih (i + 1) hok j (by omega) (by omega)
    · have hfail : createPtyAtIndex env h i (((h.table.tags i).name).getD []) (h.table.inputEnabled i) = (h, false) := by
        simp [createPtyAtIndex, Nat.not_lt.mp hcap]
      simp [createRegistryPtys, hfail] at hok

theorem applyVirtiosoRegistryJson_logs {g g' : State} {json : Bytes} (hok : applyVirtiosoRegistryJson env g json = (g', true)) :
    ∀ j, g.table.numProc ≤ j → j < g'.table.numProc → (g'.ptyData j).logFd = true := by
  unfold applyVirtiosoRegistryJson at hok
  dsimp only at hok
  split at hok
  · cases hok
  · rename_i streamsStart streamsEnd _
    generalize registryLoop (env.now g).xstrndup streamsEnd streamsStart.tail
      ⟨g.table.tags, g.table.inputEnabled, g.table.numProc⟩ = res at hok
    obtain ⟨s, ok⟩ := res
    dsimp only at hok
    split at hok
    · cases hok
    · obtain ⟨pd, out, m, created, heq, -, -, -⟩ := createRegistryPtys_slots env (s.count - g.table.numProc)
        g.table.numProc { g with table := { g.table with
          tags := s.tags, inputEnabled := s.inputEnabled, numProc := s.count, defaultTagIdx := 0 } }
      have hlogs := @createRegistryPtys_logs env he (s.count - g.table.numProc) g.table.numProc
        { g with table := { g.table with
          tags := s.tags, inputEnabled := s.inputEnabled, numProc := s.count, defaultTagIdx := 0 } }
      rw [heq] at hok hlogs
      cases created with
      | false => cases hok
      | true =>
        cases hok
        intro j hge hlt
        exact hlogs rfl j hge (by simp only at hlt; omega)

theorem applyVirtiosoStreamConnected_logs {h : State} (hl : ∀ i < h.table.numProc, (h.ptyData i).logFd = true)
    (streamId : Byte) (name : Bytes) :
    ∀ i < (applyVirtiosoStreamConnected env h streamId name).table.numProc,
      ((applyVirtiosoStreamConnected env h streamId name).ptyData i).logFd = true := by
  intro i hi
  rcases applyVirtiosoStreamConnected_opens he h streamId name with ⟨hsame, -⟩ | ⟨device, out, heq, hcount, -⟩
  · rw [hsame] at hi ⊢
    exact hl i hi
  · rw [heq] at hi ⊢
    by_cases hn : i = h.table.numProc
    · subst hn
      simp
    · simp only [Function.update_of_ne hn]
      exact hl i (by simp only [hcount] at hi; omega)

theorem feedVirtiosoByte_logs {h : State} (hs : h.Sound) (hl : ∀ i < h.table.numProc, (h.ptyData i).logFd = true)
    {ch : Byte} (hok : 0 ≤ (feedVirtiosoByte env h ch).2) :
    ∀ i < (feedVirtiosoByte env h ch).1.table.numProc, ((feedVirtiosoByte env h ch).1.ptyData i).logFd = true := by
  rcases feedVirtiosoByte_cases env h ch with ⟨p, acks, heq, -⟩ | ⟨j, hj, heq⟩ | ⟨sid, name, -, heq⟩ | ⟨json, -, heq⟩
  · rw [heq]
    exact hl
  · have hlogging : (h.setEscape false).Logging := ⟨hs.counts, hs.slots.builtin, hl⟩
    have hlt : j < h.table.numProc := by
      have hb := hs.slots.builtin
      rcases (innerTarget_cases hj).2 with hcur | ⟨-, rfl⟩
      · exact (hs.current j hcur).2
      · simp only [virtiosoDefaultPtyIdx]
        omega
    rw [heq, patch2flushStream_healthy he hlogging hlt]
    intro i hi
    rw [deliver_logFd]
    exact hl i hi
  · rw [heq]
    exact applyVirtiosoStreamConnected_logs he (h := storePayload h ch) hl sid name
  · rw [heq] at hok ⊢
    rcases applyVirtiosoRegistryJson_cases env (withRegistry h ch json) json with
      ⟨entries, pd, out, -, -, happly, hpd, -⟩ | ⟨t, pd, out, happly, -⟩
    · rw [happly]
      intro i hi
      by_cases hn : h.table.numProc ≤ i
      · exact applyVirtiosoRegistryJson_logs he happly i hn hi
      · change (pd i).logFd = true
        rw [hpd i (Nat.lt_of_not_le hn)]
        exact hl i (by omega)
    · rw [happly] at hok
      exact absurd hok (by simp)

/-- The copy to `raw_ccplex` closes no log. -/
theorem handed_logs {h g : State} {ch b : Byte} (hs : h.Sound) (hl : ∀ i < h.table.numProc, (h.ptyData i).logFd = true)
    (hh : handed env h ch = some (g, b)) : ∀ i < g.table.numProc, (g.ptyData i).logFd = true := by
  rcases handed_origin hh with rfl | rfl | ⟨-, rfl⟩
  · exact hl
  · exact hl
  · have hb := hs.slots.builtin
    have hwrite := patch2flushStream_healthy he (h := h) ⟨hs.counts, hs.slots.builtin, hl⟩
      (i := rawCcplexPtyIdx) (by simp only [rawCcplexPtyIdx]; omega) ch
    rw [hwrite]
    intro i hi
    rw [deliver_logFd]
    exact hl i hi

theorem receive_logs {h : State} (hs : h.Sound) (hl : ∀ i < h.table.numProc, (h.ptyData i).logFd = true) {ch : Byte}
    (hok : 0 ≤ (feedNvidiaOuterOrVirtiosoRaw env h ch).2) :
    ∀ i < (feedNvidiaOuterOrVirtiosoRaw env h ch).1.table.numProc,
      ((feedNvidiaOuterOrVirtiosoRaw env h ch).1.ptyData i).logFd = true := by
  cases hh : handed env h ch with
  | none =>
    rcases feed_unhanded hh with ⟨p, n, r, heq⟩ | ⟨e, tag, cur, esc, heq, -⟩
    · rw [heq] at hok
      exact absurd hok (by simp)
    · rw [heq]
      exact hl
  | some res =>
    obtain ⟨g, b⟩ := res
    rw [feed_handed hh] at hok ⊢
    exact feedVirtiosoByte_logs he (hs.handedState hh) (handed_logs he hs hl hh) hok

theorem reached_receiving {h : State} {bytes : Bytes} (hrun : ttyInputHandler env (start env) bytes = (h, true))
    (hc : h.parser.controlState = .idle) : h.Receiving := by
  have hinv : h.Sound ∧ ∀ i < h.table.numProc, (h.ptyData i).logFd = true := by
    refine running_invariant (I := fun h => h.Sound ∧ ∀ i < h.table.numProc, (h.ptyData i).logFd = true) ?_ ?_ ?_ hrun
    · rintro h ⟨hs, hl⟩
      exact ⟨hs.tick, hl⟩
    · rintro h ch ⟨hs, hl⟩ hret
      exact ⟨hs.receive (.inl hret), receive_logs he hs hl hret⟩
    · exact ⟨start_sound env, (start_healthy he).2.2.1.logFd⟩
  exact ⟨hinv.1, ⟨hinv.1.counts, hinv.1.slots.builtin, hinv.2⟩, hc⟩

end Reached

end VirtiosoMux.Host
