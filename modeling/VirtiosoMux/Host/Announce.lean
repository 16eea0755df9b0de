import VirtiosoMux.Host.Records
import VirtiosoMux.Host.StreamTable

/-! # Whole control records

The last byte of a record applies it. An announcement of `virtioso-muxd` edits the
stream table and nothing else, whatever bytes its name contains; a registry is applied
once and its verdict decides whether the thread goes on.
-/
namespace VirtiosoMux.Host

def announce (t : Table) (kind id : Byte) (name : Bytes) : Table :=
  if kind = vcmuxProtoControlStreamConnected then t.connect id name else t

theorem acks_zero (a : UInt32) : a = a + UInt32.ofNat 0 := by simp

/-- The record is read up to its last byte, and `g` is the state in which that byte is stored. -/
structure LastByte (env : Env) (h h₂ g : State) (kind : Byte) (c : ControlState) (payload : Bytes) (last : Byte) : Prop where
  control : (h₂.deliver env rawCcplexPtyIdx last).parser.controlState = c
  stored : g = storePayload (h₂.deliver env rawCcplexPtyIdx last) last
  filled : Filling g c payload.length payload
  ready : g.Ready
  same : SameCursor h g
  pending : c = .announcePayload → g.parser.pendingCtrlType = kind

theorem LastByte.complete {h h₂ g : State} (hg : LastByte env h h₂ g kind c payload last) :
    g.parser.registryLen ≤ g.parser.registryPos := by
  rw [hg.filled.length, hg.filled.pos]

theorem LastByte.announced {h h₂ g : State} (hg : LastByte env h h₂ g kind .announcePayload payload last) :
    feedVirtiosoByte env (h₂.deliver env rawCcplexPtyIdx last) last = (finishAnnounce env g, 0) := by
  have hdone := hg.complete
  rw [hg.stored] at hdone
  simp only [feedVirtiosoByte, hg.control, hg.stored]
  exact if_pos hdone

theorem LastByte.registered {h h₂ g : State} (hg : LastByte env h h₂ g kind .registryJson payload last) :
    feedVirtiosoByte env (h₂.deliver env rawCcplexPtyIdx last) last = finishRegistry env g := by
  have hdone := hg.complete
  rw [hg.stored] at hdone
  simp only [feedVirtiosoByte, hg.control, hg.stored]
  exact if_pos hdone

variable {env : Env} (he : env.Healthy) (hraw : env.virtiosoOuterMode = .raw)
include he hraw

/-- A record up to its last byte. -/
theorem consumes_lastByte {h : State} {cur : Option Nat} (hr : h.Ready) (ha : AtRest h cur) {kind : Byte} {c : ControlState}
    (hk : kind = vcmuxProtoControlStreamRegistry ∧ c = .registryJson ∨
      (kind = vcmuxProtoControlStreamConnected ∨ kind = vcmuxProtoControlStreamDisconnected) ∧ c = .announcePayload)
    {payload : Bytes} (hne : payload ≠ []) (hlen : payload.length < 65536) :
    ∃ h₂ g front last, recordBytes kind payload = front ++ [last] ∧ Consumes env h front h₂ (fun _ => []) 0 ∧
      LastByte env h h₂ g kind c payload last := by
  obtain ⟨front, last, hsplit⟩ : ∃ front last, payload = front ++ [last] := by
    rcases List.eq_nil_or_concat' payload with h | ⟨f, l, h⟩
    · exact absurd h hne
    · exact ⟨f, l, h⟩
  have hfront : front.length + 1 = payload.length := by
    have := congrArg List.length hsplit
    simpa using this.symm
  obtain ⟨h₁, c₁, f₁, k₁, p₁⟩ := consumes_header he hraw hr ha (List.length_pos_of_ne_nil hne) hlen hk
  have hcontrol : c = .registryJson ∨ c = .announcePayload := hk.imp And.right And.right
  obtain ⟨h₂, c₂, f₂, k₂, p₂⟩ := consumes_filling he hraw c₁.ready hcontrol front f₁
    (by simp only [List.length_nil]; omega)
  rw [List.nil_append] at f₂
  have hsame := k₁.trans k₂
  have hfilled := store_filling (h := h₂.deliver env rawCcplexPtyIdx last) ⟨f₂.control, f₂.length, f₂.pos, f₂.buf⟩
    (by omega) last
  rw [← hsplit] at hfilled
  have hready : (h₂.deliver env rawCcplexPtyIdx last).Ready := by
    refine c₂.ready.deliver env (i := rawCcplexPtyIdx) ?_ last
    have := c₂.ready.builtin
    simp only [rawCcplexPtyIdx]
    omega
  refine ⟨h₂, _, _, last, ?_, c₁.trans c₂, ⟨f₂.control, rfl, hfilled, hready.of_eq rfl rfl,
    ⟨hsame.escape, hsame.current, hsame.table, hsame.registry⟩, fun hc => p₂.trans (p₁ hc)⟩⟩
  simp only [recordBytes, hsplit, List.append_assoc]

/-- The last byte, after which the record is applied. -/
theorem LastByte.consumes {h h₂ g h' : State} {front : Bytes} (hbytes : recordBytes kind payload = front ++ [last])
    (hfront : Consumes env h front h₂ (fun _ => []) 0) (hg : LastByte env h h₂ g kind c payload last)
    (hfeed : feedVirtiosoByte env (h₂.deliver env rawCcplexPtyIdx last) last = (h', 0)) (hr' : h'.Ready)
    (hlog : ∀ i, h'.log i = g.log i) (hacks : h'.downlinkAckCount = g.downlinkAckCount) :
    Consumes env h (recordBytes kind payload) h'.tick (fun _ => []) 0 := by
  rw [hg.stored] at hlog hacks
  have hlast := consumes_step he hraw hfront.ready hfeed hr' hlog (n := 0) (hacks.trans (acks_zero _))
  rw [hbytes]
  exact hfront.trans hlast

theorem consumes_announce {h : State} {cur : Option Nat} (hr : h.Ready) (ha : AtRest h cur) {kind : Byte}
    (hk : kind = vcmuxProtoControlStreamConnected ∨ kind = vcmuxProtoControlStreamDisconnected)
    (id : Byte) (name : Bytes) (hlen : name.length + 1 < 65536) :
    ∃ h', Consumes env h (recordBytes kind (id :: name)) h' (fun _ => []) 0 ∧ AtRest h' cur ∧
      h'.table = announce h.table kind id name ∧ h'.virtiosoRegistryJson = h.virtiosoRegistryJson := by
  have hne : id :: name ≠ [] := List.cons_ne_nil id name
  obtain ⟨h₂, g, front, last, hbytes, hfront, hg⟩ := consumes_lastByte he hraw hr ha (.inr ⟨hk, rfl⟩) hne hlen
  have hfeed := hg.announced
  have hpend := hg.pending rfl
  have hbuf : g.parser.registryJson = some (id :: (name ++ [0])) := by
    rw [hg.filled.buf]
    simp
  rcases hk with rfl | rfl
  · obtain ⟨t₃, p₃, r₃, l₃, a₃, g₃⟩ := applyVirtiosoStreamConnected_healthy he hg.ready id name
    have hfin : finishAnnounce env g = (applyVirtiosoStreamConnected env g id name).endRecord := by
      have hone : 1 ≤ g.parser.registryLen := by
        rw [hg.filled.length]
        simp
      have htake : (name ++ [0]).take (g.parser.registryLen - 1) = name := by
        rw [hg.filled.length]
        simp
      simp only [finishAnnounce, hbuf, hpend, hone, and_self, if_true, htake]
    rw [hfin] at hfeed
    refine ⟨(applyVirtiosoStreamConnected env g id name).endRecord.tick,
      hg.consumes he hraw hbytes hfront hfeed (r₃.of_eq rfl rfl) l₃ a₃, ⟨rfl, ?_, ?_, rfl⟩, ?_, g₃.trans hg.same.registry⟩
    · exact (congrArg Parser.inEscape p₃).trans (hg.same.escape.trans ha.escape)
    · exact (congrArg Parser.curRxStream p₃).trans (hg.same.current.trans ha.current)
    · change (applyVirtiosoStreamConnected env g id name).table = _
      rw [t₃, hg.same.table]
      simp [announce]
  · have hfin : finishAnnounce env g = g.endRecord := by
      simp only [finishAnnounce, hbuf, hpend]
      exact if_neg (fun h => absurd h.1 (by decide))
    rw [hfin] at hfeed
    refine ⟨g.endRecord.tick, hg.consumes he hraw hbytes hfront hfeed (hg.ready.of_eq rfl rfl) (fun _ => rfl) rfl,
      ⟨rfl, hg.same.escape.trans ha.escape, hg.same.current.trans ha.current, rfl⟩, ?_, hg.same.registry⟩
    change g.table = _
    rw [hg.same.table]
    rfl

/-- The registry record hands its text to the registry reader. The reader runs in the
state reached by the last byte, which agrees with `h` on the table. -/
theorem consumes_registry {h : State} {cur : Option Nat} (hr : h.Ready) (ha : AtRest h cur) {json : Bytes}
    (hpos : json ≠ []) (hlen : json.length < 65536) (hfresh : h.virtiosoRegistryJson = none)
    (hnul : (0 : Byte) ∉ json)
    (happly : ∀ g : State, g.Ready → g.table = h.table → ∃ g', applyVirtiosoRegistryJson env g json = (g', true) ∧
      g'.Ready ∧ g'.parser = g.parser ∧ (∀ i, g'.log i = g.log i) ∧
      g'.downlinkAckCount = g.downlinkAckCount ∧ g'.table = t') :
    ∃ h', Consumes env h (recordBytes vcmuxProtoControlStreamRegistry json) h' (fun _ => []) 0 ∧ AtRest h' cur ∧
      h'.table = t' := by
  obtain ⟨h₂, g, front, last, hbytes, hfront, hg⟩ := consumes_lastByte he hraw hr ha (.inl ⟨rfl, rfl⟩) hpos hlen
  have hnone : g.virtiosoRegistryJson = none := hg.same.registry.trans hfresh
  have hstr : cString (g.parser.registryJson.getD []) = json := by
    rw [hg.filled.buf]
    simp only [Option.getD_some, cString]
    rw [List.takeWhile_append_of_pos (by
      intro b hb
      have : b ≠ 0 := fun h0 => hnul (h0 ▸ hb)
      simpa using this)]
    simp
  let g₁ : State := emitVirtiosoRegistryRecord
    { g with virtiosoRegistryJson := some json, parser := { g.parser with registryJson := none } }
  obtain ⟨g', hrun, r', p', l', a', t''⟩ := happly g₁ (hg.ready.of_eq rfl rfl) hg.same.table
  have hfin : finishRegistry env g = (g'.setControl .idle, 0) := by
    simp only [finishRegistry, hnone, hstr]
    change (if (applyVirtiosoRegistryJson env g₁ json).2 then _ else _) = _
    rw [hrun]
    rfl
  refine ⟨(g'.setControl .idle).tick, hg.consumes he hraw hbytes hfront (hg.registered.trans hfin) (r'.of_eq rfl rfl) l' a',
    ⟨rfl, ?_, ?_, ?_⟩, t''⟩
  · exact (congrArg Parser.inEscape p').trans (hg.same.escape.trans ha.escape)
  · exact (congrArg Parser.curRxStream p').trans (hg.same.current.trans ha.current)
  · exact congrArg Parser.registryJson p'

end VirtiosoMux.Host
