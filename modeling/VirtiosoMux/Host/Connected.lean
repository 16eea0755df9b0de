import VirtiosoMux.Host.Records
import VirtiosoMux.Host.Copies

/-! # A CTRL_CONNECTED record

The bytes of a record reach the inner parser one by one. What happens between two of them, such
as the copy to `raw_ccplex` or a byte of another tag, leaves its part of the state alone. Read
from rest, a record registers its stream if the calls it makes succeed, whether line patching is
on and whatever becomes of the writes.
-/
namespace VirtiosoMux.Host

/-- The same state for the inner parser, but for the line patching flags. -/
structure State.SameInner (h g : State) : Prop where
  inEscape : g.parser.inEscape = h.parser.inEscape
  controlState : g.parser.controlState = h.parser.controlState
  registryLen : g.parser.registryLen = h.parser.registryLen
  registryPos : g.parser.registryPos = h.parser.registryPos
  registryJson : g.parser.registryJson = h.parser.registryJson
  pendingCtrlType : g.parser.pendingCtrlType = h.parser.pendingCtrlType
  table : g.table = h.table

theorem State.SameInner.refl (h : State) : h.SameInner h := ⟨rfl, rfl, rfl, rfl, rfl, rfl, rfl⟩

theorem State.SameInner.trans {h g k : State} (a : h.SameInner g) (b : g.SameInner k) : h.SameInner k :=
  ⟨b.inEscape.trans a.inEscape, b.controlState.trans a.controlState, b.registryLen.trans a.registryLen,
    b.registryPos.trans a.registryPos, b.registryJson.trans a.registryJson, b.pendingCtrlType.trans a.pendingCtrlType,
    b.table.trans a.table⟩

theorem State.SameInner.clock (h : State) (n : Nat) : h.SameInner { h with clock := n } := ⟨rfl, rfl, rfl, rfl, rfl, rfl, rfl⟩

inductive Fed (env : Env) : State → Bytes → State → Prop
  | nil {h h' : State} (hsame : h.SameInner h') : Fed env h [] h'
  | cons {h g h' : State} {ch : Byte} {rest : Bytes} (hsame : h.SameInner g)
      (hrest : Fed env (feedVirtiosoByte env g ch).1 rest h') : Fed env h (ch :: rest) h'

/-- The buffer of a record can be had, and a new stream gets its name and its PTY. -/
structure Env.Opens (env : Env) : Prop where
  calloc : ∀ n, (env.io n).calloc = true
  xstrndup : ∀ n k, (env.io n).xstrndup k = true
  master : ∀ n i, ((env.io n).pty i).master = true
  slave : ∀ n i, ((env.io n).pty i).slave = true

def OuterReset (env : Env) (h : State) (ch : Byte) : Prop :=
  env.virtiosoOuterMode = .nvidiaTcu ∧ h.parser.outerInEscape = true ∧ ch = uartProtoEscReset

section Handler
variable {env : Env}

theorem Fed.congr {h k h' : State} {bytes : Bytes} (hs : h.SameInner k) (hf : Fed env k bytes h') : Fed env h bytes h' := by
  cases hf with
  | nil hsame => exact .nil (hs.trans hsame)
  | cons hsame hrest => exact .cons (hs.trans hsame) hrest

theorem handed_same {h g : State} {ch b : Byte} (hh : handed env h ch = some (g, b)) : h.SameInner g := by
  obtain ⟨p, n, r, e, rfl⟩ := handed_state hh
  exact ⟨rfl, rfl, rfl, rfl, rfl, rfl, rfl⟩

/-- A byte that stays in the outer layer and does not reset it leaves the inner layer alone. -/
theorem unhanded_same {h : State} {ch : Byte} (hh : handed env h ch = none) (hno : ¬ OuterReset env h ch)
    (hok : 0 ≤ (feedNvidiaOuterOrVirtiosoRaw env h ch).2) : h.SameInner (feedNvidiaOuterOrVirtiosoRaw env h ch).1 := by
  rcases unhanded_cases hh with ⟨p, n, r, hcopy⟩ | ⟨hreset, -⟩ | ⟨e, tag, hmove⟩
  · rw [hcopy] at hok
    exact absurd hok (by decide : ¬ (0 : Int) ≤ -1)
  · exact absurd hreset hno
  · rw [hmove]
    exact ⟨rfl, rfl, rfl, rfl, rfl, rfl, rfl⟩

/-- A run of the receiving thread feeds the bytes that it hands on. -/
theorem fed_handler {h : State} {received : Bytes} (hrun : (ttyInputHandler env h received).2 = true)
    (hno : Along env (fun h ch => ¬ OuterReset env h ch) h received) :
    Fed env h (handedBytes env h received) (ttyInputHandler env h received).1 := by
  induction received generalizing h with
  | nil => exact .nil (.refl h)
  | cons ch rest ih =>
    obtain ⟨hhead, htail⟩ := hno
    have hok : ¬ (feedNvidiaOuterOrVirtiosoRaw env h ch).2 < 0 := by
      intro hneg
      simp only [ttyInputHandler, if_pos hneg] at hrun
      cases hrun
    simp only [ttyInputHandler, if_neg hok] at hrun ⊢
    have hrest := ih hrun (htail (Int.not_lt.mp hok))
    rw [handedBytes, if_neg hok]
    cases hh : handed env h ch with
    | none =>
      have hsame := unhanded_same hh hhead (Int.not_lt.mp hok)
      rw [Option.map_none, Option.toList_none, List.nil_append]
      exact hrest.congr (hsame.trans (.clock _ _))
    | some read =>
      obtain ⟨g, b⟩ := read
      rw [feed_handed hh] at hrest ⊢
      rw [Option.map_some, Option.toList_some, List.cons_append, List.nil_append]
      exact .cons (handed_same hh) (hrest.congr (.clock _ _))

end Handler

/-! ### Reading a record -/

section Record
variable {env : Env} (ho : env.Opens)

theorem Fed.uncons {h h' : State} {ch : Byte} {rest : Bytes} (hf : Fed env h (ch :: rest) h') :
    ∃ g, h.SameInner g ∧ Fed env (feedVirtiosoByte env g ch).1 rest h' := by
  cases hf with
  | cons hsame hrest => exact ⟨_, hsame, hrest⟩

theorem State.SameInner.filling {h g : State} (hs : h.SameInner g) {c : ControlState} {len : Nat} {bs : Bytes}
    (hf : Filling h c len bs) : Filling g c len bs :=
  ⟨hs.controlState.trans hf.control, hs.registryLen.trans hf.length, hs.registryPos.trans hf.pos, hs.registryJson.trans hf.buf⟩

structure Announcing (h : State) (t : Table) (len : Nat) (bs : Bytes) : Prop where
  filling : Filling h .announcePayload len bs
  pending : h.parser.pendingCtrlType = vcmuxProtoControlStreamConnected
  plain : h.parser.inEscape = false
  table : h.table = t

theorem Announcing.same {h g : State} {t : Table} {len : Nat} {bs : Bytes} (ha : Announcing h t len bs)
    (hs : h.SameInner g) : Announcing g t len bs :=
  ⟨hs.filling ha.filling, hs.pendingCtrlType.trans ha.pending, hs.inEscape.trans ha.plain, hs.table.trans ha.table⟩

theorem Announcing.store {h : State} {t : Table} {len : Nat} {bs : Bytes} (ha : Announcing h t len bs)
    (hlt : bs.length < len) (b : Byte) : Announcing (storePayload h b) t len (bs ++ [b]) :=
  ⟨store_filling ha.filling hlt b, ha.pending, ha.plain, ha.table⟩

/-- Every byte but the last is only stored. -/
theorem fed_payload {h h' : State} {t : Table} {len : Nat} {bs xs rest : Bytes} (ha : Announcing h t len bs)
    (hlt : bs.length + xs.length < len) (hf : Fed env h (xs ++ rest) h') :
    ∃ g, Announcing g t len (bs ++ xs) ∧ Fed env g rest h' := by
  induction xs generalizing h bs with
  | nil =>
    rw [List.append_nil]
    exact ⟨h, ha, hf⟩
  | cons b xs ih =>
    rw [List.length_cons] at hlt
    obtain ⟨g, hs, hrest⟩ := hf.uncons
    have hstored := (ha.same hs).store (by omega) b
    have hmore : ¬ len ≤ (bs ++ [b]).length := by
      rw [List.length_append, List.length_singleton]
      omega
    have hfeed : feedVirtiosoByte env g b = (storePayload g b, 0) := by
      simp only [feedVirtiosoByte, (ha.same hs).filling.control, hstored.filling.length, hstored.filling.pos, if_neg hmore]
    rw [hfeed] at hrest
    obtain ⟨k, hk, hkrest⟩ := ih hstored (by
      rw [List.length_append, List.length_singleton]
      omega) hrest
    rw [List.append_assoc] at hk
    exact ⟨k, hk, hkrest⟩

include ho

/-- The header opens the buffer of the record. -/
theorem fed_header {h h' : State} (hidle : h.parser.controlState = .idle) (hplain : h.parser.inEscape = false) {n : Nat}
    (hpos : 0 < n) (hlen : n < 65536) {rest : Bytes}
    (hf : Fed env h ([vcmuxProtoEscStart, vcmuxProtoEscControl, vcmuxProtoControlStreamConnected, lenHi n, lenLo n] ++ rest) h') :
    ∃ g, Announcing g h.table n [] ∧ Fed env g rest h' := by
  have hne : n ≠ 0 := Nat.ne_of_gt hpos
  obtain ⟨g₁, s₁, f₁⟩ := hf.uncons
  have e₁ : feedVirtiosoByte env g₁ vcmuxProtoEscStart = (g₁.setEscape true, 0) := by
    simp only [feedVirtiosoByte, s₁.controlState.trans hidle, s₁.inEscape.trans hplain, Bool.false_eq_true, if_false, if_true]
  rw [e₁] at f₁
  obtain ⟨g₂, s₂, f₂⟩ := f₁.uncons
  have e₂ : feedVirtiosoByte env g₂ vcmuxProtoEscControl = ((g₂.setEscape false).setControl .cmd, 0) := by
    have hcontrol : g₂.parser.controlState = .idle := s₂.controlState.trans (s₁.controlState.trans hidle)
    have hescape : g₂.parser.inEscape = true := s₂.inEscape
    have hdefault : vcmuxProtoEscControl ≠ vcmuxProtoEscDefault := by decide
    have hliteral : vcmuxProtoEscControl ≠ vcmuxProtoEscEsc := by decide
    simp only [feedVirtiosoByte, hcontrol, hescape, if_true, if_neg hdefault, if_neg hliteral]
  rw [e₂] at f₂
  obtain ⟨g₃, s₃, f₃⟩ := f₂.uncons
  have e₃ : feedVirtiosoByte env g₃ vcmuxProtoControlStreamConnected = ({ g₃ with parser := { g₃.parser with
      pendingCtrlType := vcmuxProtoControlStreamConnected, registryLen := 0, registryPos := 0,
      controlState := .announceLenHi } }, 0) := by
    have hcontrol : g₃.parser.controlState = .cmd := s₃.controlState
    simp only [feedVirtiosoByte, hcontrol]
    rfl
  rw [e₃] at f₃
  obtain ⟨g₄, s₄, f₄⟩ := f₃.uncons
  have e₄ : feedVirtiosoByte env g₄ (lenHi n) = ({ g₄ with parser := { g₄.parser with
      registryLen := (lenHi n).toNat <<< 8, controlState := .announceLenLo } }, 0) := by
    have hcontrol : g₄.parser.controlState = .announceLenHi := s₄.controlState
    simp only [feedVirtiosoByte, hcontrol]
  rw [e₄] at f₄
  obtain ⟨g₅, s₅, f₅⟩ := f₄.uncons
  have e₅ : feedVirtiosoByte env g₅ (lenLo n) = ({ g₅ with parser := { g₅.parser with
      registryLen := n, registryPos := 0, registryJson := some (List.replicate (n + 1) 0),
      controlState := .announcePayload } }, 0) := by
    have hcontrol : g₅.parser.controlState = .announceLenLo := s₅.controlState
    have hhi : g₅.parser.registryLen = (lenHi n).toNat <<< 8 := s₅.registryLen
    simp only [feedVirtiosoByte, hcontrol, controlLenLo, hhi, len_bytes hlen, if_neg hne, Env.now, ho.calloc, if_true]
  rw [e₅] at f₅
  refine ⟨_, ⟨⟨rfl, rfl, rfl, by simp⟩, ?_, ?_, ?_⟩, f₅⟩
  · exact s₅.pendingCtrlType.trans s₄.pendingCtrlType
  · exact s₅.inEscape.trans (s₄.inEscape.trans s₃.inEscape)
  · exact s₅.table.trans (s₄.table.trans (s₃.table.trans (s₂.table.trans s₁.table)))

theorem createPtyAtIndex_opens (h : State) {i : Nat} (hi : i < ptyCapacity) (name : Bytes) :
    (createPtyAtIndex env h i name false).2 = true := by
  unfold createPtyAtIndex
  simp only [if_neg (Nat.not_le.mpr hi), Env.now, ho.master, ho.slave, Bool.not_true, Bool.false_eq_true, if_false,
    Bool.false_and]

/-- A new stream is registered if there is room. -/
theorem applyVirtiosoStreamConnected_registers {h : State} {id : Byte} (hfresh : findVirtiosoPtyIdxByStreamId h.table id = none)
    (hroom : h.table.numProc < ptyCapacity) (name : Bytes) :
    (applyVirtiosoStreamConnected env h id name).table = h.table.connect id name ∧
      (applyVirtiosoStreamConnected env h id name).parser = h.parser := by
  have hcap : ¬ ptyCapacity ≤ h.table.numProc := Nat.not_le.mpr hroom
  obtain ⟨p, out, ok, hcreate, -, -⟩ := createPtyAtIndex_slot env { h with table := h.table.connect id name }
    h.table.numProc (cString (name.take 255)) false
  have hok := createPtyAtIndex_opens ho { h with table := h.table.connect id name } hroom (cString (name.take 255))
  rw [hcreate] at hok
  cases hok
  rw [connect_fresh hfresh hroom name] at hcreate ⊢
  simp only [applyVirtiosoStreamConnected, hfresh, Option.isSome_none, Bool.false_eq_true, if_false, if_neg hcap, Env.now,
    ho.xstrndup, Bool.not_true, hcreate, if_true]
  exact ⟨rfl, rfl⟩

/-- Fed from rest, the record of a new stream registers it. -/
theorem fed_connected {h h' : State} (hidle : h.parser.controlState = .idle) (hplain : h.parser.inEscape = false)
    {id : Byte} {name : Bytes} (hlen : name.length + 1 < 65536) (hfresh : findVirtiosoPtyIdxByStreamId h.table id = none)
    (hroom : h.table.numProc < ptyCapacity)
    (hf : Fed env h (recordBytes vcmuxProtoControlStreamConnected (id :: name)) h') :
    h'.table = h.table.connect id name ∧ h'.parser.controlState = .idle ∧ h'.parser.inEscape = false := by
  obtain ⟨front, last, hsplit⟩ : ∃ front last, id :: name = front ++ [last] := by
    rcases List.eq_nil_or_concat' (id :: name) with hnil | ⟨front, last, hsplit⟩
    · exact absurd hnil (List.cons_ne_nil id name)
    · exact ⟨front, last, hsplit⟩
  have hfront : front.length + 1 = (id :: name).length := by
    rw [hsplit, List.length_append, List.length_singleton]
  obtain ⟨g₁, a₁, f₁⟩ := fed_header ho hidle hplain (List.length_pos_of_ne_nil (List.cons_ne_nil id name)) hlen hf
  rw [hsplit] at f₁
  obtain ⟨g₂, a₂, f₂⟩ := fed_payload a₁ (by
    rw [List.length_nil]
    omega) f₁
  obtain ⟨g, hs, f₃⟩ := f₂.uncons
  have hstored := (a₂.same hs).store (by
    rw [List.nil_append]
    omega) last
  rw [List.nil_append, ← hsplit] at hstored
  have hbuf : (storePayload g last).parser.registryJson = some (id :: (name ++ [0])) := by
    rw [hstored.filling.buf]
    simp
  have hdone : completedAnnouncement g last = some (id, name) := by
    have hlen' : (storePayload g last).parser.registryLen = (id :: name).length := hstored.filling.length
    have hend : (storePayload g last).parser.registryLen ≤ (storePayload g last).parser.registryPos := by
      rw [hlen', hstored.filling.pos]
    have hone : 1 ≤ g.parser.registryLen := by
      rw [show g.parser.registryLen = (id :: name).length from hlen']
      simp
    have htake : (name ++ [0]).take (g.parser.registryLen - 1) = name := by
      rw [show g.parser.registryLen = (id :: name).length from hlen']
      simp
    rw [completedAnnouncement, if_pos ⟨(a₂.same hs).filling.control, hend, (a₂.same hs).pending, hone⟩, hbuf]
    simp only [htake]
  rw [feed_completedAnnouncement hdone] at f₃
  have htable : (storePayload g last).table = h.table := hstored.table
  rw [← htable] at hfresh hroom
  obtain ⟨hconnect, hparser⟩ := applyVirtiosoStreamConnected_registers ho hfresh hroom name
  cases f₃ with
  | nil hsame =>
    refine ⟨?_, hsame.controlState, ?_⟩
    · rw [hsame.table, ← htable]
      exact hconnect
    · rw [hsame.inEscape]
      exact (congrArg Parser.inEscape hparser).trans hstored.plain

end Record

end VirtiosoMux.Host
