import VirtiosoMux.Host.Runs

/-! # Length-counted control records

A registry or announcement record is a two-byte length and that many unescaped bytes,
collected in a zeroed buffer that is one byte longer. The parser cannot leave the
record before the last byte, whatever the bytes are.
-/
namespace VirtiosoMux.Host

/-- The record payload read so far is `bs`, of `len` bytes in all. -/
structure Filling (h : State) (c : ControlState) (len : Nat) (bs : Bytes) : Prop where
  control : h.parser.controlState = c
  length : h.parser.registryLen = len
  pos : h.parser.registryPos = bs.length
  buf : h.parser.registryJson = some (bs ++ List.replicate (len + 1 - bs.length) 0)

structure SameCursor (h h' : State) : Prop where
  escape : h'.parser.inEscape = h.parser.inEscape
  current : h'.parser.curRxStream = h.parser.curRxStream
  table : h'.table = h.table
  registry : h'.virtiosoRegistryJson = h.virtiosoRegistryJson

theorem SameCursor.trans {h₁ h₂ h₃ : State} (a : SameCursor h₁ h₂) (b : SameCursor h₂ h₃) : SameCursor h₁ h₃ :=
  ⟨b.escape.trans a.escape, b.current.trans a.current, b.table.trans a.table, b.registry.trans a.registry⟩

theorem store_filling {h : State} {c : ControlState} {len : Nat} {bs : Bytes} (hf : Filling h c len bs)
    (hlt : bs.length < len) (b : Byte) : Filling (storePayload h b) c len (bs ++ [b]) := by
  refine ⟨hf.control, hf.length, ?_, ?_⟩
  · simp [storePayload, hf.pos]
  · have hrep : len + 1 - bs.length = (len + 1 - (bs ++ [b]).length) + 1 := by
      simp only [List.length_append, List.length_singleton]; omega
    simp only [storePayload, hf.pos, hf.length, hf.buf, if_pos hlt, Option.map_some, Option.some.injEq]
    rw [List.set_append_right _ _ (Nat.le_refl _), Nat.sub_self, hrep, List.replicate_succ]
    simp

variable {env : Env} (he : env.Healthy) (hraw : env.virtiosoOuterMode = .raw)
include he hraw

/-- Every byte but the last of a record is stored and nothing else happens. -/
theorem consumes_filling {h : State} (hr : h.Ready) {c : ControlState}
    (hc : c = .registryJson ∨ c = .announcePayload) {len : Nat} (xs : Bytes) {bs : Bytes}
    (hf : Filling h c len bs) (hlt : bs.length + xs.length < len) :
    ∃ h', Consumes env h xs h' (fun _ => []) 0 ∧ Filling h' c len (bs ++ xs) ∧ SameCursor h h' ∧
      h'.parser.pendingCtrlType = h.parser.pendingCtrlType := by
  induction xs generalizing h bs with
  | nil => exact ⟨h, Consumes.refl env hr, by simpa using hf, ⟨rfl, rfl, rfl, rfl⟩, rfl⟩
  | cons b xs ih =>
    simp only [List.length_cons] at hlt
    have hf' : Filling (h.deliver env rawCcplexPtyIdx b) c len bs := ⟨hf.control, hf.length, hf.pos, hf.buf⟩
    have hs := store_filling hf' (by omega) b
    have hmore : ¬ len ≤ (bs ++ [b]).length := by simp only [List.length_append, List.length_singleton]; omega
    have hfeed : feedVirtiosoByte env (h.deliver env rawCcplexPtyIdx b) b =
        (storePayload (h.deliver env rawCcplexPtyIdx b) b, 0) := by
      rcases hc with rfl | rfl <;>
        simp only [feedVirtiosoByte, hf'.control, hs.length, hs.pos, if_neg hmore]
    have c₁ := consumes_move he hraw hr hfeed rfl rfl (n := 0) (by simp [storePayload])
    obtain ⟨h₂, c₂, hf₂, hk, hp⟩ := ih c₁.ready
      ⟨hs.control, hs.length, hs.pos, hs.buf⟩ (by simp only [List.length_append, List.length_singleton]; omega)
    refine ⟨h₂, c₁.trans c₂, by simpa using hf₂, ⟨hk.escape, hk.current, hk.table, hk.registry⟩, hp⟩

/-- The two length bytes open the zeroed buffer. -/
theorem consumes_length {h : State} (hr : h.Ready) {len : Nat} (hpos : 0 < len) (hlen : len < 65536)
    {s c : ControlState} (hs : h.parser.controlState = s)
    (hsc : s = .registryLenHi ∧ c = .registryJson ∨ s = .announceLenHi ∧ c = .announcePayload) :
    ∃ h', Consumes env h [lenHi len, lenLo len] h' (fun _ => []) 0 ∧ Filling h' c len [] ∧ SameCursor h h' ∧
      h'.parser.pendingCtrlType = h.parser.pendingCtrlType := by
  have hne : len ≠ 0 := by omega
  -- the state between the two bytes; it differs only in which payload state follows
  obtain ⟨lo, hlo⟩ : ∃ lo : ControlState,
      lo = .registryLenLo ∧ c = .registryJson ∨ lo = .announceLenLo ∧ c = .announcePayload := by
    rcases hsc with ⟨-, rfl⟩ | ⟨-, rfl⟩
    · exact ⟨.registryLenLo, .inl ⟨rfl, rfl⟩⟩
    · exact ⟨.announceLenLo, .inr ⟨rfl, rfl⟩⟩
  have first : ∀ g : State, g.parser.controlState = s → feedVirtiosoByte env g (lenHi len) =
      ({ g with parser := { g.parser with registryLen := (lenHi len).toNat <<< 8, controlState := lo } }, 0) := by
    intro g hg
    rcases hsc with ⟨rfl, rfl⟩ | ⟨rfl, rfl⟩ <;> rcases hlo with ⟨rfl, h⟩ | ⟨rfl, h⟩ <;> first
      | exact absurd h (by decide)
      | simp only [feedVirtiosoByte, hg]
  have second : ∀ g : State, g.parser.controlState = lo → g.parser.registryLen = (lenHi len).toNat <<< 8 →
      feedVirtiosoByte env g (lenLo len) = ({ g with parser := { g.parser with
        registryLen := len, registryPos := 0, registryJson := some (List.replicate (len + 1) 0),
        controlState := c } }, 0) := by
    intro g hg hl
    rcases hlo with ⟨rfl, rfl⟩ | ⟨rfl, rfl⟩ <;>
      simp only [feedVirtiosoByte, hg, controlLenLo, hl, len_bytes hlen, if_neg hne, Env.now, he.calloc, if_true]
  have c₁ := consumes_move he hraw hr (first (h.deliver env rawCcplexPtyIdx (lenHi len)) hs) rfl rfl
    (n := 0) (by simp)
  have c₂ := consumes_move he hraw c₁.ready (second _ rfl rfl) rfl rfl (n := 0) (by simp)
  exact ⟨_, c₁.trans c₂, ⟨rfl, rfl, rfl, by simp [State.tick]⟩, ⟨rfl, rfl, rfl, rfl⟩, rfl⟩

/-- The header of a record up to and including its length. -/
theorem consumes_header {h : State} {cur : Option Nat} (hr : h.Ready) (ha : AtRest h cur) {n : Nat}
    (hpos : 0 < n) (hlen : n < 65536) {kind : Byte} {c : ControlState}
    (hk : kind = vcmuxProtoControlStreamRegistry ∧ c = .registryJson ∨
      (kind = vcmuxProtoControlStreamConnected ∨ kind = vcmuxProtoControlStreamDisconnected) ∧ c = .announcePayload) :
    ∃ h', Consumes env h [vcmuxProtoEscStart, vcmuxProtoEscControl, kind, lenHi n, lenLo n] h' (fun _ => []) 0 ∧
      Filling h' c n [] ∧ SameCursor h h' ∧ (c = .announcePayload → h'.parser.pendingCtrlType = kind) := by
  obtain ⟨h₁, c₁, hp₁, ht₁, hg₁⟩ := consumes_control he hraw hr ha
  have hfeed : feedVirtiosoByte env (h₁.deliver env rawCcplexPtyIdx kind) kind =
      (controlCmd (h₁.deliver env rawCcplexPtyIdx kind) kind, 0) := by
    simp [feedVirtiosoByte, hp₁]
  have hcur : SameCursor h h₁ := ⟨by rw [hp₁], by rw [hp₁], ht₁, hg₁⟩
  rcases hk with ⟨rfl, rfl⟩ | ⟨hkind, rfl⟩
  · have c₂ := consumes_move he hraw c₁.ready hfeed rfl rfl (n := 0) (by simp [controlCmd])
    obtain ⟨h₃, c₃, hf, hk, -⟩ := consumes_length he hraw c₂.ready hpos hlen rfl (.inl ⟨rfl, rfl⟩)
    exact ⟨h₃, (c₁.trans c₂).trans c₃, hf, hcur.trans ⟨hk.escape, hk.current, hk.table, hk.registry⟩, by simp⟩
  · have hcmd : controlCmd (h₁.deliver env rawCcplexPtyIdx kind) kind =
        { h₁.deliver env rawCcplexPtyIdx kind with parser := { h₁.parser with
          pendingCtrlType := kind, registryLen := 0, registryPos := 0, controlState := .announceLenHi } } := by
      rcases hkind with rfl | rfl <;> rfl
    rw [hcmd] at hfeed
    have c₂ := consumes_move he hraw c₁.ready hfeed rfl rfl (n := 0) (by simp)
    obtain ⟨h₃, c₃, hf, hk, hpend⟩ := consumes_length he hraw c₂.ready hpos hlen rfl (.inr ⟨rfl, rfl⟩)
    exact ⟨h₃, (c₁.trans c₂).trans c₃, hf, hcur.trans ⟨hk.escape, hk.current, hk.table, hk.registry⟩, fun _ => hpend⟩

end VirtiosoMux.Host
