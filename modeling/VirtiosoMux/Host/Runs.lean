import VirtiosoMux.Host.Steps
import VirtiosoMux.Protocol.Wire

/-! # Runs of the demuxer over the tokens of the wire format

Between two tokens the parser is at rest: no control record is open and no escape is
pending, only the stream cursor may be set. Every token of the inner protocol takes a
resting state to a resting state, and what it adds to the logs is stated exactly, so
that whole frames and whole wires are handled by composition.
-/
namespace VirtiosoMux.Host
open ByteStuffing

def State.tick (h : State) : State := { h with clock := h.clock + 1 }

theorem handler_cons {env : Env} {h h' : State} {ch : Byte} (rest : Bytes)
    (hf : feedNvidiaOuterOrVirtiosoRaw env h ch = (h', 0)) :
    ttyInputHandler env h (ch :: rest) = ttyInputHandler env h'.tick rest := by
  simp [ttyInputHandler, hf, State.tick]

theorem handler_append {env : Env} {h h' : State} {xs : Bytes} (ys : Bytes)
    (hx : ttyInputHandler env h xs = (h', true)) :
    ttyInputHandler env h (xs ++ ys) = ttyInputHandler env h' ys := by
  induction xs generalizing h with
  | nil =>
    simp only [ttyInputHandler, Prod.mk.injEq, and_true] at hx
    simp only [List.nil_append, hx]
  | cons ch xs ih =>
    simp only [ttyInputHandler, List.cons_append] at hx ⊢
    split at hx
    · simp at hx
    · rename_i hret
      rw [if_neg hret]
      exact ih hx

def only (i : Nat) (p : Bytes) : Nat → Bytes := fun j => if j = i then p else []

@[simp] theorem only_self (i : Nat) (p : Bytes) : only i p i = p := by simp [only]
theorem only_of_ne {i j : Nat} (h : j ≠ i) (p : Bytes) : only i p j = [] := by simp [only, h]
@[simp] theorem only_nil (i j : Nat) : only i [] j = [] := by simp [only]
theorem only_append (i j : Nat) (p q : Bytes) : only i p j ++ only i q j = only i (p ++ q) j := by
  by_cases h : j = i <;> simp [only, h]

/-- In raw mode the bytes `w` take `h` to `h'` without stopping the thread. They are
copied to `raw_ccplex`, every other slot's log grows by `d`, and `acks`
acknowledgements are counted. -/
structure Consumes (env : Env) (h : State) (w : Bytes) (h' : State) (d : Nat → Bytes) (acks : Nat) : Prop where
  run : ttyInputHandler env h w = (h', true)
  ready : h'.Ready
  log : ∀ i, h'.log i = h.log i ++ (if i = rawCcplexPtyIdx then w else d i)
  acks : h'.downlinkAckCount = h.downlinkAckCount + UInt32.ofNat acks

theorem Consumes.refl (env : Env) {h : State} (hr : h.Ready) : Consumes env h [] h (fun _ => []) 0 :=
  ⟨rfl, hr, by simp, by simp⟩

theorem Consumes.trans {env : Env} {h₁ h₂ h₃ : State} {v w : Bytes} {d e : Nat → Bytes} {m n : Nat}
    (hv : Consumes env h₁ v h₂ d m) (hw : Consumes env h₂ w h₃ e n) :
    Consumes env h₁ (v ++ w) h₃ (fun i => d i ++ e i) (m + n) := by
  refine ⟨?_, hw.ready, ?_, ?_⟩
  · rw [handler_append w hv.run, hw.run]
  · intro i
    rw [hw.log, hv.log]
    by_cases hi : i = rawCcplexPtyIdx <;> simp [hi]
  · rw [hw.acks, hv.acks, UInt32.add_assoc, ← UInt32.ofNat_add]

theorem Consumes.congr {env : Env} {h h' : State} {w : Bytes} {d e : Nat → Bytes} {n : Nat}
    (hc : Consumes env h w h' d n) (hde : ∀ i, i ≠ rawCcplexPtyIdx → d i = e i) : Consumes env h w h' e n := by
  refine ⟨hc.run, hc.ready, ?_, hc.acks⟩
  intro i
  rw [hc.log i]
  by_cases hi : i = rawCcplexPtyIdx
  · simp [hi]
  · simp only [if_neg hi, hde i hi]

structure AtRest (h : State) (cur : Option Nat) : Prop where
  control : h.parser.controlState = .idle
  escape : h.parser.inEscape = false
  current : h.parser.curRxStream = cur
  noRecord : h.parser.registryJson = none

/-- A segment is a run between resting states that leaves the stream table alone. -/
structure Segment (env : Env) (h : State) (w : Bytes) (h' : State) (d : Nat → Bytes) (acks : Nat)
    (cur : Option Nat) : Prop extends Consumes env h w h' d acks where
  rest : AtRest h' cur
  table : h'.table = h.table
  registry : h'.virtiosoRegistryJson = h.virtiosoRegistryJson

theorem Segment.refl (env : Env) {h : State} {cur : Option Nat} (hr : h.Ready) (ha : AtRest h cur) :
    Segment env h [] h (fun _ => []) 0 cur :=
  ⟨Consumes.refl env hr, ha, rfl, rfl⟩

theorem Segment.trans {env : Env} {h₁ h₂ h₃ : State} {v w : Bytes} {d e : Nat → Bytes} {m n : Nat}
    {c₂ c₃ : Option Nat} (hv : Segment env h₁ v h₂ d m c₂) (hw : Segment env h₂ w h₃ e n c₃) :
    Segment env h₁ (v ++ w) h₃ (fun i => d i ++ e i) (m + n) c₃ :=
  ⟨hv.toConsumes.trans hw.toConsumes, hw.rest, hw.table.trans hv.table, hw.registry.trans hv.registry⟩

theorem Segment.congr {env : Env} {h h' : State} {w : Bytes} {d e : Nat → Bytes} {n : Nat} {c : Option Nat}
    (hs : Segment env h w h' d n c) (hde : ∀ i, i ≠ rawCcplexPtyIdx → d i = e i) : Segment env h w h' e n c :=
  ⟨hs.toConsumes.congr hde, hs.rest, hs.table, hs.registry⟩

variable {env : Env} (he : env.Healthy) (hraw : env.virtiosoOuterMode = .raw)
include he hraw

/-- A byte whose processing leaves every log as the copy to `raw_ccplex` made it. -/
theorem consumes_step {h h' : State} (hr : h.Ready) {ch : Byte}
    (hf : feedVirtiosoByte env (h.deliver env rawCcplexPtyIdx ch) ch = (h', 0)) (hr' : h'.Ready)
    (hlog : ∀ i, h'.log i = (h.deliver env rawCcplexPtyIdx ch).log i)
    {n : Nat} (hacks : h'.downlinkAckCount = h.downlinkAckCount + UInt32.ofNat n) :
    Consumes env h [ch] h'.tick (fun _ => []) n := by
  refine ⟨?_, hr'.of_eq rfl rfl, ?_, hacks⟩
  · rw [handler_cons [] ((feed_raw he hraw hr ch).trans hf)]
    rfl
  · intro i
    change h'.log i = _
    rw [hlog, deliver_log]

/-- A byte that only moves the parser. -/
theorem consumes_move {h h' : State} (hr : h.Ready) {ch : Byte}
    (hf : feedVirtiosoByte env (h.deliver env rawCcplexPtyIdx ch) ch = (h', 0))
    (hp : h'.ptyData = (h.deliver env rawCcplexPtyIdx ch).ptyData) (ht : h'.table = h.table)
    {n : Nat} (hacks : h'.downlinkAckCount = h.downlinkAckCount + UInt32.ofNat n) :
    Consumes env h [ch] h'.tick (fun _ => []) n := by
  have hb := hr.builtin
  have hr' : (h.deliver env rawCcplexPtyIdx ch).Ready :=
    hr.deliver env (by simp only [rawCcplexPtyIdx]; omega) ch
  exact consumes_step he hraw hr hf (hr'.of_eq ht hp) (fun i => by simp only [State.log, hp]) hacks

/-- A byte that is delivered to slot `i` besides `raw_ccplex`. -/
theorem consumes_deliver {h h₀ : State} (hr : h.Ready) {ch : Byte} {i : Nat} (hi : i < h.table.numProc)
    (hne : i ≠ rawCcplexPtyIdx)
    (hf : feedVirtiosoByte env (h.deliver env rawCcplexPtyIdx ch) ch = (h₀.deliver env i ch, 0))
    (hp : h₀.ptyData = (h.deliver env rawCcplexPtyIdx ch).ptyData) (ht : h₀.table = h.table)
    (hacks : h₀.downlinkAckCount = h.downlinkAckCount) :
    Consumes env h [ch] (h₀.deliver env i ch).tick (only i [ch]) 0 := by
  have hb := hr.builtin
  have hr₁ : (h.deliver env rawCcplexPtyIdx ch).Ready :=
    hr.deliver env (by simp only [rawCcplexPtyIdx]; omega) ch
  have hr₀ : h₀.Ready := hr₁.of_eq ht hp
  refine ⟨?_, (hr₀.deliver env (by rw [ht]; exact hi) ch).of_eq rfl rfl, ?_, by simpa [State.tick] using hacks⟩
  · rw [handler_cons [] ((feed_raw he hraw hr ch).trans hf)]
    rfl
  · intro j
    have hlog : h₀.log j = (h.deliver env rawCcplexPtyIdx ch).log j := by
      simp only [State.log, hp]
    change (h₀.deliver env i ch).log j = _
    rw [deliver_log, hlog, deliver_log]
    by_cases hj : j = rawCcplexPtyIdx
    · have : j ≠ i := fun hji => hne (hji ▸ hj)
      simp [hj, hne.symm]
    · simp [hj, only]

/-! ### Tokens -/

section Tokens
variable {h : State} {cur : Option Nat} (hr : h.Ready) (ha : AtRest h cur)
include hr ha

theorem segment_unframed (hcur : cur = none) {ch : Byte} (hch : ch ≠ vcmuxProtoEscStart) :
    ∃ h', Segment env h [ch] h' (only virtiosoDefaultPtyIdx [ch]) 0 none := by
  have hb := hr.builtin
  have hr' := hr.deliver env (i := rawCcplexPtyIdx) (by simp only [rawCcplexPtyIdx]; omega) ch
  have hf := feed_unframed he (h := h.deliver env rawCcplexPtyIdx ch) ha.control hr'.logging ha.escape
    (ha.current.trans hcur) hch
  refine ⟨_, consumes_deliver he hraw hr (by simp only [virtiosoDefaultPtyIdx]; omega) (by decide) hf rfl rfl rfl,
    ⟨ha.control, ha.escape, ha.current.trans hcur, ha.noRecord⟩, rfl, rfl⟩

/-- A run of bytes without escape, seen while no stream is selected. -/
theorem segment_unframed_run (hcur : cur = none) (bs : Bytes) (hbs : vcmuxProtoEscStart ∉ bs) :
    ∃ h', Segment env h bs h' (only virtiosoDefaultPtyIdx bs) 0 none := by
  induction bs generalizing h cur with
  | nil => exact ⟨h, (Segment.refl env hr (hcur ▸ ha)).congr (by simp)⟩
  | cons b bs ih =>
    simp only [List.mem_cons, not_or] at hbs
    obtain ⟨hb, hbs⟩ := hbs
    obtain ⟨h₁, s₁⟩ := segment_unframed he hraw hr ha hcur (Ne.symm hb)
    obtain ⟨h₂, s₂⟩ := ih s₁.ready s₁.rest rfl hbs
    exact ⟨h₂, (s₁.trans s₂).congr (fun i _ => only_append _ i [b] bs)⟩

theorem consumes_escape : ∃ h', Consumes env h [vcmuxProtoEscStart] h' (fun _ => []) 0 ∧
    h'.parser = { h.parser with inEscape := true } ∧ h'.table = h.table ∧
    h'.virtiosoRegistryJson = h.virtiosoRegistryJson := by
  have hf : feedVirtiosoByte env (h.deliver env rawCcplexPtyIdx vcmuxProtoEscStart) vcmuxProtoEscStart = _ :=
    feed_escape ha.control ha.escape
  exact ⟨_, consumes_move he hraw hr hf rfl rfl (by simp), rfl, rfl, rfl⟩

/-- `fe id` moves the cursor to the slot of `id`, or to none if `id` is unknown. -/
theorem segment_select {id : Byte} (hid : ¬ Reserved id) :
    ∃ h', Segment env h [vcmuxProtoEscStart, id] h' (fun _ => []) 0 (findVirtiosoPtyIdxByStreamId h.table id) := by
  obtain ⟨h₁, c₁, hp, ht, hg⟩ := consumes_escape he hraw hr ha
  have hf : feedVirtiosoByte env (h₁.deliver env rawCcplexPtyIdx id) id = _ :=
    feed_select (by simp [hp, ha.control]) (by simp [hp]) hid
  refine ⟨_, c₁.trans (consumes_move he hraw c₁.ready hf rfl rfl (n := 0) (by simp)), ⟨?_, rfl, ?_, ?_⟩, ht, hg⟩
  · simp [State.tick, hp, ha.control]
  · simp [State.tick, ht]
  · simp [State.tick, hp, ha.noRecord]

/-- `fe 00` clears the cursor. -/
theorem segment_close : ∃ h', Segment env h [vcmuxProtoEscStart, vcmuxProtoEscDefault] h' (fun _ => []) 0 none := by
  obtain ⟨h₁, c₁, hp, ht, hg⟩ := consumes_escape he hraw hr ha
  have hf : feedVirtiosoByte env (h₁.deliver env rawCcplexPtyIdx vcmuxProtoEscDefault) vcmuxProtoEscDefault = _ :=
    feed_close (by simp [hp, ha.control]) (by simp [hp])
  refine ⟨_, c₁.trans (consumes_move he hraw c₁.ready hf rfl rfl (n := 0) (by simp)), ⟨?_, rfl, rfl, ?_⟩, ht, hg⟩
  · simp [State.tick, hp, ha.control]
  · simp [State.tick, hp, ha.noRecord]

/-- `fe fd` opens a control record; the cursor is kept. -/
theorem consumes_control : ∃ h', Consumes env h [vcmuxProtoEscStart, vcmuxProtoEscControl] h' (fun _ => []) 0 ∧
    h'.parser = { h.parser with controlState := .cmd } ∧ h'.table = h.table ∧
    h'.virtiosoRegistryJson = h.virtiosoRegistryJson := by
  obtain ⟨h₁, c₁, hp, ht, hg⟩ := consumes_escape he hraw hr ha
  have hf : feedVirtiosoByte env (h₁.deliver env rawCcplexPtyIdx vcmuxProtoEscControl) vcmuxProtoEscControl = _ :=
    feed_control (by simp [hp, ha.control]) (by simp [hp])
  refine ⟨_, c₁.trans (consumes_move he hraw c₁.ready hf rfl rfl (n := 0) (by simp)), ?_, ht, hg⟩
  have := ha.escape
  simp [State.tick, State.setEscape, State.setControl, hp, ← this]

omit he hraw hr ha in
theorem controlCmd_ack (h : State) : controlCmd h vcmuxProtoControlDownlinkAck =
    { h with downlinkAckCount := h.downlinkAckCount + 1, parser := { h.parser with controlState := .idle } } := rfl

/-- An acknowledgement record counts one and returns to the state it interrupted. -/
theorem segment_ack : ∃ h', Segment env h ackBytes h' (fun _ => []) 1 cur := by
  obtain ⟨h₁, c₁, hp, ht, hg⟩ := consumes_control he hraw hr ha
  have hf : feedVirtiosoByte env (h₁.deliver env rawCcplexPtyIdx vcmuxProtoControlDownlinkAck)
      vcmuxProtoControlDownlinkAck =
      (controlCmd (h₁.deliver env rawCcplexPtyIdx vcmuxProtoControlDownlinkAck) vcmuxProtoControlDownlinkAck, 0) := by
    simp [feedVirtiosoByte, hp]
  rw [controlCmd_ack] at hf
  refine ⟨_, c₁.trans (consumes_move he hraw c₁.ready hf rfl rfl (n := 1) rfl), ⟨?_, ?_, ?_, ?_⟩, ht, hg⟩
  all_goals simp [State.tick, hp, ha.escape, ha.current, ha.noRecord]

/-- One payload byte, after the escape that precedes it if it is an escape itself. -/
theorem consumes_payload_byte {i : Nat} (hcur : cur = some i) (hi : i < h.table.numProc) (hne : i ≠ rawCcplexPtyIdx)
    (b : Byte) : ∃ h₁ h',
      Consumes env h (if b = vcmuxProtoEscStart then [vcmuxProtoEscStart] else []) h₁ (fun _ => []) 0 ∧
      Consumes env h₁ [b] h' (only i [b]) 0 ∧ AtRest h' (some i) ∧ h'.table = h.table ∧
      h'.virtiosoRegistryJson = h.virtiosoRegistryJson := by
  have hb := hr.builtin
  by_cases hesc : b = vcmuxProtoEscStart
  · subst hesc
    obtain ⟨h₁, c₁, hp, ht, hg⟩ := consumes_escape he hraw hr ha
    have hr' := c₁.ready.deliver env (i := rawCcplexPtyIdx)
      (by have := c₁.ready.builtin; simp only [rawCcplexPtyIdx]; omega) vcmuxProtoEscEsc
    have hf := feed_literal he (h := h₁.deliver env rawCcplexPtyIdx vcmuxProtoEscEsc) (i := i)
      (by simp [hp, ha.control]) hr'.logging (by simp [hp]) (by simp [hp, ha.current, hcur]) (by simpa [ht] using hi)
    have c₂ := consumes_deliver he hraw c₁.ready (by simpa [ht] using hi) hne hf rfl rfl rfl
    refine ⟨h₁, _, by rw [if_pos rfl]; exact c₁, c₂, ⟨?_, rfl, ?_, ?_⟩, ht, hg⟩
    all_goals simp [State.tick, hp, ha.control, ha.current, ha.noRecord, hcur]
  · have hr' := hr.deliver env (i := rawCcplexPtyIdx) (by simp only [rawCcplexPtyIdx]; omega) b
    have hf := feed_framed he (h := h.deliver env rawCcplexPtyIdx b) ha.control hr'.logging ha.escape
      (ha.current.trans hcur) hi hesc
    have c₁ := consumes_deliver he hraw hr hi hne hf rfl rfl rfl
    refine ⟨h, _, ?_, c₁, ⟨ha.control, ha.escape, ha.current.trans hcur, ha.noRecord⟩, rfl, rfl⟩
    rw [if_neg hesc]
    exact Consumes.refl env hr

/-- Stuffed payload is delivered to the selected slot. -/
theorem segment_payload {i : Nat} (hcur : cur = some i) (hi : i < h.table.numProc) (hne : i ≠ rawCcplexPtyIdx)
    (p : Bytes) : ∃ h', Segment env h (stuff vcmuxProtoEscStart p) h' (only i p) 0 (some i) := by
  induction p generalizing h cur with
  | nil => exact ⟨h, (Segment.refl env hr (hcur ▸ ha)).congr (by simp)⟩
  | cons b p ih =>
    obtain ⟨h₀, h₁, c₀, c₁, hrest, ht, hg⟩ := consumes_payload_byte he hraw hr ha hcur hi hne b
    obtain ⟨h₂, s₂⟩ := ih c₁.ready hrest rfl (by rw [ht]; exact hi)
    have hbytes : stuff vcmuxProtoEscStart (b :: p) =
        (if b = vcmuxProtoEscStart then [vcmuxProtoEscStart] else []) ++ [b] ++ stuff vcmuxProtoEscStart p := by
      by_cases hb : b = vcmuxProtoEscStart <;> simp [hb]
    refine ⟨h₂, ⟨?_, s₂.rest, s₂.table.trans ht, s₂.registry.trans hg⟩⟩
    rw [hbytes]
    exact ((c₀.trans c₁).trans s₂.toConsumes).congr (fun j _ => by simpa using only_append i j [b] p)

/-- A whole data frame of a known stream, from any resting state. -/
theorem segment_frame {id : Byte} (hid : ¬ Reserved id) {i : Nat}
    (hfind : findVirtiosoPtyIdxByStreamId h.table id = some i) (hne : i ≠ rawCcplexPtyIdx) (p : Bytes) :
    ∃ h', Segment env h (frameBytes id p) h' (only i p) 0 none := by
  obtain ⟨h₁, s₁⟩ := segment_select he hraw hr ha hid
  have hi : i < h₁.table.numProc := by rw [s₁.table]; exact (find_value hfind).1
  obtain ⟨h₂, s₂⟩ := segment_payload he hraw s₁.ready s₁.rest hfind hi hne p
  obtain ⟨h₃, s₃⟩ := segment_close he hraw s₂.ready s₂.rest
  exact ⟨h₃, ((s₁.trans s₂).trans s₃).congr (by simp)⟩

end Tokens

end VirtiosoMux.Host
