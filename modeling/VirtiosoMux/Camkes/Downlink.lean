import VirtiosoMux.Library.Runs
import VirtiosoMux.Library.ByteStuffing
import VirtiosoMux.Camkes.Mux

/-! # Frames through the receiver

With every ring open for bytes, a frame of a stream with a sink is stored byte by byte and
acknowledged once; a frame of any other stream leaves no trace.
-/
namespace VirtiosoMux.Camkes
open ByteStuffing

/-! ### What a trace says -/

def Event.storedByte (i : Nat) : Event → Option Byte
  | .stored j _ b => if j = i then some b else none
  | _ => none

def Event.acked : Event → Option Int
  | .ack streamId => some streamId
  | _ => none

def storedTo (i : Nat) (events : List Event) : Bytes := events.filterMap (Event.storedByte i)

def acks (events : List Event) : List Int := events.filterMap Event.acked

/-- From `m` to `m'` the bytes `stored i` went to ring `i` and `acked` was acknowledged, and
the cursor of `m'` is `cur`. -/
structure Effect (m m' : Downlink) (cur : Int) (escape : Bool) (stored : Nat → Bytes) (acked : List Int) : Prop where
  cur : m'.rxStream = cur
  escape : m'.rxEscape = escape
  stored : ∀ i, storedTo i m'.events = storedTo i m.events ++ stored i
  acked : acks m'.events = acks m.events ++ acked

theorem Effect.trans {m₁ m₂ m₃ : Downlink} {c₂ c₃ : Int} {e₂ e₃ : Bool} {s t : Nat → Bytes} {a b : List Int}
    (h : Effect m₁ m₂ c₂ e₂ s a) (h' : Effect m₂ m₃ c₃ e₃ t b) :
    Effect m₁ m₃ c₃ e₃ (fun i => s i ++ t i) (a ++ b) := by
  refine ⟨h'.cur, h'.escape, ?_, ?_⟩
  · intro i
    rw [h'.stored, h.stored, List.append_assoc]
  · rw [h'.acked, h.acked, List.append_assoc]

theorem Effect.congr {m m' : Downlink} {c : Int} {e : Bool} {s t : Nat → Bytes} {a b : List Int}
    (h : Effect m m' c e s a) (hs : ∀ i, s i = t i) (ha : a = b) : Effect m m' c e t b :=
  ⟨h.cur, h.escape, fun i => by rw [h.stored, hs], by rw [h.acked, ha]⟩

def Quiet (es : List Event) : Prop := ∀ e ∈ es, (∀ i, e.storedByte i = none) ∧ e.acked = none

theorem Quiet.storedTo {es : List Event} (hq : Quiet es) (i : Nat) : storedTo i es = [] :=
  List.filterMap_eq_nil_iff.mpr (fun e he => (hq e he).1 i)

theorem Quiet.acks {es : List Event} (hq : Quiet es) : acks es = [] :=
  List.filterMap_eq_nil_iff.mpr (fun e he => (hq e he).2)

theorem storedTo_append (i : Nat) (xs ys : List Event) : storedTo i (xs ++ ys) = storedTo i xs ++ storedTo i ys :=
  List.filterMap_append

theorem acks_append (xs ys : List Event) : acks (xs ++ ys) = acks xs ++ acks ys := List.filterMap_append

theorem effect_quiet {m m' : Downlink} {es : List Event} (h : m'.events = m.events ++ es) (hq : Quiet es) :
    Effect m m' m'.rxStream m'.rxEscape (fun _ => []) [] := by
  refine ⟨rfl, rfl, ?_, ?_⟩
  · intro i
    rw [h, storedTo_append, hq.storedTo]
  · rw [h, acks_append, hq.acks]

theorem emitStreamReady_eq (sinks : List DemuxSink) (m : Downlink) (streamId : Int) :
    ∃ es, consoleMuxEmitStreamReady sinks m streamId = { m with events := m.events ++ es } ∧ Quiet es := by
  unfold consoleMuxEmitStreamReady
  split
  · exact ⟨[], by simp, by simp [Quiet]⟩
  · rename_i i _
    split
    · exact ⟨[.ready i], rfl, by simp [Quiet, Event.storedByte, Event.acked]⟩
    · exact ⟨[], by simp, by simp [Quiet]⟩

/-! ### One byte -/

def ringsOpen (sinks : List DemuxSink) (m : Downlink) (r : Received) : Prop :=
  ∀ streamId i, consoleMuxSinkForStream sinks streamId = some i →
    Accepting sinks { m with rings := r.clients m.rings } streamId

section Bytes
variable (sinks : List DemuxSink) {m : Downlink} {r : Received}

theorem receive_escape (he : m.rxEscape = false) (hb : r.byte = vcmuxProtoEscStart) :
    Effect m (m.receive sinks r) m.rxStream true (fun _ => []) [] := by
  have heq : m.receive sinks r = { m with rings := r.clients m.rings, rxEscape := true } := by
    simp [Downlink.receive, consoleMuxFeedDownlinkByte, he, hb]
  rw [heq]
  exact effect_quiet (List.append_nil _).symm (by simp [Quiet])

/-- Bytes outside an escape pair are ignored while no stream is selected. -/
theorem receive_ignored (he : m.rxEscape = false) (hb : r.byte ≠ vcmuxProtoEscStart) (hc : m.rxStream < 0) :
    Effect m (m.receive sinks r) m.rxStream false (fun _ => []) [] := by
  have hneg : ¬ m.rxStream ≥ 0 := by omega
  have heq : m.receive sinks r = { m with rings := r.clients m.rings } := by
    simp [Downlink.receive, consoleMuxFeedDownlinkByte, he, hb, hneg]
  rw [heq]
  exact he ▸ effect_quiet (List.append_nil _).symm (by simp [Quiet])

theorem receive_literal_ignored (he : m.rxEscape = true) (hb : r.byte = vcmuxProtoEscStart) (hc : m.rxStream < 0) :
    Effect m (m.receive sinks r) m.rxStream false (fun _ => []) [] := by
  have hneg : ¬ m.rxStream ≥ 0 := by omega
  have hne : vcmuxProtoEscStart ≠ vcmuxProtoEscDefault := by decide
  have heq : m.receive sinks r = { m with rings := r.clients m.rings, rxEscape := false } := by
    simp [Downlink.receive, consoleMuxFeedDownlinkByte, he, hb, hne, hneg]
  rw [heq]
  exact effect_quiet (List.append_nil _).symm (by simp [Quiet])

/-- A payload byte of a stream with sink `i`, escaped or not. -/
theorem receive_payload {i : Nat} (hs : consoleMuxSinkForStream sinks m.rxStream = some i) (hc : m.rxStream ≥ 0)
    (hopen : ringsOpen sinks m r) (hp : m.rxEscape = true ↔ r.byte = vcmuxProtoEscStart) :
    Effect m (m.receive sinks r) m.rxStream false (fun j => if j = i then [r.byte] else []) [] := by
  obtain ⟨j, rx, ht, hroom⟩ := hopen m.rxStream i hs
  have hj : j = i := by
    obtain ⟨k, hk, hjk⟩ := Option.bind_eq_some_iff.mp ht
    rw [hs] at hk
    cases hk
    split at hjk
    · obtain ⟨_, _, heq⟩ := Option.map_eq_some_iff.mp hjk
      cases heq
      rfl
    · cases hjk
  subst hj
  have heq : m.receive sinks r = { m with
      rings := Function.update (r.clients m.rings) j (some { rx with
        buf := Function.update rx.buf rx.tail.toNat r.byte, tail := nextTail rx })
      rxEscape := false
      events := m.events ++ [.stored j rx.tail.toNat r.byte] } := by
    cases he : m.rxEscape with
    | true =>
      have hb := hp.mp he
      have hne : vcmuxProtoEscStart ≠ vcmuxProtoEscDefault := by decide
      have hstore := enqueue_stored (m := { m with rings := r.clients m.rings, rxEscape := false }) ht hroom r.byte
      rw [hb] at hstore
      rw [Downlink.receive, consoleMuxFeedDownlinkByte]
      simp only [he, if_true, hb, hne, if_false, hc, hstore]
    | false =>
      have hb : r.byte ≠ vcmuxProtoEscStart := fun hb => by rw [hp.mpr hb] at he; cases he
      have hstore := enqueue_stored (m := { m with rings := r.clients m.rings }) ht hroom r.byte
      rw [Downlink.receive, consoleMuxFeedDownlinkByte]
      rw [he] at hstore
      simp only [he, Bool.false_eq_true, if_false, hb, hc, if_true, hstore]
  rw [heq]
  refine ⟨rfl, rfl, ?_, ?_⟩
  · intro k
    rw [storedTo_append]
    by_cases hk : k = j
    · subst hk; simp [storedTo, Event.storedByte]
    · simp [storedTo, Event.storedByte, hk, Ne.symm hk]
  · rw [acks_append]
    simp [acks, Event.acked]

/-- `fe 00` acknowledges the selected stream and clears the cursor. -/
theorem receive_close (he : m.rxEscape = true) (hb : r.byte = vcmuxProtoEscDefault) :
    Effect m (m.receive sinks r) (-1) false (fun _ => [])
      (if consoleMuxValidStreamId m.rxStream then [m.rxStream] else []) := by
  obtain ⟨es, hes, hq⟩ := emitStreamReady_eq sinks { m with rings := r.clients m.rings, rxEscape := false } m.rxStream
  have heq : m.receive sinks r = { m with
      rings := r.clients m.rings, rxEscape := false, rxStream := -1
      events := m.events ++ es ++ (if consoleMuxValidStreamId m.rxStream then [.ack m.rxStream] else []) } := by
    by_cases hv : consoleMuxValidStreamId m.rxStream = true <;>
      simp [Downlink.receive, consoleMuxFeedDownlinkByte, he, hb, hes, Downlink.acknowledge, consoleMuxEmitDownlinkAck,
        hv, Downlink.record]
  rw [heq]
  refine ⟨rfl, rfl, ?_, ?_⟩
  · intro i
    rw [storedTo_append, storedTo_append, hq.storedTo]
    by_cases hv : consoleMuxValidStreamId m.rxStream = true <;> simp [storedTo, hv, Event.storedByte]
  · rw [acks_append, acks_append, hq.acks]
    by_cases hv : consoleMuxValidStreamId m.rxStream = true <;> simp [acks, hv, Event.acked]

/-- `fe id` selects a stream with a sink, and no stream otherwise. -/
theorem receive_select (he : m.rxEscape = true) (hb : ¬ Reserved r.byte) :
    Effect m (m.receive sinks r)
      (if (consoleMuxSinkForStream sinks r.byte.toNat).isSome then r.byte.toNat else -1) false (fun _ => []) [] := by
  obtain ⟨h0, h1, h2⟩ := not_reserved_iff.mp hb
  obtain ⟨es, hes, hq⟩ := emitStreamReady_eq sinks { m with rings := r.clients m.rings, rxEscape := false } m.rxStream
  by_cases hs : (consoleMuxSinkForStream sinks r.byte.toNat).isSome = true
  · have heq : m.receive sinks r = { m with
        rings := r.clients m.rings, rxEscape := false, rxStream := r.byte.toNat
        events := m.events ++ (es ++ [.selected r.byte.toNat]) } := by
      simp [Downlink.receive, consoleMuxFeedDownlinkByte, he, h0, h1, h2, hes, hs, Downlink.record]
    rw [heq, if_pos hs]
    refine effect_quiet rfl ?_
    intro e hmem
    rcases List.mem_append.mp hmem with hmem | hmem
    · exact hq e hmem
    · rw [List.mem_singleton.mp hmem]
      exact ⟨fun _ => rfl, rfl⟩
  · have heq : m.receive sinks r = { m with
        rings := r.clients m.rings, rxEscape := false, rxStream := -1, events := m.events ++ es } := by
      simp [Downlink.receive, consoleMuxFeedDownlinkByte, he, h0, h1, h2, hes, hs]
    rw [heq, if_neg hs]
    exact effect_quiet rfl hq

end Bytes

/-! ### Tokens and frames -/

/-- The receiver takes the received bytes from `m` to `m'`, with all rings open throughout. -/
abbrev Feeds (sinks : List DemuxSink) (m : Downlink) (received : List Received) (m' : Downlink) : Prop :=
  Machine.Runs (fun m r => some (m.receive sinks r)) (ringsOpen sinks) m received m'

section Frames
variable {sinks : List DemuxSink} {m m' : Downlink} {received : List Received}

theorem Feeds.first {b : Byte} {w : Bytes} (h : Feeds sinks m received m') (hw : received.map Received.byte = b :: w) :
    ∃ r rest, r.byte = b ∧ ringsOpen sinks m r ∧ rest.map Received.byte = w ∧ Feeds sinks (m.receive sinks r) rest m' := by
  obtain ⟨r, rest, rfl, hb, hrest⟩ := List.map_eq_cons_iff.mp hw
  obtain ⟨t, hok, hs, hr⟩ := h.head
  cases hs
  exact ⟨r, rest, hb, hok, hrest, hr⟩

theorem Feeds.done (h : Feeds sinks m received m') (hw : received.map Received.byte = []) : m' = m := by
  rw [List.map_eq_nil_iff.mp hw] at h
  exact h.nil_eq

theorem Feeds.parts {v w : Bytes} (h : Feeds sinks m received m') (hw : received.map Received.byte = v ++ w) :
    ∃ xs ys t, xs.map Received.byte = v ∧ ys.map Received.byte = w ∧ Feeds sinks m xs t ∧ Feeds sinks t ys m' := by
  obtain ⟨xs, ys, rfl, hx, hy⟩ := List.map_eq_append_iff.mp hw
  obtain ⟨t, h₁, h₂⟩ := h.split
  exact ⟨xs, ys, t, hx, hy, h₁, h₂⟩

/-- An escape byte and the byte behind it. -/
theorem Feeds.escaped {b : Byte} {w : Bytes} (h : Feeds sinks m received m')
    (hw : received.map Received.byte = vcmuxProtoEscStart :: b :: w) (he : m.rxEscape = false) :
    ∃ t r rest, Effect m t m.rxStream true (fun _ => []) [] ∧ r.byte = b ∧ ringsOpen sinks t r ∧
      rest.map Received.byte = w ∧ Feeds sinks (t.receive sinks r) rest m' := by
  obtain ⟨r₁, rest₁, hb₁, -, hw₁, h₁⟩ := h.first hw
  obtain ⟨r₂, rest₂, hb₂, hok₂, hw₂, h₂⟩ := h₁.first hw₁
  exact ⟨m.receive sinks r₁, r₂, rest₂, receive_escape sinks he hb₁, hb₂, hok₂, hw₂, h₂⟩

/-- The stuffed payload of a stream with sink `i` is stored as it was. -/
theorem feeds_payload (p : Bytes) {i : Nat} {cur : Int} (h : Feeds sinks m received m')
    (hw : received.map Received.byte = stuff vcmuxProtoEscStart p) (hcur : m.rxStream = cur) (hc : cur ≥ 0)
    (hs : consoleMuxSinkForStream sinks cur = some i) (he : m.rxEscape = false) :
    Effect m m' cur false (fun j => if j = i then p else []) [] := by
  induction p generalizing m received with
  | nil =>
    rw [h.done hw]
    exact ⟨hcur, he, by simp, by simp⟩
  | cons b p ih =>
    by_cases hb : b = vcmuxProtoEscStart
    · subst hb
      rw [stuff_cons_esc] at hw
      obtain ⟨t, r₂, rest₂, e₁, hb₂, hok₂, hw₂, h₂⟩ := h.escaped hw he
      have hcur₁ : t.rxStream = cur := e₁.cur.trans hcur
      have e₂ := receive_payload sinks (by rw [hcur₁]; exact hs) (by rw [hcur₁]; exact hc) hok₂
        (by simp [e₁.escape, hb₂])
      have e₃ := ih h₂ hw₂ (e₂.cur.trans hcur₁) e₂.escape
      refine ((e₁.trans e₂).trans e₃).congr ?_ rfl
      intro j
      by_cases hj : j = i <;> simp [hj, hb₂]
    · rw [stuff_cons_of_ne _ hb] at hw
      obtain ⟨r₁, rest₁, hb₁, hok₁, hw₁, h₁⟩ := h.first hw
      have e₁ := receive_payload sinks (by rw [hcur]; exact hs) (by rw [hcur]; exact hc) hok₁ (by simp [he, hb₁, hb])
      have e₂ := ih h₁ hw₁ (e₁.cur.trans hcur) e₁.escape
      refine (e₁.trans e₂).congr ?_ rfl
      intro j
      by_cases hj : j = i <;> simp [hj, hb₁]

/-- Payload without a selected stream disappears. -/
theorem feeds_ignored (p : Bytes) (h : Feeds sinks m received m')
    (hw : received.map Received.byte = stuff vcmuxProtoEscStart p) (hcur : m.rxStream = -1) (he : m.rxEscape = false) :
    Effect m m' (-1) false (fun _ => []) [] := by
  induction p generalizing m received with
  | nil =>
    rw [h.done hw]
    exact ⟨hcur, he, by simp, by simp⟩
  | cons b p ih =>
    have hneg : m.rxStream < 0 := by omega
    by_cases hb : b = vcmuxProtoEscStart
    · subst hb
      rw [stuff_cons_esc] at hw
      obtain ⟨t, r₂, rest₂, e₁, hb₂, -, hw₂, h₂⟩ := h.escaped hw he
      have e₂ := receive_literal_ignored sinks e₁.escape hb₂ (by rw [e₁.cur]; exact hneg)
      have e₃ := ih h₂ hw₂ (e₂.cur.trans (e₁.cur.trans hcur)) e₂.escape
      exact ((e₁.trans e₂).trans e₃).congr (by simp) rfl
    · rw [stuff_cons_of_ne _ hb] at hw
      obtain ⟨r₁, rest₁, hb₁, -, hw₁, h₁⟩ := h.first hw
      have e₁ := receive_ignored sinks he (by rw [hb₁]; exact hb) hneg
      have e₂ := ih h₁ hw₁ (e₁.cur.trans hcur) e₁.escape
      exact (e₁.trans e₂).congr (by simp) rfl

/-- The sink that a frame on `id` is delivered to. Zero closes a frame and selects nothing. -/
def frameSink (sinks : List DemuxSink) (id : Byte) : Option Nat :=
  if id = vcmuxProtoEscDefault then none else consoleMuxSinkForStream sinks id.toNat

theorem valid_of_selectable {id : Byte} (hid : ¬ Reserved id) : consoleMuxValidStreamId id.toNat = true := by
  obtain ⟨h0, h1, h2⟩ := not_reserved_iff.mp hid
  have hpos : id.toNat ≠ 0 := fun h => h0 (UInt8.toNat_inj.mp h)
  have hfd : id.toNat ≠ 0xfd := fun h => h1 (UInt8.toNat_inj.mp h)
  have hfe : id.toNat ≠ 0xfe := fun h => h2 (UInt8.toNat_inj.mp h)
  have hlt := id.toNat_lt
  simp only [consoleMuxValidStreamId, Bool.and_eq_true, decide_eq_true_eq]
  omega

/-- The first two bytes of a frame. -/
theorem feeds_header {id : Byte} (hid : id = vcmuxProtoEscDefault ∨ ¬ Reserved id) (h : Feeds sinks m received m')
    (hw : received.map Received.byte = [vcmuxProtoEscStart, id]) (hcur : m.rxStream = -1) (he : m.rxEscape = false) :
    Effect m m' (if (frameSink sinks id).isSome then id.toNat else -1) false (fun _ => []) [] := by
  obtain ⟨t, r₂, rest₂, e₁, hb₂, -, hw₂, h₂⟩ := h.escaped hw he
  have hend := h₂.done hw₂
  subst hend
  rcases hid with rfl | hid
  · have e₂ := receive_close sinks e₁.escape hb₂
    have hinv : consoleMuxValidStreamId t.rxStream = false := by
      rw [e₁.cur, hcur]
      rfl
    rw [hinv] at e₂
    simpa [frameSink] using (e₁.trans e₂).congr (t := fun _ => []) (b := []) (by simp) rfl
  · have e₂ := receive_select sinks e₁.escape (by rw [hb₂]; exact hid)
    have hsink : frameSink sinks id = consoleMuxSinkForStream sinks id.toNat := by
      simp [frameSink, (not_reserved_iff.mp hid).1]
    rw [hsink]
    rw [hb₂] at e₂
    exact (e₁.trans e₂).congr (by simp) rfl

theorem feeds_close (h : Feeds sinks m received m')
    (hw : received.map Received.byte = [vcmuxProtoEscStart, vcmuxProtoEscDefault]) (he : m.rxEscape = false) :
    Effect m m' (-1) false (fun _ => []) (if consoleMuxValidStreamId m.rxStream then [m.rxStream] else []) := by
  obtain ⟨t, r₂, rest₂, e₁, hb₂, -, hw₂, h₂⟩ := h.escaped hw he
  have hend := h₂.done hw₂
  subst hend
  have e₂ := receive_close sinks e₁.escape hb₂
  rw [e₁.cur] at e₂
  exact (e₁.trans e₂).congr (by simp) rfl

/-- A frame from the idle state, back to the idle state. -/
theorem feeds_frame {id : Byte} (hid : id = vcmuxProtoEscDefault ∨ ¬ Reserved id) (p : Bytes)
    (h : Feeds sinks m received m') (hw : received.map Received.byte = frameBytes id p)
    (hcur : m.rxStream = -1) (he : m.rxEscape = false) :
    Effect m m' (-1) false (fun j => if frameSink sinks id = some j then p else [])
      (if (frameSink sinks id).isSome then [(id.toNat : Int)] else []) := by
  obtain ⟨front, close, t₂, hfront, hclose, h₁₂, h₃⟩ := h.parts hw
  obtain ⟨head, body, t₁, hhead, hbody, h₁, h₂⟩ := h₁₂.parts hfront
  have e₁ := feeds_header hid h₁ hhead hcur he
  cases hf : frameSink sinks id with
  | none =>
    simp only [hf, Option.isSome_none, Bool.false_eq_true, if_false] at e₁
    have e₂ := feeds_ignored p h₂ hbody e₁.cur e₁.escape
    have e₃ := feeds_close h₃ hclose e₂.escape
    rw [e₂.cur] at e₃
    exact ((e₁.trans e₂).trans e₃).congr (by simp) (by simp [consoleMuxValidStreamId])
  | some i =>
    simp only [hf, Option.isSome_some, if_true] at e₁
    have hsel : ¬ Reserved id := by
      refine hid.resolve_left ?_
      rintro rfl
      simp [frameSink] at hf
    have hs : consoleMuxSinkForStream sinks id.toNat = some i := by
      simpa [frameSink, (not_reserved_iff.mp hsel).1] using hf
    have e₂ := feeds_payload p h₂ hbody e₁.cur (by omega) hs e₁.escape
    have e₃ := feeds_close h₃ hclose e₂.escape
    rw [e₂.cur, valid_of_selectable hsel] at e₃
    refine ((e₁.trans e₂).trans e₃).congr ?_ rfl
    intro j
    by_cases hj : j = i
    · simp [hj]
    · simp [hj, Ne.symm hj]

end Frames

end VirtiosoMux.Camkes
