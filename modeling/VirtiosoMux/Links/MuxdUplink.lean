import Mathlib
import VirtiosoMux.Host.Announce
import VirtiosoMux.Host.LogFiles
import VirtiosoMux.Muxd.Frames

/-! # Uplink from `virtioso-muxd` to the host

Any sequence of frames, announcements, acknowledgements and unframed bytes is taken
apart exactly: every payload is logged by its own stream, in order, whatever bytes it
contains and however the items alternate. The log files are exact if the names that the
clients have chosen lead to files of their own.
-/
namespace VirtiosoMux.MuxdUplink
open Host Muxd

inductive WireItem
  | unframed (bytes : Bytes)
  | data (id : Byte) (payload : Bytes)
  | connected (id : Byte) (name : Bytes)
  | disconnected (id : Byte) (name : Bytes)
  | ack

def WireItem.bytes : WireItem → Bytes
  | .unframed bs => bs
  | .data id p => encodeDataFrame id p []
  | .connected id name => encodeControlFrame vcmuxProtoControlStreamConnected id name []
  | .disconnected id name => encodeControlFrame vcmuxProtoControlStreamDisconnected id name []
  | .ack => ackBytes

def wire (items : List WireItem) : Bytes := items.flatMap WireItem.bytes

/-- Unframed runs hold no escape, announced identifiers are not reserved, and data is
only sent on identifiers announced before (those in `known` or by an earlier item). -/
def Admissible (known : List Byte) : List WireItem → Prop
  | [] => True
  | .unframed bs :: rest => vcmuxProtoEscStart ∉ bs ∧ Admissible known rest
  | .data id _ :: rest => id ∈ known ∧ Admissible known rest
  | .connected id _ :: rest => ¬ Reserved id ∧ Admissible (id :: known) rest
  | .disconnected id _ :: rest => ¬ Reserved id ∧ Admissible known rest
  | .ack :: rest => Admissible known rest

def WireItem.payloadFor (id : Byte) : WireItem → Bytes
  | .data id' p => if id' = id then p else []
  | _ => []

def WireItem.unframedBytes : WireItem → Bytes
  | .unframed bs => bs
  | _ => []

def WireItem.announces : WireItem → List Byte
  | .connected id _ => [id]
  | _ => []

def WireItem.ackCount : WireItem → Nat
  | .ack => 1
  | _ => 0

def payloads (id : Byte) (items : List WireItem) : Bytes := items.flatMap (WireItem.payloadFor id)
def unframed (items : List WireItem) : Bytes := items.flatMap WireItem.unframedBytes
def announced (items : List WireItem) : List Byte := items.flatMap WireItem.announces
def acks (items : List WireItem) : Nat := (items.map WireItem.ackCount).sum

/-- An identifier is entered under the name it is announced with first. -/
def WireItem.enter (known : List (Byte × Bytes)) : WireItem → List (Byte × Bytes)
  | .connected id name => if id ∈ known.map Prod.fst then known else known ++ [(id, cString ((name.take 65534).take 255))]
  | _ => known

def streams (items : List WireItem) : List (Byte × Bytes) := items.foldl WireItem.enter []

def WireItem.connect (t : Table) : WireItem → Table
  | .connected id name => t.connect id (name.take 65534)
  | _ => t

structure Between (h : State) (known : List Byte) : Prop where
  ready : h.Ready
  rest : AtRest h none
  clean : h.table.Clean
  selectable : ∀ id ∈ known, ¬ Reserved id
  known : ∀ id, ¬ Reserved id → ((findVirtiosoPtyIdxByStreamId h.table id).isSome ↔ id ∈ known)

/-- The effect of items on logs and table, read off the items alone. -/
structure Effect (env : Env) (h : State) (items : List WireItem) (h' : State) (known : List Byte) : Prop where
  between : Between h' known
  extends_ : h.table.Extends h'.table
  table : h'.table = items.foldl WireItem.connect h.table
  run : ttyInputHandler env h (wire items) = (h', true)
  carrier : h'.log rawCcplexPtyIdx = h.log rawCcplexPtyIdx ++ wire items
  unframed : h'.log virtiosoDefaultPtyIdx = h.log virtiosoDefaultPtyIdx ++ unframed items
  control : h'.log autopilotControlPtyIdx = h.log autopilotControlPtyIdx
  stream : ∀ id i, ¬ Reserved id → findVirtiosoPtyIdxByStreamId h'.table id = some i →
    h'.log i = h.log i ++ payloads id items
  silent : ∀ id, ¬ Reserved id → findVirtiosoPtyIdxByStreamId h'.table id = none → payloads id items = []
  acks : h'.downlinkAckCount = h.downlinkAckCount + UInt32.ofNat (acks items)

/-- Slots that the first part did not know yet were unused and silent during it. -/
theorem Effect.stream_later {env : Env} {h₁ h₂ : State} {xs : List WireItem} {k : List Byte}
    (a : Effect env h₁ xs h₂ k) (hr : h₁.Ready) {t : Table} (hx : h₂.table.Extends t) {id : Byte} {i : Nat}
    (hid : ¬ Reserved id) (hf : findVirtiosoPtyIdxByStreamId t id = some i) :
    h₂.log i = h₁.log i ++ payloads id xs := by
  cases hf₂ : findVirtiosoPtyIdxByStreamId h₂.table id with
  | some j =>
    have hj : some j = some i := (hx.find hf₂).symm.trans hf
    cases hj
    exact a.stream id i hid hf₂
  | none =>
    have hge : h₂.table.numProc ≤ i := by
      by_contra hlt
      have hv := (find_value hf).2
      rw [hx.tags i (by omega)] at hv
      exact find_eq_none_iff.mp hf₂ i (by omega) hv
    rw [a.silent id hid hf₂, a.between.ready.unused i hge, hr.unused i (a.extends_.numProc.trans hge)]
    rfl

theorem Effect.trans {env : Env} {h₁ h₂ h₃ : State} {xs ys : List WireItem} {k₂ k₃ : List Byte} (hr : h₁.Ready)
    (a : Effect env h₁ xs h₂ k₂) (b : Effect env h₂ ys h₃ k₃) : Effect env h₁ (xs ++ ys) h₃ k₃ := by
  have hw : wire (xs ++ ys) = wire xs ++ wire ys := by simp [wire]
  have hpay : ∀ id, payloads id (xs ++ ys) = payloads id xs ++ payloads id ys := by simp [payloads]
  refine ⟨b.between, a.extends_.trans b.extends_, ?_, ?_, ?_, ?_, ?_, ?_, ?_, ?_⟩
  · rw [b.table, a.table, List.foldl_append]
  · rw [hw, handler_append _ a.run, b.run]
  · rw [b.carrier, a.carrier, hw, List.append_assoc]
  · rw [b.unframed, a.unframed, List.append_assoc]
    simp [MuxdUplink.unframed]
  · rw [b.control, a.control]
  · intro id i hid hf
    rw [b.stream id i hid hf, a.stream_later hr b.extends_ hid hf, List.append_assoc, hpay]
  · intro id hid hf
    have hf₂ : findVirtiosoPtyIdxByStreamId h₂.table id = none := by
      cases hf₂ : findVirtiosoPtyIdxByStreamId h₂.table id with
      | none => rfl
      | some i => rw [b.extends_.find hf₂] at hf; cases hf
    rw [hpay, a.silent id hid hf₂, b.silent id hid hf, List.append_nil]
  · rw [b.acks, a.acks, UInt32.add_assoc, ← UInt32.ofNat_add]
    simp [MuxdUplink.acks]

section Uplink
variable {env : Env} (he : env.Healthy) (hraw : env.virtiosoOuterMode = .raw)
include he hraw

omit he hraw in
/-- An item that keeps the table and delivers `d` has the effect its payloads say. -/
theorem effect_of_segment {h h' : State} {known : List Byte} (hb : Between h known) {item : WireItem}
    {d : Nat → Bytes} (hs : Segment env h item.bytes h' d item.ackCount none) (ht : ∀ t, item.connect t = t)
    (h1 : d autopilotControlPtyIdx = []) (h2 : d virtiosoDefaultPtyIdx = item.unframedBytes)
    (hd : ∀ id i, ¬ Reserved id → findVirtiosoPtyIdxByStreamId h.table id = some i → d i = item.payloadFor id)
    (hn : ∀ id, ¬ Reserved id → findVirtiosoPtyIdxByStreamId h.table id = none → item.payloadFor id = []) :
    Effect env h [item] h' known := by
  have hw : wire [item] = item.bytes := by simp [wire]
  refine ⟨⟨hs.ready, hs.rest, by rw [hs.table]; exact hb.clean, hb.selectable, by rw [hs.table]; exact hb.known⟩,
    by rw [hs.table]; exact Table.Extends.refl _, hs.table.trans (ht h.table).symm, by rw [hw]; exact hs.run,
    ?_, ?_, ?_, ?_, ?_, ?_⟩
  · rw [hs.log, if_pos rfl, hw]
  · rw [hs.log, if_neg (by decide), h2]
    simp [MuxdUplink.unframed]
  · rw [hs.log, if_neg (by decide), h1, List.append_nil]
  · intro id i hid hf
    rw [hs.table] at hf
    have h3 := hb.clean.three_le_of_find hid hf
    rw [hs.log, if_neg (by simp only [rawCcplexPtyIdx]; omega), hd id i hid hf]
    simp [payloads]
  · intro id hid hf
    rw [hs.table] at hf
    simpa [payloads] using hn id hid hf
  · simpa [MuxdUplink.acks] using hs.acks

/-- An announcement delivers nothing; a new identifier becomes known. -/
theorem effect_announce {h : State} {known : List Byte} (hb : Between h known) {item : WireItem} {kind id : Byte}
    {name : Bytes} (hid : ¬ Reserved id)
    (hitem : (kind = vcmuxProtoControlStreamConnected ∧ item = .connected id name) ∨
      (kind = vcmuxProtoControlStreamDisconnected ∧ item = .disconnected id name)) :
    ∃ h', Effect env h [item] h' (item.announces ++ known) := by
  have hk : kind = vcmuxProtoControlStreamConnected ∨ kind = vcmuxProtoControlStreamDisconnected :=
    hitem.imp And.left And.left
  have hlen : (name.take 65534).length + 1 < 65536 := by simp only [List.length_take]; omega
  obtain ⟨h', c, r, ht, -⟩ := consumes_announce he hraw hb.ready hb.rest hk id (name.take 65534) hlen
  have hbytes : item.bytes = recordBytes kind (id :: name.take 65534) := by
    rcases hitem with ⟨rfl, rfl⟩ | ⟨rfl, rfl⟩ <;> simp [WireItem.bytes, encodeControlFrame_eq]
  have hw : wire [item] = recordBytes kind (id :: name.take 65534) := by simp [wire, hbytes]
  have hun : MuxdUplink.unframed [item] = [] := by
    rcases hitem with ⟨-, rfl⟩ | ⟨-, rfl⟩ <;> rfl
  have hpay : ∀ id', payloads id' [item] = [] := by
    intro id'
    rcases hitem with ⟨-, rfl⟩ | ⟨-, rfl⟩ <;> rfl
  have hack : MuxdUplink.acks [item] = 0 := by
    rcases hitem with ⟨-, rfl⟩ | ⟨-, rfl⟩ <;> rfl
  have hlog : ∀ i, i ≠ rawCcplexPtyIdx → h'.log i = h.log i := by
    intro i hi
    rw [c.log, if_neg hi, List.append_nil]
  have hconnect : h'.table = item.connect h.table := by
    rcases hitem with ⟨rfl, rfl⟩ | ⟨rfl, rfl⟩
    · rw [ht]
      exact if_pos rfl
    · exact ht
  have hbetween : Between h' (item.announces ++ known) ∧ h.table.Extends h'.table := by
    rcases hitem with ⟨rfl, rfl⟩ | ⟨rfl, rfl⟩
    · have ht : h'.table = h.table.connect id (name.take 65534) := by rw [ht]; simp [announce]
      have hx : h.table.Extends h'.table := by rw [ht]; exact extends_connect _ _ _
      refine ⟨⟨c.ready, r, by rw [ht]; exact hb.clean.connect (.inr hid) _, ?_, ?_⟩, hx⟩
      · intro id' hid'
        rcases List.mem_cons.mp hid' with rfl | hid'
        · exact hid
        · exact hb.selectable id' hid'
      · intro id' hid'
        simp only [WireItem.announces, List.cons_append, List.nil_append, List.mem_cons]
        by_cases heq : id' = id
        · subst heq
          rw [ht, hb.clean.find_connect_self]
          simp
        · rw [ht, hb.clean.find_connect_of_ne heq, hb.known id' hid']
          simp [heq]
    · have ht : h'.table = h.table := ht
      refine ⟨⟨c.ready, r, by rw [ht]; exact hb.clean, hb.selectable, by rw [ht]; exact hb.known⟩, ?_⟩
      rw [ht]
      exact Table.Extends.refl _
  refine ⟨h', ⟨hbetween.1, hbetween.2, hconnect, by rw [hw]; exact c.run, ?_, ?_, ?_, ?_, fun id' _ _ => hpay id', ?_⟩⟩
  · rw [c.log, if_pos rfl, hw]
  · rw [hlog _ (by decide), hun, List.append_nil]
  · rw [hlog _ (by decide)]
  · intro id' i hid' hf
    have h3 := hbetween.1.clean.three_le_of_find hid' hf
    rw [hlog i (by simp only [rawCcplexPtyIdx]; omega), hpay, List.append_nil]
  · rw [c.acks, hack]

/-- One admissible item, from a state between items. -/
theorem effect_item {h : State} {known : List Byte} (hb : Between h known) {item : WireItem} {rest : List WireItem}
    (hadm : Admissible known (item :: rest)) :
    ∃ h', Effect env h [item] h' (item.announces ++ known) ∧ Admissible (item.announces ++ known) rest := by
  have hslot : ∀ {id : Byte} {i : Nat}, ¬ Reserved id → findVirtiosoPtyIdxByStreamId h.table id = some i →
      i ≠ rawCcplexPtyIdx ∧ i ≠ autopilotControlPtyIdx ∧ i ≠ virtiosoDefaultPtyIdx := by
    intro id i hid hf
    have := hb.clean.three_le_of_find hid hf
    simp only [rawCcplexPtyIdx, autopilotControlPtyIdx, virtiosoDefaultPtyIdx]
    omega
  cases item with
  | unframed bs =>
    obtain ⟨h', s⟩ := segment_unframed_run he hraw hb.ready hb.rest rfl bs hadm.1
    refine ⟨h', effect_of_segment hb s (fun _ => rfl) (only_of_ne (by decide) _) (only_self _ _) ?_ (fun _ _ _ => rfl), hadm.2⟩
    intro id i hid hf
    exact only_of_ne (hslot hid hf).2.2 _
  | data id p =>
    obtain ⟨hmem, hadm⟩ := hadm
    have hid := hb.selectable id hmem
    obtain ⟨i, hf⟩ := Option.isSome_iff_exists.mp ((hb.known id hid).mpr hmem)
    obtain ⟨h0, h1, h2⟩ := hslot hid hf
    obtain ⟨h', s⟩ := segment_frame he hraw hb.ready hb.rest hid hf h0 p
    have hbytes : (WireItem.data id p).bytes = frameBytes id p := by simp [WireItem.bytes, encodeDataFrame_eq]
    rw [← hbytes] at s
    refine ⟨h', effect_of_segment hb s (fun _ => rfl) (only_of_ne h1.symm _) (only_of_ne h2.symm _) ?_ ?_, hadm⟩
    · -- slots and identifiers correspond, so the payload lands in one slot only
      intro id' i' hid' hf'
      by_cases heq : id = id'
      · subst heq
        have : i' = i := Option.some.inj (hf'.symm.trans hf)
        simp [WireItem.payloadFor, this]
      · have hne : i' ≠ i := by
          rintro rfl
          exact heq ((find_value hf).2.symm.trans (find_value hf').2)
        simp [WireItem.payloadFor, heq, only_of_ne hne]
    · intro id' hid' hf'
      have hne : id ≠ id' := by
        rintro rfl
        rw [hf] at hf'; cases hf'
      simp [WireItem.payloadFor, hne]
  | connected id name =>
    obtain ⟨h', e⟩ := effect_announce he hraw hb hadm.1 (.inl ⟨rfl, rfl⟩)
    exact ⟨h', e, hadm.2⟩
  | disconnected id name =>
    obtain ⟨h', e⟩ := effect_announce he hraw hb hadm.1 (.inr ⟨rfl, rfl⟩)
    exact ⟨h', e, hadm.2⟩
  | ack =>
    obtain ⟨h', s⟩ := segment_ack he hraw hb.ready hb.rest
    exact ⟨h', effect_of_segment hb s (fun _ => rfl) rfl rfl (fun _ _ _ _ => rfl) (fun _ _ _ => rfl), hadm⟩

theorem effect_items (items : List WireItem) {h : State} {known : List Byte} (hb : Between h known)
    (hadm : Admissible known items) :
    ∃ h' known', Effect env h items h' known' ∧ ∀ id, id ∈ known' ↔ id ∈ known ∨ id ∈ announced items := by
  induction items generalizing h known with
  | nil =>
    refine ⟨h, known, ⟨hb, Table.Extends.refl _, rfl, rfl, ?_, ?_, rfl, ?_, fun _ _ _ => rfl, ?_⟩, by simp [announced]⟩
    all_goals simp [wire, unframed, payloads, acks]
  | cons item rest ih =>
    obtain ⟨h₁, e₁, hadm₁⟩ := effect_item he hraw hb hadm
    obtain ⟨h₂, known₂, e₂, hk⟩ := ih e₁.between hadm₁
    refine ⟨h₂, known₂, e₁.trans hb.ready e₂, ?_⟩
    intro id
    rw [hk id]
    simp only [announced, List.mem_append, List.flatMap_cons]
    tauto

omit hraw in
theorem between_start : Between (start env) [] := by
  obtain ⟨ht, hp, hr, -, -, -⟩ := start_healthy he
  refine ⟨hr, ⟨by rw [hp]; rfl, by rw [hp]; rfl, by rw [hp]; rfl, by rw [hp]; rfl⟩, ?_, by simp, ?_⟩
  · rw [ht]; exact initVirtiosoTags_clean
  · intro id hid
    have hnone : findVirtiosoPtyIdxByStreamId initVirtiosoTags id = none := by
      refine find_eq_none_iff.mpr ?_
      intro i hi hv
      rw [initVirtiosoTags_clean.zero i hi] at hv
      exact (not_reserved_iff.mp hid).1 hv.symm
    simp [ht, hnone]

/-- From the initial state, an admissible wire leaves every stream with exactly the payloads of its
frames logged, the unframed bytes on `physical_uart_default`, a verbatim copy on `raw_ccplex`,
nothing on `autopilot_control`, and the parser idle. The registered streams are exactly the
announced ones. -/
theorem uplink_slots (items : List WireItem) (hadm : Admissible [] items) :
    ∃ h, ttyInputHandler env (start env) (wire items) = (h, true) ∧
      (∀ id, ¬ Reserved id → ((findVirtiosoPtyIdxByStreamId h.table id).isSome ↔ id ∈ announced items)) ∧
      (∀ id i, ¬ Reserved id → findVirtiosoPtyIdxByStreamId h.table id = some i → h.log i = payloads id items) ∧
      h.log virtiosoDefaultPtyIdx = unframed items ∧
      h.log rawCcplexPtyIdx = wire items ∧
      h.log autopilotControlPtyIdx = [] ∧
      AtRest h none ∧
      h.downlinkAckCount = UInt32.ofNat (acks items) ∧
      h.Ready ∧ h.table = items.foldl WireItem.connect initVirtiosoTags := by
  obtain ⟨h, known, e, hk⟩ := effect_items he hraw items (between_start he) hadm
  obtain ⟨htable, -, -, hlog, hack, -⟩ := start_healthy he
  refine ⟨h, e.run, ?_, ?_, ?_, ?_, ?_, e.between.rest, ?_, e.between.ready, ?_⟩
  · intro id hid
    rw [e.between.known id hid, hk id]
    simp
  · intro id i hid hf
    rw [e.stream id i hid hf, hlog, List.nil_append]
  · rw [e.unframed, hlog, List.nil_append]
  · rw [e.carrier, hlog, List.nil_append]
  · rw [e.control, hlog]
  · rw [e.acks, hack, UInt32.zero_add]
  · rw [e.table, htable]

end Uplink

/-! ### The names in the table -/

def builtins : List (Byte × Bytes) := [(0, rawCcplexPty), (0, autopilotControlPty), (0, physicalUartDefaultPty)]

/-- The entries of the table have these values and names. -/
structure Listed (t : Table) (xs : List (Byte × Bytes)) : Prop where
  clean : t.Clean
  count : t.numProc = xs.length
  entry : ∀ i (hi : i < xs.length), t.tags i = ⟨some xs[i].2, xs[i].1⟩

theorem listed_start : Listed initVirtiosoTags builtins := by
  refine ⟨initVirtiosoTags_clean, rfl, ?_⟩
  intro i hi
  match i, hi with
  | 0, _ => rfl
  | 1, _ => rfl
  | 2, _ => rfl

theorem Listed.find_eq_none {t : Table} {xs : List (Byte × Bytes)} (hl : Listed t xs) {id : Byte} :
    findVirtiosoPtyIdxByStreamId t id = none ↔ id ∉ xs.map Prod.fst := by
  rw [find_eq_none_iff, hl.count]
  constructor
  · intro hnone hmem
    obtain ⟨i, hi, heq⟩ := List.getElem_of_mem hmem
    rw [List.length_map] at hi
    apply hnone i hi
    rw [hl.entry i hi, ← heq, List.getElem_map]
  · intro hnot i hi heq
    apply hnot
    rw [hl.entry i hi] at heq
    exact List.mem_map.mpr ⟨xs[i], List.getElem_mem hi, heq⟩

theorem Listed.connect {t : Table} {xs : List (Byte × Bytes)} (hl : Listed t (builtins ++ xs)) {id : Byte}
    (hid : ¬ Reserved id) (name : Bytes) : Listed (t.connect id name)
      (builtins ++ if id ∈ xs.map Prod.fst then xs else xs ++ [(id, cString (name.take 255))]) := by
  have hzero : id ∉ builtins.map Prod.fst := by
    have hne := (not_reserved_iff.mp hid).1
    simpa [builtins] using hne
  have hmem : id ∈ (builtins ++ xs).map Prod.fst ↔ id ∈ xs.map Prod.fst := by
    rw [List.map_append, List.mem_append]
    exact or_iff_right hzero
  by_cases hknown : id ∈ xs.map Prod.fst
  · rw [if_pos hknown]
    obtain ⟨i, hf⟩ := Option.ne_none_iff_exists'.mp (fun hnone => hl.find_eq_none.mp hnone (hmem.mpr hknown))
    rw [connect_known hf]
    exact hl
  · rw [if_neg hknown, ← List.append_assoc]
    have hnone := hl.find_eq_none.mpr (fun hin => hknown (hmem.mp hin))
    refine ⟨hl.clean.connect (.inr hid) name, ?_, ?_⟩
    · rw [hl.clean.connect_new hnone, List.length_append, ← hl.count]
      rfl
    · intro i hi
      rw [hl.clean.connect_new hnone]
      by_cases hlast : i = t.numProc
      · subst hlast
        simp [hl.count]
      · have hlt : i < (builtins ++ xs).length := by
          rw [List.length_append, ← hl.count, List.length_singleton] at hi
          rw [← hl.count]
          omega
        rw [List.getElem_append_left hlt, ← hl.entry i hlt]
        exact Function.update_of_ne hlast _ _

/-- Admissible items leave the streams entered behind the built-in entries. -/
theorem Listed.items (items : List WireItem) {known : List Byte} (hadm : Admissible known items) {t : Table}
    {xs : List (Byte × Bytes)} (hl : Listed t (builtins ++ xs)) :
    Listed (items.foldl WireItem.connect t) (builtins ++ items.foldl WireItem.enter xs) := by
  induction items generalizing known t xs with
  | nil => exact hl
  | cons item rest ih =>
    cases item with
    | connected id name => exact ih hadm.2 (hl.connect hadm.1 (name.take 65534))
    | unframed bs => exact ih hadm.2 hl
    | data id p => exact ih hadm.2 hl
    | disconnected id name => exact ih hadm.2 hl
    | ack => exact ih hadm hl

/-! ### The log files -/

/-- The name of each entry of the table, and what belongs to its log. -/
def entries (items : List WireItem) : List (Bytes × Bytes) :=
  (rawCcplexPty, wire items) :: (autopilotControlPty, []) :: (physicalUartDefaultPty, unframed items) ::
    (streams items).map (fun s => (s.2, payloads s.1 items))

/-- Nothing belongs to two logs that are one file. -/
def LogsApart (workingDirectory : List Bytes) (dir : Bytes) (entries : List (Bytes × Bytes)) : Prop :=
  entries.Pairwise (fun a b => logPath workingDirectory dir a.1 = logPath workingDirectory dir b.1 → a.2 = [] ∧ b.2 = [])

instance (workingDirectory : List Bytes) (dir : Bytes) (entries : List (Bytes × Bytes)) :
    Decidable (LogsApart workingDirectory dir entries) :=
  inferInstanceAs (Decidable (List.Pairwise _ _))

theorem logsApart_iff {workingDirectory : List Bytes} {dir : Bytes} {xs : List (Bytes × Bytes)} :
    LogsApart workingDirectory dir xs ↔ ∀ i (hi : i < xs.length) j (hj : j < xs.length), j ≠ i →
      logPath workingDirectory dir xs[j].1 = logPath workingDirectory dir xs[i].1 → xs[j].2 = [] := by
  constructor
  · intro hpairs i hi j hj hne hsame
    rcases Nat.lt_or_gt_of_ne hne with hlt | hgt
    · exact (List.pairwise_iff_getElem.mp hpairs j i hj hi hlt hsame).1
    · exact (List.pairwise_iff_getElem.mp hpairs i j hi hj hgt hsame.symm).2
  · intro hall
    refine List.pairwise_iff_getElem.mpr ?_
    intro i j hi hj hlt hsame
    exact ⟨hall j hj i hi (Nat.ne_of_lt hlt) hsame, hall i hi j hj (Nat.ne_of_gt hlt) hsame.symm⟩

structure UplinkExact (workingDirectory : List Bytes) (dir : Bytes) (env : Env) (items : List WireItem) (h : State) :
    Prop where
  registered : ∀ id, ¬ Reserved id → ((findVirtiosoPtyIdxByStreamId h.table id).isSome ↔ id ∈ announced items)
  stream : ∀ id i, ¬ Reserved id → findVirtiosoPtyIdxByStreamId h.table id = some i →
    logFile workingDirectory env (wire items) (h.table.entryLog workingDirectory dir i) = payloads id items
  unframed : logFile workingDirectory env (wire items) (logPath workingDirectory dir physicalUartDefaultPty) = unframed items
  carrier : logFile workingDirectory env (wire items) (logPath workingDirectory dir rawCcplexPty) = wire items
  control : logFile workingDirectory env (wire items) (logPath workingDirectory dir autopilotControlPty) = []
  idle : AtRest h none
  acks : h.downlinkAckCount = UInt32.ofNat (acks items)

section Files
variable {env : Env} (he : env.Healthy) (hraw : env.virtiosoOuterMode = .raw)

/-- The entries are those of the table, with what their slots have logged. -/
structure Holds (h : State) (items : List WireItem) : Prop where
  count : h.table.numProc = (entries items).length
  name : ∀ i (hi : i < (entries items).length), (h.table.tags i).name = some (entries items)[i].1
  log : ∀ i (hi : i < (entries items).length), h.log i = (entries items)[i].2

theorem holds_entries {h : State} {items : List WireItem} (hl : Listed h.table (builtins ++ streams items))
    (hstream : ∀ id i, ¬ Reserved id → findVirtiosoPtyIdxByStreamId h.table id = some i → h.log i = payloads id items)
    (hdefault : h.log virtiosoDefaultPtyIdx = unframed items) (hcarrier : h.log rawCcplexPtyIdx = wire items)
    (hcontrol : h.log autopilotControlPtyIdx = []) : Holds h items := by
  have hcount : h.table.numProc = (entries items).length := by
    rw [hl.count]
    simp [entries, builtins]
  have hslot : ∀ i (hi : i < (entries items).length),
      (h.table.tags i).name = some (entries items)[i].1 ∧ h.log i = (entries items)[i].2 := by
    intro i hi
    have hlt : i < (builtins ++ streams items).length := by rwa [← hl.count, hcount]
    have htag := hl.entry i hlt
    match i, hi with
    | 0, _ => exact ⟨by rw [htag]; rfl, hcarrier⟩
    | 1, _ => exact ⟨by rw [htag]; rfl, hcontrol⟩
    | 2, _ => exact ⟨by rw [htag]; rfl, hdefault⟩
    | k + 3, hi =>
      have hk : k < (streams items).length := by
        simp only [List.length_append, builtins, List.length_cons, List.length_nil] at hlt
        omega
      have htag : h.table.tags (k + 3) = ⟨some (streams items)[k].2, (streams items)[k].1⟩ := htag
      have hin : k + 3 < h.table.numProc := by rwa [hcount]
      have hfind := hl.clean.find_slot (show 3 ≤ k + 3 by omega) hin
      have hid := hl.clean.selectable (k + 3) (by omega) hin
      rw [htag] at hfind hid
      have hlog := hstream _ _ hid hfind
      have hentry : (entries items)[k + 3] = ((streams items)[k].2, payloads (streams items)[k].1 items) := by
        simp [entries]
      rw [hentry, htag]
      exact ⟨rfl, hlog⟩
  exact ⟨hcount, fun i hi => (hslot i hi).1, fun i hi => (hslot i hi).2⟩

section Holds
variable {h : State} {items : List WireItem} (hh : Holds h items)
include hh

theorem Holds.entryLog (workingDirectory : List Bytes) (dir : Bytes) (i : Nat) (hi : i < (entries items).length) :
    h.table.entryLog workingDirectory dir i = logPath workingDirectory dir (entries items)[i].1 := by
  rw [Table.entryLog, hh.name i hi, Option.getD_some]

theorem Holds.builtin_entryLog (workingDirectory : List Bytes) (dir : Bytes) :
    h.table.entryLog workingDirectory dir rawCcplexPtyIdx = logPath workingDirectory dir rawCcplexPty ∧
    h.table.entryLog workingDirectory dir autopilotControlPtyIdx = logPath workingDirectory dir autopilotControlPty ∧
    h.table.entryLog workingDirectory dir virtiosoDefaultPtyIdx = logPath workingDirectory dir physicalUartDefaultPty := by
  have hlen : 3 ≤ (entries items).length := by simp [entries]
  exact ⟨hh.entryLog workingDirectory dir 0 (by omega), hh.entryLog workingDirectory dir 1 (by omega),
    hh.entryLog workingDirectory dir 2 (by omega)⟩

/-- Each file is the log of its slot if and only if nothing belongs to two logs that are one file. -/
theorem Holds.files_iff {dir : Bytes} (hsave : env.saveOutputPath = some dir) (hopen : env.OpensBuiltins)
    (hrun : ttyInputHandler env (start env) (wire items) = (h, true)) (hready : h.Ready) (workingDirectory : List Bytes) :
    (∀ i < h.table.numProc, logFile workingDirectory env (wire items) (h.table.entryLog workingDirectory dir i) = h.log i) ↔
      LogsApart workingDirectory dir (entries items) := by
  have hpath := hh.entryLog workingDirectory dir
  rw [logFiles_eq_iff hsave hopen hrun hready.logFd, logsApart_iff, hh.count]
  constructor
  · intro hall i hi j hj hne hsame
    rw [← hh.log j hj]
    exact hall i hi j hj hne (by rw [hpath i hi, hpath j hj, hsame])
  · intro hall i hi j hj hne hsame
    rw [hh.log j hj]
    exact hall i hi j hj hne (by rw [← hpath i hi, ← hpath j hj, hsame])

end Holds

include he hraw

/-- The log files are exact if and only if no two names lead to one file that something belongs to. -/
theorem uplink_exact_iff {dir : Bytes} (hsave : env.saveOutputPath = some dir) (workingDirectory : List Bytes)
    (items : List WireItem) (hadm : Admissible [] items) :
    (∃ h, ttyInputHandler env (start env) (wire items) = (h, true) ∧ UplinkExact workingDirectory dir env items h) ↔
      LogsApart workingDirectory dir (entries items) := by
  obtain ⟨h, hrun, hreg, hstream, hdefault, hcarrier, hcontrol, hrest, hacks, hready, htable⟩ :=
    uplink_slots he hraw items hadm
  have hl : Listed h.table (builtins ++ streams items) := by
    rw [htable]
    exact Listed.items items hadm (listed_start : Listed _ (builtins ++ []))
  have hh : Holds h items := holds_entries hl hstream hdefault hcarrier hcontrol
  obtain ⟨hcarrierPath, hcontrolPath, hdefaultPath⟩ := hh.builtin_entryLog workingDirectory dir
  rw [← hh.files_iff hsave he.opensBuiltins hrun hready workingDirectory]
  constructor
  · rintro ⟨h', hrun', hexact⟩ i hi
    have heq : h' = h := congrArg Prod.fst (hrun'.symm.trans hrun)
    subst heq
    rcases i with _ | _ | _ | k
    · exact (congrArg _ hcarrierPath).trans (hexact.carrier.trans hcarrier.symm)
    · exact (congrArg _ hcontrolPath).trans (hexact.control.trans hcontrol.symm)
    · exact (congrArg _ hdefaultPath).trans (hexact.unframed.trans hdefault.symm)
    · have hfind := hl.clean.find_slot (show 3 ≤ k + 3 by omega) hi
      have hid := hl.clean.selectable (k + 3) (by omega) hi
      rw [hstream _ _ hid hfind]
      exact hexact.stream _ _ hid hfind
  · intro hall
    have hbuiltin : ∀ i < 3, i < h.table.numProc := fun i hi => Nat.lt_of_lt_of_le hi hready.builtin
    refine ⟨h, hrun, hreg, ?_, ?_, ?_, ?_, hrest, hacks⟩
    · intro id i hid hf
      rw [hall i (find_value hf).1, hstream id i hid hf]
    · rw [← hdefaultPath, hall virtiosoDefaultPtyIdx (hbuiltin 2 (by decide)), hdefault]
    · rw [← hcarrierPath, hall rawCcplexPtyIdx (hbuiltin 0 (by decide)), hcarrier]
    · rw [← hcontrolPath, hall autopilotControlPtyIdx (hbuiltin 1 (by decide)), hcontrol]

end Files

/-- Boot output, a session whose payload holds every protocol byte, and an acknowledgement. -/
def oneSessionWire : List WireItem :=
  [.unframed (ascii "boot"), .connected 1 (ascii "vm0"), .data 1 [0xfe, 0xfd, 0x00, 0xff], .ack,
   .disconnected 1 (ascii "vm0")]

theorem uplink_exact_iff_oneSessionWire : ∃ h,
    ttyInputHandler quietEnv (start quietEnv) (wire oneSessionWire) = (h, true) ∧
    UplinkExact [] (ascii "logs") quietEnv oneSessionWire h := by
  have hadm : Admissible [] oneSessionWire := by
    simp only [Admissible, oneSessionWire]
    decide
  exact (uplink_exact_iff quietEnv_healthy rfl rfl [] oneSessionWire hadm).mpr (by decide +kernel)

/-- A client that calls itself `raw_ccplex`, and one byte from it. -/
def rawCcplexWire : List WireItem := [.connected 1 rawCcplexPty, .data 1 [0x41]]

/-- The byte is appended to the copy of the wire. -/
theorem raw_ccplex_not_exact : ¬ ∃ h, ttyInputHandler quietEnv (start quietEnv) (wire rawCcplexWire) = (h, true) ∧
    UplinkExact [] (ascii "logs") quietEnv rawCcplexWire h := by
  rintro ⟨h, -, hexact⟩
  have hfile := hexact.carrier
  revert hfile
  decide +kernel

end VirtiosoMux.MuxdUplink
