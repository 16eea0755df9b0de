import VirtiosoMux.Links.CamkesUplink
import VirtiosoMux.Links.RegistryCodec

/-! # The registry before the data

The registry goes out when the first payload is due, and only then. A registry that does not fit
the frame buffer is left out, and the flag that it has been sent is set all the same.
-/
namespace VirtiosoMux.CamkesUplink
open Host Camkes

def lineCalls (items : List LineItem) : List Bytes :=
  items.flatMap (fun item =>
    match item with
    | .call bytes => [bytes]
    | .ack streamId => consoleMuxEmitDownlinkAck streamId)

def StartsRegistry (call : Bytes) : Prop :=
  call.take 3 = [vcmuxProtoEscStart, vcmuxProtoEscControl, vcmuxProtoControlStreamRegistry]

def StartsData (call : Bytes) : Prop := ∃ id, ¬ Reserved id ∧ call.take 2 = [vcmuxProtoEscStart, id]

def RegistryRecord (json call : Bytes) : Prop :=
  ∃ hi lo : Byte, call = [vcmuxProtoEscStart, vcmuxProtoEscControl, vcmuxProtoControlStreamRegistry, hi, lo] ++ json ∧
    hi.toNat * 256 + lo.toNat = json.length

/-- The one registry record of the line is that of `json`, and no data precedes it. -/
def RegistryFirst (json : Bytes) (calls : List Bytes) : Prop :=
  ∃ before record after, calls = before ++ record :: after ∧ RegistryRecord json record ∧
    (∀ call ∈ before, ¬ StartsData call ∧ ¬ StartsRegistry call) ∧ ∀ call ∈ after, ¬ StartsRegistry call

theorem RegistryRecord.starts {json call : Bytes} (h : RegistryRecord json call) : StartsRegistry call := by
  obtain ⟨hi, lo, rfl, -⟩ := h
  rfl

theorem registryRecord_recordBytes {json : Bytes} (hlen : json.length < 65536) :
    RegistryRecord json (recordBytes vcmuxProtoControlStreamRegistry json) := by
  refine ⟨lenHi json.length, lenLo json.length, rfl, ?_⟩
  have hlen := len_bytes hlen
  rw [← Nat.shiftLeft_add_eq_or_of_lt (UInt8.toNat_lt _), Nat.shiftLeft_eq] at hlen
  omega

/-- A chunk of a stream is no record. -/
theorem chunk_not_registry {c : Chunk} (hid : ∀ id ∈ c.streams, ¬ Reserved id) : ¬ StartsRegistry c.bytes := by
  have hopen : ∀ (id : Byte) (rest : Bytes), ¬ Reserved id → ¬ StartsRegistry ([vcmuxProtoEscStart, id] ++ rest) := by
    intro id rest hres hstart
    have hsecond : id = vcmuxProtoEscControl := by
      have hget := congrArg (fun l : Bytes => l[1]?) hstart
      simpa using hget
    exact (not_reserved_iff.mp hres).2.1 hsecond
  cases c with
  | opened id part => exact hopen id _ (hid id (by simp [Chunk.streams]))
  | closed id part =>
    rw [Chunk.bytes, frameBytes, List.append_assoc]
    exact hopen id _ (hid id (by simp [Chunk.streams]))
  | close => simp [Chunk.bytes, StartsRegistry]

theorem chunks_not_registry {cs : List Chunk} (hids : ∀ c ∈ cs, ∀ id ∈ c.streams, ¬ Reserved id) :
    ∀ call ∈ cs.map Chunk.bytes, ¬ StartsRegistry call := by
  intro call hcall
  obtain ⟨c, hc, rfl⟩ := List.mem_map.mp hcall
  exact chunk_not_registry (hids c hc)

theorem ack_calls {streamId : Int} {call : Bytes} (hcall : call ∈ consoleMuxEmitDownlinkAck streamId) :
    ¬ StartsData call ∧ ¬ StartsRegistry call := by
  unfold consoleMuxEmitDownlinkAck at hcall
  split at hcall
  · cases List.mem_singleton.mp hcall
    refine ⟨?_, by unfold StartsRegistry; decide⟩
    rintro ⟨id, hres, htake⟩
    have hid : vcmuxProtoEscControl = id := by simpa using htake
    exact hres (.inr (.inl hid.symm))
  · simp at hcall

structure DataBatch (b : BatchBuffer) : Prop extends b.Proper where
  payload : b.payload ≠ []

theorem DataBatch.id {b : BatchBuffer} (hb : DataBatch b) : ¬ Reserved b.id := by
  have hvalid := hb.stream
  simp only [consoleMuxValidStreamId, Bool.and_eq_true, decide_eq_true_eq] at hvalid
  obtain ⟨⟨⟨hpos, hmax⟩, hesc⟩, hctrl⟩ := hvalid
  exact not_reserved_ofNat (by omega) (by omega) (by omega) (by omega)

theorem batchCalls_data (json : Bytes) {batches : List BatchBuffer} (hne : batches ≠ []) (hb : ∀ b ∈ batches, DataBatch b) :
    ∃ cs : List Chunk, cs ≠ [] ∧ (∀ c ∈ cs, ∀ id ∈ c.streams, ¬ Reserved id) ∧
      batchCalls json false batches = consoleMuxEmitRegistry json ++ cs.map Chunk.bytes := by
  obtain ⟨cs, hcalls, hpay, hstreams, -⟩ := batchCalls_chunks json false batches (fun b h => (hb b h).toProper)
  have hcs : cs ≠ [] := by
    rintro rfl
    obtain ⟨b, hmem⟩ := List.exists_mem_of_ne_nil batches hne
    have hnone := hpay b.id
    rw [List.flatMap_nil, eq_comm, List.flatMap_eq_nil_iff] at hnone
    have hb' := hnone b hmem
    rw [if_pos rfl] at hb'
    exact (hb b hmem).payload hb'
  refine ⟨cs, hcs, ?_, by rw [hcalls, if_neg hcs]; rfl⟩
  intro c hc id hid
  obtain ⟨b, hmem, rfl⟩ := hstreams c hc id hid
  exact (hb b hmem).id

/-- Where no call of the batches is a registry, none of the line is. -/
theorem lineCalls_not_registry {items : List LineItem}
    (hcalls : ∀ call ∈ items.filterMap LineItem.callBytes, ¬ StartsRegistry call) :
    ∀ call ∈ lineCalls items, ¬ StartsRegistry call := by
  intro call hcall
  obtain ⟨item, hitem, hmem⟩ := List.mem_flatMap.mp hcall
  cases item with
  | call bytes =>
    cases List.mem_singleton.mp hmem
    exact hcalls _ (List.mem_filterMap.mpr ⟨.call _, hitem, rfl⟩)
  | ack streamId => exact (ack_calls hmem).2

/-- Before the first call of a batch there are acknowledgements only. -/
theorem lineCalls_acks {items : List LineItem} (hnone : ∀ item ∈ items, item.callBytes = none) :
    ∀ call ∈ lineCalls items, ¬ StartsData call ∧ ¬ StartsRegistry call := by
  intro call hcall
  obtain ⟨item, hitem, hmem⟩ := List.mem_flatMap.mp hcall
  cases item with
  | call bytes => exact absurd (hnone _ hitem) (by simp [LineItem.callBytes])
  | ack streamId => exact ack_calls hmem

section Line
variable {json : Bytes} {batches : List BatchBuffer} (hne : batches ≠ []) (hb : ∀ b ∈ batches, DataBatch b)
  {items : List LineItem} (hitems : items.filterMap LineItem.callBytes = batchCalls json false batches)
include hne hb hitems

/-- A registry that does not fit the buffer is left out, and then no call of the line is one. -/
theorem RegistryFirst.fits (hfirst : RegistryFirst json (lineCalls items)) : json.length ≤ 4083 := by
  obtain ⟨cs, -, hids, hcalls⟩ := batchCalls_data json hne hb
  obtain ⟨before, record, after, hline, hrecord, -, -⟩ := hfirst
  by_contra hlong
  have hskip : consoleMuxEmitRegistry json = [] := by
    have hfull : json.length > 0xffff ∨ json.length + 5 > frameSize := by
      simp only [frameSize]
      omega
    simp only [consoleMuxEmitRegistry, if_pos hfull]
  rw [hcalls, hskip, List.nil_append] at hitems
  have hnone := lineCalls_not_registry (by rw [hitems]; exact chunks_not_registry hids)
  exact hnone record (by rw [hline]; simp) hrecord.starts

theorem registryFirst_of_fits (hfit : json.length ≤ 4083) : RegistryFirst json (lineCalls items) := by
  obtain ⟨cs, -, hids, hcalls⟩ := batchCalls_data json hne hb
  rw [hcalls, emitRegistry_record hfit, List.singleton_append] at hitems
  obtain ⟨before, item, after, rfl, hbefore, hitem, hafter⟩ := List.filterMap_eq_cons_iff.mp hitems
  have hcall : item = .call (recordBytes vcmuxProtoControlStreamRegistry json) := by
    cases item with
    | call bytes => exact congrArg LineItem.call (Option.some.inj hitem)
    | ack streamId => cases hitem
  refine ⟨lineCalls before, recordBytes vcmuxProtoControlStreamRegistry json, lineCalls after, ?_,
    registryRecord_recordBytes (by omega), lineCalls_acks hbefore,
    lineCalls_not_registry (by rw [hafter]; exact chunks_not_registry hids)⟩
  rw [hcall]
  simp [lineCalls]

/-- The line has one registry record, that of the registry, before all data, exactly if the record
fits the frame buffer. That its length fits the 16-bit field of the record is not enough. -/
theorem registry_first : RegistryFirst json (lineCalls items) ↔ json.length ≤ 4083 :=
  ⟨RegistryFirst.fits hne hb hitems, registryFirst_of_fits hne hb hitems⟩

end Line

theorem oneBatch_data : ∀ b ∈ [oneBatch], DataBatch b := by
  intro b hb
  cases List.mem_singleton.mp hb
  exact ⟨⟨by decide, by decide⟩, by decide⟩

/-- One batch behind a short registry. -/
theorem registry_first_oneBatch : RegistryFirst oneStreamJson (lineCalls oneBatchItems) :=
  (registry_first (by simp) oneBatch_data (by decide +kernel)).mpr (by decide)

/-- A registry of 4478 bytes is never sent. -/
theorem long_registry_skipped :
    ¬ ∀ (a : Generator.Assembly) (name source : Json.Text) (r : Generator.Registry),
      Generator.generate a name source = .ok r → r.text.length ≤ 65535 → ∀ batches : List BatchBuffer, batches ≠ [] →
      (∀ b ∈ batches, DataBatch b) → ∀ items : List LineItem,
      items.filterMap LineItem.callBytes = batchCalls r.text false batches → RegistryFirst r.text (lineCalls items) := by
  intro hall
  let r := RegistryCodec.oneGuestRegistry (List.replicate 4000 0x61) (Json.codes "app.camkes")
  have hlen : 4083 < r.text.length ∧ r.text.length ≤ 65535 := by
    decide +kernel
  have hitems : ((batchCalls r.text false [oneBatch]).map LineItem.call).filterMap LineItem.callBytes =
      batchCalls r.text false [oneBatch] := by
    simp [List.filterMap_map, Function.comp_def, LineItem.callBytes]
  have hfirst := hall RegistryCodec.oneGuest _ _ r (RegistryCodec.generate_oneGuest _ _) hlen.2 [oneBatch] (by simp)
    oneBatch_data _ hitems
  exact absurd (RegistryFirst.fits (by simp) oneBatch_data hitems hfirst) (Nat.not_le.mpr hlen.1)

end VirtiosoMux.CamkesUplink
