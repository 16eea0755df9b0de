import VirtiosoMux.Camkes.Uplink

/-! # The guest's console sink

The functions of `guest_console_sink.c`, which collect what a guest puts and hand it to the
multiplexer. A sink and the multiplexer write the indices of one dataport in turn. The
statistics of the calls are left out: nothing reads them while the reports are off.
-/
namespace VirtiosoMux.Camkes
variable {ι : Type*}

def guestConsoleSinkFlushThreshold : UInt32 := 1024

/-- The multiplexer as its clients see it: the registry flag, the `console_mux_uplink_bytes` calls
so far, and for each `mux_batch_batch` call the client with its dataport as the call found it. -/
structure MuxServer (ι : Type*) where
  registryEmitted : Bool
  uplink : List Bytes
  handed : List (ι × BatchBuffer)

def MuxServer.batch (json : Bytes) (w : MuxServer ι) (i : ι) (batch : BatchBuffer) :
    MuxServer ι × BatchBuffer :=
  let r := muxBatchBatch json w.registryEmitted (some batch)
  (⟨r.2.2.1, w.uplink ++ r.1, w.handed ++ [(i, batch)]⟩, r.2.2.2.getD batch)

def BatchBuffer.Corrupt (batch : BatchBuffer) : Prop := batch.tail < batch.head ∨ batch.tail.toNat > batchSize

instance (batch : BatchBuffer) : Decidable batch.Corrupt := inferInstanceAs (Decidable (_ ∨ _))

/-- `streamId` is `get_instance_console_stream_id()`. -/
def guestConsoleSinkReset (streamId : Int) (batch : BatchBuffer) : BatchBuffer :=
  { batch with streamId := UInt32.ofInt streamId, head := 0, tail := 0 }

/-- The result -1 of the source is `none`. -/
def guestConsoleSinkAppendByte (batch : BatchBuffer) (byte : Byte) : Option BatchBuffer :=
  if batch.tail.toNat ≥ batchSize then none
  else some { batch with buf := Function.update batch.buf batch.tail.toNat byte, tail := batch.tail + 1 }

section Sink
variable (json : Bytes) (streamId : Int) (i : ι)

def guestConsoleSinkFlush (w : MuxServer ι) (batch : BatchBuffer) : MuxServer ι × BatchBuffer :=
  if batch.head = batch.tail then (w, batch)
  else if batch.Corrupt then (w, guestConsoleSinkReset streamId batch)
  else
    let (w, batch) := w.batch json i batch
    (w, guestConsoleSinkReset streamId batch)

def guestConsoleSinkAppendOrFlush (w : MuxServer ι) (batch : BatchBuffer) (byte : Byte) : MuxServer ι × BatchBuffer :=
  match guestConsoleSinkAppendByte batch byte with
  | some batch => (w, batch)
  | none =>
    let (w, batch) := guestConsoleSinkFlush json streamId i w batch
    (w, (guestConsoleSinkAppendByte batch byte).getD batch)

def EndsBatch (byte : Byte) : Prop := byte = 0x0a ∨ byte = 0x0d ∨ byte = 0x3a

instance (byte : Byte) : Decidable (EndsBatch byte) := inferInstanceAs (Decidable (_ ∨ _ ∨ _))

def guestConsoleSinkEmitByte (w : MuxServer ι) (batch : BatchBuffer) (byte : Byte) : MuxServer ι × BatchBuffer :=
  let batch := if batch.Corrupt then guestConsoleSinkReset streamId batch else batch
  let batch := if toInt batch.streamId ≠ streamId then guestConsoleSinkReset streamId batch else batch
  let (w, batch) := guestConsoleSinkAppendOrFlush json streamId i w batch byte
  if EndsBatch byte ∨ batch.tail ≥ guestConsoleSinkFlushThreshold then guestConsoleSinkFlush json streamId i w batch
  else (w, batch)

end Sink

/-- The sinks, one for each `i`, with their dataports (`none` for a null pointer), and the multiplexer. -/
structure GuestSinks (ι : Type*) where
  batches : ι → Option BatchBuffer
  server : MuxServer ι

def GuestSinks.start : GuestSinks ι := ⟨fun _ => some ⟨0, 0, 0, fun _ => 0⟩, ⟨false, [], []⟩⟩

section Runs
variable [DecidableEq ι] (json : Bytes) (streamIds : ι → Int)

/-- `guest_putchar_putchar(c)` of the instance `i`; `streamIds` are the identifiers of the instances. -/
def guestPutcharPutchar (s : GuestSinks ι) (i : ι) (c : Int) : GuestSinks ι :=
  match s.batches i with
  | none => s
  | some batch =>
    let (server, batch) := guestConsoleSinkEmitByte json (streamIds i) i s.server batch (UInt8.ofInt c)
    { batches := Function.update s.batches i (some batch), server }

def GuestSinks.run (s : GuestSinks ι) (calls : List (ι × Int)) : GuestSinks ι :=
  calls.foldl (fun s call => guestPutcharPutchar json streamIds s call.1 call.2) s

def putBytes (i : ι) (calls : List (ι × Int)) : Bytes :=
  (calls.filter fun call => decide (call.1 = i)).map fun call => UInt8.ofInt call.2

def MuxServer.framedFor (w : MuxServer ι) (i : ι) : Bytes :=
  (w.handed.filter fun call => decide (call.1 = i)).flatMap fun call => call.2.payload

end Runs

/-! ### One call -/

theorem toInt_ofInt {streamId : Int} (h : consoleMuxValidStreamId streamId = true) : toInt (UInt32.ofInt streamId) = streamId := by
  have hrange : 0 < streamId ∧ streamId ≤ 0xff := by
    simp only [consoleMuxValidStreamId, Bool.and_eq_true, decide_eq_true_eq] at h
    omega
  have hmod : (streamId % 2 ^ 32).toNat < 2 ^ 32 := by omega
  have hnat : (UInt32.ofInt streamId).toNat = streamId.toNat := by
    rw [UInt32.ofInt, UInt32.toNat_ofNat_of_lt' hmod]
    omega
  rw [toInt, hnat, if_pos (by omega)]
  omega

/-- What a sink leaves in its dataport: a batch from the start of the buffer on that it did not
have to flush. A zeroed dataport does not name the stream yet. -/
structure Collecting (streamId : Int) (batch : BatchBuffer) : Prop where
  head : batch.head = 0
  tail : batch.tail.toNat < guestConsoleSinkFlushThreshold.toNat
  pending : ∀ b ∈ batch.payload, ¬ EndsBatch b
  stream : batch.tail = 0 ∨ toInt batch.streamId = streamId

theorem collecting_zeroed (streamId : Int) : Collecting streamId ⟨0, 0, 0, fun _ => 0⟩ := by
  constructor
  · rfl
  · decide
  · intro b hb
    cases hb
  · exact .inl rfl

theorem reset_collecting (streamId : Int) (batch : BatchBuffer) :
    Collecting streamId (guestConsoleSinkReset streamId batch) ∧ (guestConsoleSinkReset streamId batch).payload = [] := by
  refine ⟨?_, rfl⟩
  constructor
  · rfl
  · exact (by decide : (0 : UInt32).toNat < guestConsoleSinkFlushThreshold.toNat)
  · intro b hb
    cases hb
  · exact .inl rfl

theorem payload_of_head {batch : BatchBuffer} (h : batch.head = 0) : batch.payload = (List.range batch.tail.toNat).map batch.buf := by
  simp [BatchBuffer.payload, h]

theorem length_payload {batch : BatchBuffer} (h : batch.head = 0) : batch.payload.length = batch.tail.toNat := by
  simp [payload_of_head h]

theorem not_corrupt {batch : BatchBuffer} (hhead : batch.head = 0)
    (htail : batch.tail.toNat ≤ guestConsoleSinkFlushThreshold.toNat) : ¬ batch.Corrupt := by
  have hlimit : guestConsoleSinkFlushThreshold.toNat ≤ batchSize := by decide
  rintro (hlt | hgt)
  · rw [hhead] at hlt
    exact UInt32.not_lt_zero hlt
  · omega

/-- The checks before a byte leave the pending bytes and name the stream. -/
theorem check_batch {streamId : Int} (hvalid : consoleMuxValidStreamId streamId = true) {batch : BatchBuffer}
    (h : Collecting streamId batch) : ¬ batch.Corrupt ∧
    ∃ named, (if toInt batch.streamId ≠ streamId then guestConsoleSinkReset streamId batch else batch) = named ∧
      Collecting streamId named ∧ named.payload = batch.payload ∧ toInt named.streamId = streamId := by
  refine ⟨not_corrupt h.head (Nat.le_of_lt h.tail), _, rfl, ?_⟩
  split
  · rename_i hne
    have hempty : batch.payload = [] := by
      rw [payload_of_head h.head, h.stream.resolve_right hne]
      rfl
    obtain ⟨hreset, hpayload⟩ := reset_collecting streamId batch
    exact ⟨hreset, hpayload.trans hempty.symm, toInt_ofInt hvalid⟩
  · rename_i heq
    exact ⟨h, rfl, not_not.mp heq⟩

structure Filled (streamId : Int) (batch : BatchBuffer) : Prop where
  head : batch.head = 0
  tail : 0 < batch.tail.toNat ∧ batch.tail.toNat ≤ guestConsoleSinkFlushThreshold.toNat
  stream : toInt batch.streamId = streamId

/-- There is always room for one byte more. -/
theorem append_byte {streamId : Int} {batch : BatchBuffer} (h : Collecting streamId batch)
    (hstream : toInt batch.streamId = streamId) (byte : Byte) :
    ∃ filled, guestConsoleSinkAppendByte batch byte = some filled ∧ Filled streamId filled ∧
      filled.payload = batch.payload ++ [byte] := by
  have hlimit : guestConsoleSinkFlushThreshold.toNat < batchSize := by decide
  have hroom : ¬ batch.tail.toNat ≥ batchSize := Nat.not_le.mpr (Nat.lt_trans h.tail hlimit)
  have htail : (batch.tail + 1).toNat = batch.tail.toNat + 1 := by
    have hone : (1 : UInt32).toNat = 1 := rfl
    have hlt : batch.tail.toNat + 1 < 2 ^ 32 := Nat.lt_of_le_of_lt h.tail (by decide)
    rw [UInt32.toNat_add, hone, Nat.mod_eq_of_lt hlt]
  have hfilled : Filled streamId
      { batch with buf := Function.update batch.buf batch.tail.toNat byte, tail := batch.tail + 1 } := by
    constructor
    · exact h.head
    · rw [htail]
      exact ⟨Nat.succ_pos _, h.tail⟩
    · exact hstream
  refine ⟨_, if_neg hroom, hfilled, ?_⟩
  rw [payload_of_head hfilled.head, payload_of_head h.head, htail, List.range_succ, List.map_append]
  congr 1
  · apply List.map_congr_left
    intro k hk
    exact Function.update_of_ne (Nat.ne_of_lt (List.mem_range.mp hk)) _ _
  · exact congrArg (· :: []) (Function.update_self _ _ _)

section Call
variable {streamId : Int} (hvalid : consoleMuxValidStreamId streamId = true)
include hvalid

omit hvalid in
/-- A filled batch is handed over once and the dataport is empty again. -/
theorem flush_filled (json : Bytes) (i : ι) (w : MuxServer ι) {filled : BatchBuffer} (h : Filled streamId filled) :
    ∃ batch, guestConsoleSinkFlush json streamId i w filled = ((w.batch json i filled).1, batch) ∧
      Collecting streamId batch ∧ batch.payload = [] := by
  have hne : filled.head ≠ filled.tail := by
    intro heq
    have hpos := h.tail.1
    rw [← heq, h.head] at hpos
    exact Nat.lt_irrefl 0 hpos
  obtain ⟨hreset, hpayload⟩ := reset_collecting streamId (w.batch json i filled).2
  refine ⟨_, ?_, hreset, hpayload⟩
  rw [guestConsoleSinkFlush, if_neg hne, if_neg (not_corrupt h.head h.tail.2)]

theorem Filled.proper {filled : BatchBuffer} (h : Filled streamId filled) : filled.Proper ∧ filled.id = streamByte streamId := by
  refine ⟨⟨?_, ?_⟩, ?_⟩
  · rw [h.stream]
    exact hvalid
  · rw [h.head]
    exact Nat.zero_le _
  · rw [BatchBuffer.id, h.stream]

/-- One byte: it stays pending, or everything pending is handed over with it. -/
theorem emitByte_cases (json : Bytes) (i : ι) (w : MuxServer ι) {batch : BatchBuffer} (h : Collecting streamId batch)
    (byte : Byte) : ∃ filled, Filled streamId filled ∧ filled.payload = batch.payload ++ [byte] ∧
    ∃ batch', Collecting streamId batch' ∧
      (guestConsoleSinkEmitByte json streamId i w batch byte = (w, batch') ∧ batch'.payload = batch.payload ++ [byte] ∨
        guestConsoleSinkEmitByte json streamId i w batch byte = ((w.batch json i filled).1, batch') ∧ batch'.payload = []) := by
  obtain ⟨hok, named, hnamed, hcollecting, hpayload, hstream⟩ := check_batch hvalid h
  obtain ⟨filled, happend, hfilled, hbytes⟩ := append_byte hcollecting hstream byte
  rw [hpayload] at hbytes
  refine ⟨filled, hfilled, hbytes, ?_⟩
  unfold guestConsoleSinkEmitByte
  simp only [if_neg hok, hnamed, guestConsoleSinkAppendOrFlush, happend]
  split
  · obtain ⟨batch', hflush, hempty, hnone⟩ := flush_filled json i w hfilled
    exact ⟨batch', hempty, .inr ⟨hflush, hnone⟩⟩
  · rename_i hstay
    obtain ⟨hbyte, htail⟩ := not_or.mp hstay
    refine ⟨filled, ⟨hfilled.head, UInt32.not_le.mp htail, ?_, .inr hfilled.stream⟩, .inl ⟨rfl, hbytes⟩⟩
    intro b hb
    rw [hbytes] at hb
    rcases List.mem_append.mp hb with hb | hb
    · exact h.pending b hb
    · rw [List.mem_singleton.mp hb]
      exact hbyte

end Call

/-! ### Runs -/

structure MuxServer.Sent (json : Bytes) (streamIds : ι → Int) (w : MuxServer ι) : Prop where
  uplink : w.uplink = batchCalls json false (w.handed.map Prod.snd)
  flag : w.registryEmitted = registryEmittedAfter json false (w.handed.map Prod.snd)
  proper : ∀ call ∈ w.handed, call.2.Proper ∧ call.2.id = streamByte (streamIds call.1)

theorem MuxServer.Sent.batch {json : Bytes} {streamIds : ι → Int} {w : MuxServer ι} (h : w.Sent json streamIds) {i : ι}
    {filled : BatchBuffer} (hfilled : filled.Proper ∧ filled.id = streamByte (streamIds i)) :
    (w.batch json i filled).1.Sent json streamIds := by
  constructor
  · simp only [MuxServer.batch, List.map_append, List.map_singleton, batchCalls_snoc, ← h.uplink, ← h.flag]
  · simp only [MuxServer.batch, List.map_append, List.map_singleton, registryEmittedAfter, List.foldl_append]
    rw [h.flag]
    rfl
  · intro call hcall
    rcases List.mem_append.mp hcall with hcall | hcall
    · exact h.proper call hcall
    · rw [List.mem_singleton.mp hcall]
      exact hfilled

section Conserved
variable [DecidableEq ι] {json : Bytes} {streamIds : ι → Int}

theorem framedFor_batch (w : MuxServer ι) (i j : ι) (filled : BatchBuffer) :
    (w.batch json i filled).1.framedFor j = w.framedFor j ++ if i = j then filled.payload else [] := by
  by_cases h : i = j <;> simp [MuxServer.framedFor, MuxServer.batch, List.filter_append, h]

def GuestSinks.Conserved (streamIds : ι → Int) (s : GuestSinks ι) (calls : List (ι × Int)) (i : ι) : Prop :=
  ∃ batch, s.batches i = some batch ∧ Collecting (streamIds i) batch ∧ s.server.framedFor i ++ batch.payload = putBytes i calls

variable (hvalid : ∀ i, consoleMuxValidStreamId (streamIds i) = true)
include hvalid

theorem putchar_conserved {s : GuestSinks ι} {calls : List (ι × Int)} (hsent : s.server.Sent json streamIds)
    (h : ∀ i, s.Conserved streamIds calls i) (i : ι) (c : Int) :
    (guestPutcharPutchar json streamIds s i c).server.Sent json streamIds ∧
      ∀ j, (guestPutcharPutchar json streamIds s i c).Conserved streamIds (calls ++ [(i, c)]) j := by
  obtain ⟨batch, hbatch, hcollecting, hput⟩ := h i
  obtain ⟨filled, hfilled, hbytes, batch', hcollecting', hcases⟩ :=
    emitByte_cases (hvalid i) json i s.server hcollecting (UInt8.ofInt c)
  have hself : putBytes i (calls ++ [(i, c)]) = putBytes i calls ++ [UInt8.ofInt c] := by simp [putBytes]
  have hother : ∀ j, i ≠ j → putBytes j (calls ++ [(i, c)]) = putBytes j calls := by
    intro j hj
    simp [putBytes, hj]
  unfold guestPutcharPutchar
  rw [hbatch]
  rcases hcases with ⟨hemit, hpayload⟩ | ⟨hemit, hpayload⟩
  · simp only [hemit]
    refine ⟨hsent, fun j => ?_⟩
    by_cases hj : i = j
    · subst hj
      refine ⟨batch', Function.update_self _ _ _, hcollecting', ?_⟩
      rw [hpayload, hself, ← hput, List.append_assoc]
    · obtain ⟨other, hmem, hother', hput'⟩ := h j
      refine ⟨other, (Function.update_of_ne (Ne.symm hj) _ _).trans hmem, hother', ?_⟩
      rw [hother j hj]
      exact hput'
  · simp only [hemit]
    refine ⟨hsent.batch (hfilled.proper (hvalid i)), fun j => ?_⟩
    by_cases hj : i = j
    · subst hj
      refine ⟨batch', Function.update_self _ _ _, hcollecting', ?_⟩
      rw [framedFor_batch, if_pos rfl, hpayload, hself, hbytes, ← hput, List.append_nil, List.append_assoc]
    · obtain ⟨other, hmem, hother', hput'⟩ := h j
      refine ⟨other, (Function.update_of_ne (Ne.symm hj) _ _).trans hmem, hother', ?_⟩
      rw [framedFor_batch, if_neg hj, List.append_nil, hother j hj]
      exact hput'

theorem run_conserved (json : Bytes) (calls : List (ι × Int)) :
    (GuestSinks.start.run json streamIds calls).server.Sent json streamIds ∧
      ∀ i, (GuestSinks.start.run json streamIds calls).Conserved streamIds calls i := by
  induction calls using List.reverseRecOn with
  | nil =>
    refine ⟨⟨rfl, rfl, nofun⟩, fun i => ?_⟩
    exact ⟨⟨0, 0, 0, fun _ => 0⟩, rfl, collecting_zeroed _, rfl⟩
  | append_singleton calls call ih =>
    rw [GuestSinks.run, List.foldl_append]
    exact putchar_conserved hvalid ih.1 ih.2 call.1 call.2

omit [DecidableEq ι] in
theorem streamByte_inj {i j : ι} (h : streamByte (streamIds i) = streamByte (streamIds j)) : streamIds i = streamIds j := by
  have hrange : ∀ k, 0 < streamIds k ∧ streamIds k ≤ 0xff := by
    intro k
    have hk := hvalid k
    simp only [consoleMuxValidStreamId, Bool.and_eq_true, decide_eq_true_eq] at hk
    omega
  have hnat : ∀ k, (streamByte (streamIds k)).toNat = (streamIds k).toNat := by
    intro k
    apply UInt8.toNat_ofNat_of_lt'
    change (streamIds k).toNat < 256
    have hk := hrange k
    omega
  have heq : (streamIds i).toNat = (streamIds j).toNat := by rw [← hnat i, ← hnat j, h]
  have hi := hrange i
  have hj := hrange j
  omega

/-- On a stream of a single instance there are the payloads framed for it. -/
theorem framedFor_stream {w : MuxServer ι} (hsent : w.Sent json streamIds) {i : ι}
    (hunique : ∀ j, streamIds j = streamIds i → j = i) :
    (w.handed.map Prod.snd).flatMap (fun b => if streamByte (streamIds i) = b.id then b.payload else []) = w.framedFor i := by
  have hall := hsent.proper
  rw [MuxServer.framedFor]
  generalize w.handed = handed at hall ⊢
  induction handed with
  | nil => rfl
  | cons call rest ih =>
    have hid : streamByte (streamIds i) = call.2.id ↔ call.1 = i := by
      rw [(hall call List.mem_cons_self).2]
      constructor
      · intro heq
        exact hunique call.1 (streamByte_inj hvalid heq).symm
      · intro heq
        rw [heq]
    have hrest := ih fun other hother => hall other (List.mem_cons_of_mem call hother)
    rw [List.map_cons, List.flatMap_cons, hrest, List.filter_cons]
    by_cases hi : call.1 = i <;> simp [hid, hi]

end Conserved

/-- However the calls of the sinks are interleaved, at every point the payloads framed for an
instance and what is pending in its dataport are what its guest has put. The multiplexer has
sent nothing but chunks of these payloads behind the registry; if no other instance has the same
stream identifier, those on its stream are the ones framed for it. -/
theorem guest_output_lossless {ι : Type*} [DecidableEq ι] (json : Bytes) (streamIds : ι → Int)
    (hvalid : ∀ i, consoleMuxValidStreamId (streamIds i) = true) (calls : List (ι × Int)) :
    let s := GuestSinks.start.run json streamIds calls
    ∃ cs, s.server.uplink = (if cs = [] then [] else consoleMuxMaybeEmitRegistry json false) ++ cs.map Chunk.bytes ∧
      ∀ i, ∃ batch, s.batches i = some batch ∧ s.server.framedFor i ++ batch.payload = putBytes i calls ∧
        ((∀ j, streamIds j = streamIds i → j = i) →
          cs.flatMap (Chunk.payload (streamByte (streamIds i))) ++ batch.payload = putBytes i calls) ∧
        batch.payload.length < 1024 ∧ (∀ b ∈ batch.payload, b ≠ 0x0a ∧ b ≠ 0x0d ∧ b ≠ 0x3a) ∧
        batch.head = 0 ∧ batch.tail.toNat ≤ 4084 := by
  intro s
  obtain ⟨hsent, hconserved⟩ := run_conserved hvalid json calls
  have hproper : ∀ b ∈ s.server.handed.map Prod.snd, b.Proper := by
    intro b hb
    obtain ⟨call, hcall, rfl⟩ := List.mem_map.mp hb
    exact (hsent.proper call hcall).1
  obtain ⟨cs, hcalls, hpayload, -, -⟩ := batchCalls_chunks json false _ hproper
  refine ⟨cs, hsent.uplink.trans hcalls, fun i => ?_⟩
  obtain ⟨batch, hbatch, hcollecting, hput⟩ := hconserved i
  have htail : batch.tail.toNat < 1024 := hcollecting.tail
  refine ⟨batch, hbatch, hput, ?_, ?_, ?_, hcollecting.head, by omega⟩
  · intro hunique
    rw [hpayload, framedFor_stream hvalid hsent hunique]
    exact hput
  · rw [length_payload hcollecting.head]
    exact htail
  · intro b hb
    obtain ⟨hlf, hrest⟩ := not_or.mp (hcollecting.pending b hb)
    exact ⟨hlf, not_or.mp hrest⟩

/-- Two guests: one ends a line, the other has a byte pending. -/
theorem guest_output_lossless_twoGuests :
    let s := GuestSinks.start.run [] (fun second : Bool => if second then 2 else 1) [(false, 0x61), (true, 0x62), (false, 0x0a)]
    s.server.framedFor false = [0x61, 0x0a] ∧ ∃ batch, s.batches true = some batch ∧ batch.payload = [0x62] := by
  intro s
  have hvalid : ∀ second : Bool, consoleMuxValidStreamId (if second then 2 else 1) = true := by decide
  obtain ⟨cs, -, hall⟩ := guest_output_lossless [] (fun second : Bool => if second then 2 else 1) hvalid
    [(false, 0x61), (true, 0x62), (false, 0x0a)]
  obtain ⟨batch, hbatch, hput, -⟩ := hall true
  have hframed : s.server.framedFor true = [] := by decide +kernel
  refine ⟨by decide +kernel, batch, hbatch, ?_⟩
  rw [show (GuestSinks.start.run [] _ _).server.framedFor true = [] from hframed] at hput
  exact hput

end VirtiosoMux.Camkes
