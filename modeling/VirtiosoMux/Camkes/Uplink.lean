import VirtiosoMux.Camkes.Mux

/-! # Chunks of the uplink

A batch leaves the multiplexer in one or more chunks. A chunk before the last ends between
two payload bytes and leaves the stream open; the next one selects the same stream again.
Where the cuts fall depends on the doubled escapes, so only their existence is stated.
-/
namespace VirtiosoMux.Camkes
open ByteStuffing

inductive Chunk
  | opened (id : Byte) (part : Bytes)
  | closed (id : Byte) (part : Bytes)
  | close

def Chunk.bytes : Chunk → Bytes
  | .opened id part => [vcmuxProtoEscStart, id] ++ stuff vcmuxProtoEscStart part
  | .closed id part => frameBytes id part
  | .close => [vcmuxProtoEscStart, vcmuxProtoEscDefault]

def Chunk.payload (id : Byte) : Chunk → Bytes
  | .opened id' part => if id' = id then part else []
  | .closed id' part => if id' = id then part else []
  | .close => []

def Chunk.streams : Chunk → List Byte
  | .opened id _ => [id]
  | .closed id _ => [id]
  | .close => []

def Chunk.Closes : Chunk → Prop
  | .opened _ _ => False
  | .closed _ _ => True
  | .close => True

/-- The chunks carry `payload` on stream `id` and nothing else, and close it. -/
structure Carries (cs : List Chunk) (id : Byte) (payload : Bytes) : Prop where
  payload : ∀ x, cs.flatMap (Chunk.payload x) = if x = id then payload else []
  streams : ∀ c ∈ cs, ∀ x ∈ c.streams, x = id
  closes : ∃ front last, cs = front ++ [last] ∧ last.Closes

/-! ### The payload loop -/

/-- `done` has been taken: some parts are sent, the last one is in the frame buffer. -/
def Framing.Holds (id : Byte) (f : Framing) (done : Bytes) : Prop :=
  ∃ (parts : List Bytes) (last : Bytes), f.sent = parts.map (fun part => (Chunk.opened id part).bytes) ∧
    f.frame = (Chunk.opened id last).bytes ∧ parts.flatten ++ last = done

theorem frameByte_holds {id : Byte} {bytes : Nat → Byte} {f : Framing} {done : Bytes} (h : f.Holds id done) (i : Nat) :
    (frameByte id bytes f i).Holds id (done ++ [bytes i]) := by
  obtain ⟨parts, last, hsent, hframe, rfl⟩ := h
  -- the byte goes behind a last part that may just have been sent off
  have hpush : ∀ part : Bytes, (if bytes i = vcmuxProtoEscStart then
        (Chunk.opened id part).bytes ++ [vcmuxProtoEscStart] else (Chunk.opened id part).bytes) ++ [bytes i] =
      (Chunk.opened id (part ++ [bytes i])).bytes := by
    intro part
    by_cases hb : bytes i = vcmuxProtoEscStart <;> simp [Chunk.bytes, hb]
  by_cases hfull : f.frame.length + 4 ≥ frameSize
  · refine ⟨parts ++ [last], [bytes i], ?_, ?_, by simp⟩
    · simp only [frameByte, if_pos hfull]
      rw [hsent, hframe]
      simp
    · have := hpush []
      simpa [frameByte, hfull, Chunk.bytes] using this
  · refine ⟨parts, last ++ [bytes i], ?_, ?_, by simp⟩
    · simp only [frameByte, if_neg hfull]
      exact hsent
    · simp only [frameByte, if_neg hfull]
      rw [hframe]
      exact hpush last

theorem payloadLoop_holds (id : Byte) (bytes : Nat → Byte) (n : Nat) :
    ((List.range n).foldl (frameByte id bytes) ⟨[], [vcmuxProtoEscStart, id], []⟩).Holds id
      ((List.range n).map bytes) := by
  induction n with
  | zero => exact ⟨[], [], rfl, by simp [Chunk.bytes], rfl⟩
  | succ n ih =>
    rw [List.range_succ, List.foldl_append, List.map_append]
    exact frameByte_holds ih n

theorem closeFrame_chunks {id : Byte} {f : Framing} {done : Bytes} (h : f.Holds id done) :
    ∃ cs, closeFrame f = cs.map Chunk.bytes ∧ Carries cs id done := by
  obtain ⟨parts, last, hsent, hframe, rfl⟩ := h
  have hparts : ∀ x, (parts.map (Chunk.opened id)).flatMap (Chunk.payload x) =
      if x = id then parts.flatten else [] := by
    intro x
    by_cases hx : x = id
    · subst hx; simp [List.flatMap_map, Chunk.payload, List.flatMap_id']
    · simp [List.flatMap_map, Chunk.payload, hx, Ne.symm hx]
  have hstreams : ∀ c ∈ parts.map (Chunk.opened id), ∀ x ∈ c.streams, x = id := by
    intro c hc x hx
    obtain ⟨part, -, rfl⟩ := List.mem_map.mp hc
    simpa [Chunk.streams] using hx
  by_cases hfull : f.frame.length + 2 ≥ frameSize
  · refine ⟨parts.map (Chunk.opened id) ++ [Chunk.opened id last] ++ [Chunk.close], ?_, ?_, ?_, ⟨_, .close, rfl, trivial⟩⟩
    · simp only [closeFrame, if_pos hfull]
      rw [hsent, hframe]
      simp [Chunk.bytes, Function.comp_def]
    · intro x
      rw [List.flatMap_append, List.flatMap_append, hparts]
      by_cases hx : x = id
      · subst hx; simp [Chunk.payload]
      · simp [Chunk.payload, hx, Ne.symm hx]
    · intro c hc x hx
      simp only [List.mem_append, List.mem_singleton] at hc
      rcases hc with (hc | rfl) | rfl
      · exact hstreams c hc x hx
      · simpa [Chunk.streams] using hx
      · simp [Chunk.streams] at hx
  · refine ⟨parts.map (Chunk.opened id) ++ [Chunk.closed id last], ?_, ?_, ?_, ⟨_, .closed id last, rfl, trivial⟩⟩
    · simp only [closeFrame, if_neg hfull]
      rw [hsent, hframe]
      simp [Chunk.bytes, frameBytes, Function.comp_def]
    · intro x
      rw [List.flatMap_append, hparts]
      by_cases hx : x = id
      · subst hx; simp [Chunk.payload]
      · simp [Chunk.payload, hx, Ne.symm hx]
    · intro c hc x hx
      simp only [List.mem_append, List.mem_singleton] at hc
      rcases hc with hc | rfl
      · exact hstreams c hc x hx
      · simpa [Chunk.streams] using hx

/-! ### Batches -/

def BatchBuffer.payload (b : BatchBuffer) : Bytes :=
  (List.range (b.tail.toNat - b.head.toNat)).map (fun i => b.buf (b.head.toNat + i))

structure BatchBuffer.Proper (b : BatchBuffer) : Prop where
  stream : consoleMuxValidStreamId (toInt b.streamId) = true
  order : b.head.toNat ≤ b.tail.toNat

def BatchBuffer.id (b : BatchBuffer) : Byte := streamByte (toInt b.streamId)

/-- An empty batch makes no call; any other makes its chunks, after the registry if that
has not been sent. -/
theorem muxBatchBatch_chunks (json : Bytes) (emitted : Bool) {b : BatchBuffer} (hb : b.Proper) :
    (b.payload = [] ∧ (muxBatchBatch json emitted (some b)).1 = [] ∧
      (muxBatchBatch json emitted (some b)).2.2.1 = emitted) ∨
    ∃ cs, (muxBatchBatch json emitted (some b)).1 = consoleMuxMaybeEmitRegistry json emitted ++ cs.map Chunk.bytes ∧
      (muxBatchBatch json emitted (some b)).2.2.1 = true ∧ Carries cs b.id b.payload := by
  have horder : ¬ b.tail < b.head := by
    rw [UInt32.lt_iff_toNat_lt]
    have := hb.order
    omega
  have hlen : (b.tail - b.head).toNat = b.tail.toNat - b.head.toNat := UInt32.toNat_sub_of_le _ _ (by
    rw [UInt32.le_iff_toNat_le]
    exact hb.order)
  by_cases hzero : b.tail - b.head = 0
  · left
    have hnone : b.tail.toNat - b.head.toNat = 0 := by rw [← hlen, hzero]; rfl
    refine ⟨by simp [BatchBuffer.payload, hnone], ?_, ?_⟩ <;> simp [muxBatchBatch, hb.stream, horder, hzero]
  · right
    obtain ⟨cs, hclose, hcarries⟩ := closeFrame_chunks (payloadLoop_holds b.id
      (fun i => b.buf (b.head.toNat + i)) (b.tail - b.head).toNat)
    refine ⟨cs, ?_, ?_, ?_⟩
    · rw [← hclose]
      simp [muxBatchBatch, hb.stream, horder, hzero, consoleMuxEmitFramedPayload, BatchBuffer.id]
    · simp [muxBatchBatch, hb.stream, horder, hzero, consoleMuxEmitFramedPayload]
    · rw [hlen] at hcarries
      exact hcarries

def batchCalls (json : Bytes) : Bool → List BatchBuffer → List Bytes
  | _, [] => []
  | emitted, b :: rest =>
    let (calls, _, emitted', _) := muxBatchBatch json emitted (some b)
    calls ++ batchCalls json emitted' rest

def registryEmittedAfter (json : Bytes) (emitted : Bool) (batches : List BatchBuffer) : Bool :=
  batches.foldl (fun emitted b => (muxBatchBatch json emitted (some b)).2.2.1) emitted

theorem batchCalls_snoc (json : Bytes) (emitted : Bool) (batches : List BatchBuffer) (b : BatchBuffer) :
    batchCalls json emitted (batches ++ [b]) =
      batchCalls json emitted batches ++ (muxBatchBatch json (registryEmittedAfter json emitted batches) (some b)).1 := by
  induction batches generalizing emitted with
  | nil => simp [batchCalls, registryEmittedAfter]
  | cons b' rest ih =>
    simp only [List.cons_append, batchCalls, ih, List.append_assoc]
    rfl

/-- All chunks of a sequence of batches, behind at most one registry. -/
theorem batchCalls_chunks (json : Bytes) (emitted : Bool) (batches : List BatchBuffer)
    (hb : ∀ b ∈ batches, b.Proper) :
    ∃ cs, batchCalls json emitted batches =
        (if cs = [] then [] else consoleMuxMaybeEmitRegistry json emitted) ++ cs.map Chunk.bytes ∧
      (∀ x, cs.flatMap (Chunk.payload x) = batches.flatMap (fun b => if x = b.id then b.payload else [])) ∧
      (∀ c ∈ cs, ∀ x ∈ c.streams, ∃ b ∈ batches, x = b.id) ∧
      (cs = [] ∨ ∃ (front : List Chunk) (last : Chunk), cs = front ++ [last] ∧ last.Closes) := by
  induction batches generalizing emitted with
  | nil => exact ⟨[], rfl, fun _ => rfl, by simp, .inl rfl⟩
  | cons b rest ih =>
    have hrest : ∀ b ∈ rest, b.Proper := fun b h => hb b (List.mem_cons_of_mem _ h)
    rcases muxBatchBatch_chunks json emitted (hb b List.mem_cons_self) with ⟨hempty, hcalls, hflag⟩ | ⟨cs, hcalls, hflag, hc⟩
    · obtain ⟨cs, heq, hpay, hstreams, hclose⟩ := ih emitted hrest
      refine ⟨cs, ?_, ?_, ?_, hclose⟩
      · simp only [batchCalls, hcalls, hflag, List.nil_append]
        exact heq
      · intro x
        rw [hpay, List.flatMap_cons, hempty, ite_self, List.nil_append]
      · intro c hc x hx
        obtain ⟨b', hb', heq'⟩ := hstreams c hc x hx
        exact ⟨b', List.mem_cons_of_mem _ hb', heq'⟩
    · obtain ⟨cs', heq, hpay, hstreams, hclose⟩ := ih true hrest
      obtain ⟨front, last, hcs, hlast⟩ := hc.closes
      have hreg : consoleMuxMaybeEmitRegistry json true = [] := rfl
      refine ⟨cs ++ cs', ?_, ?_, ?_, ?_⟩
      · have hne : cs ++ cs' ≠ [] := by simp [hcs]
        simp only [batchCalls, hcalls, hflag, heq, hreg, ite_self, List.nil_append, if_neg hne, List.map_append,
          List.append_assoc]
      · intro x
        rw [List.flatMap_append, hc.payload, hpay, List.flatMap_cons]
      · intro c hmem x hx
        rcases List.mem_append.mp hmem with hmem | hmem
        · exact ⟨b, List.mem_cons_self, hc.streams c hmem x hx⟩
        · obtain ⟨b', hb', heq'⟩ := hstreams c hmem x hx
          exact ⟨b', List.mem_cons_of_mem _ hb', heq'⟩
      · right
        rcases hclose with rfl | ⟨front', last', rfl, hlast'⟩
        · exact ⟨front, last, by simp [hcs], hlast⟩
        · exact ⟨cs ++ front', last', by simp, hlast'⟩

/-- The registry fits the frame buffer and goes out as one record. -/
theorem emitRegistry_record {json : Bytes} (hlen : json.length ≤ 4083) :
    consoleMuxEmitRegistry json = [recordBytes vcmuxProtoControlStreamRegistry json] := by
  have hfit : ¬ (json.length > 0xffff ∨ json.length + 5 > frameSize) := by
    simp only [frameSize]
    omega
  have hmod : ∀ n : Nat, UInt8.ofNat (n % 256) = UInt8.ofNat n := by
    intro n
    apply UInt8.toNat_inj.mp
    simp
  simp only [consoleMuxEmitRegistry, if_neg hfit, hmod]
  rfl

end VirtiosoMux.Camkes
