import VirtiosoMux.Camkes.Uplink
import VirtiosoMux.Library.FillBuffer

/-! # The frame buffer of the uplink

`console_mux_frame` is one static buffer for the registry and all chunks. The functions here
store into it cell by cell; they make the calls of the model that only keeps the filled part.
-/
namespace VirtiosoMux.Camkes
open ByteStuffing FillBuffer

/-- What has been handed to `console_mux_uplink_bytes`, and `console_mux_frame` with `out`. -/
structure Sending where
  sent : List Bytes
  frame : Buffer Byte

def Sending.flush (s : Sending) : Sending := { s with sent := s.sent ++ [s.frame.filled] }

def emitRegistryInto (json : Bytes) (s : Sending) : Sending :=
  let len := json.length
  if len > 0xffff ∨ len + 5 > frameSize then s
  else
    let frame := s.frame.rewind
    let frame := frame.push vcmuxProtoEscStart
    let frame := frame.push vcmuxProtoEscControl
    let frame := frame.push vcmuxProtoControlStreamRegistry
    let frame := frame.push (UInt8.ofNat ((len >>> 8) % 256))
    let frame := frame.push (UInt8.ofNat (len % 256))
    let frame := frame.pushAll json
    Sending.flush { s with frame := frame }

def maybeEmitRegistryInto (json : Bytes) (registryEmitted : Bool) (s : Sending) : Sending :=
  if registryEmitted then s else emitRegistryInto json s

def openFrameInto (id : Byte) (frame : Buffer Byte) : Buffer Byte :=
  (frame.rewind.push vcmuxProtoEscStart).push id

def pushByteInto (byte : Byte) (s : Sending) : Sending :=
  let frame := if byte = vcmuxProtoEscStart then s.frame.push vcmuxProtoEscStart else s.frame
  { s with frame := frame.push byte }

def frameByteInto (id : Byte) (bytes : Nat → Byte) (s : Sending) (i : Nat) : Sending :=
  pushByteInto (bytes i)
    (if s.frame.idx + 4 ≥ frameSize then { s.flush with frame := openFrameInto id s.frame } else s)

def closeFrameInto (s : Sending) : Sending :=
  let s := if s.frame.idx + 2 ≥ frameSize then
      let s := s.flush
      { s with frame := s.frame.rewind }
    else s
  Sending.flush { s with frame := (s.frame.push vcmuxProtoEscStart).push vcmuxProtoEscDefault }

/-- `console_mux_emit_framed_payload` with what earlier calls have left in the buffer. -/
def emitFramedPayloadInto (json : Bytes) (registryEmitted : Bool) (mem : Nat → Byte) (streamId : Int)
    (bytes : Nat → Byte) (bytesLen : Nat) : Sending :=
  let s : Sending := ⟨[], Buffer.ofMemory mem⟩
  if !consoleMuxValidStreamId streamId then s
  else
    let s := maybeEmitRegistryInto json registryEmitted s
    let id := streamByte streamId
    let s := { s with frame := openFrameInto id s.frame }
    closeFrameInto ((List.range bytesLen).foldl (frameByteInto id bytes) s)

/-! ### The same calls -/

structure Sending.Matches (before : List Bytes) (s : Sending) (f : Framing) : Prop where
  sent : s.sent = before ++ f.sent
  frame : s.frame.filled = f.frame

section Calls
variable {before : List Bytes} {s : Sending} {f : Framing}

theorem Sending.Matches.length (h : s.Matches before f) : f.frame.length = s.frame.idx := by
  rw [← h.frame, Buffer.length_filled]

theorem filled_openFrame (id : Byte) (frame : Buffer Byte) :
    (openFrameInto id frame).filled = [vcmuxProtoEscStart, id] := by
  simp [openFrameInto]

theorem pushByteInto_matches (h : s.Matches before f) (byte : Byte) :
    (pushByteInto byte s).Matches before
      { f with frame := (if byte = vcmuxProtoEscStart then f.frame ++ [vcmuxProtoEscStart] else f.frame) ++ [byte] } := by
  by_cases hb : byte = vcmuxProtoEscStart
  · exact ⟨h.sent, by simp [pushByteInto, hb, h.frame]⟩
  · exact ⟨h.sent, by simp [pushByteInto, hb, h.frame]⟩

theorem frameByteInto_matches (h : s.Matches before f) (id : Byte) (bytes : Nat → Byte) (i : Nat) :
    (frameByteInto id bytes s i).Matches before (frameByte id bytes f i) := by
  have hlen := h.length
  by_cases hfull : s.frame.idx + 4 ≥ frameSize
  · have hopen : Sending.Matches before { s.flush with frame := openFrameInto id s.frame }
        ⟨f.sent ++ [f.frame], [vcmuxProtoEscStart, id], f.reads ++ [i]⟩ :=
      ⟨by simp [Sending.flush, h.sent, h.frame], filled_openFrame id s.frame⟩
    have hbyte := pushByteInto_matches hopen (bytes i)
    simpa only [frameByteInto, frameByte, hlen, if_pos hfull] using hbyte
  · have hread : s.Matches before { f with reads := f.reads ++ [i] } := ⟨h.sent, h.frame⟩
    have hbyte := pushByteInto_matches hread (bytes i)
    simpa only [frameByteInto, frameByte, hlen, if_neg hfull] using hbyte

theorem closeFrameInto_matches (h : s.Matches before f) : (closeFrameInto s).sent = before ++ closeFrame f := by
  have hlen := h.length
  by_cases hfull : s.frame.idx + 2 ≥ frameSize
  · simp [closeFrameInto, closeFrame, hlen, hfull, Sending.flush, h.sent, h.frame]
  · simp [closeFrameInto, closeFrame, hlen, hfull, Sending.flush, h.sent, h.frame]

end Calls

theorem emitRegistryInto_sent (json : Bytes) (s : Sending) :
    (emitRegistryInto json s).sent = s.sent ++ consoleMuxEmitRegistry json := by
  by_cases hlong : json.length > 0xffff ∨ json.length + 5 > frameSize
  · simp [emitRegistryInto, consoleMuxEmitRegistry, hlong]
  · simp [emitRegistryInto, consoleMuxEmitRegistry, hlong, Sending.flush]

theorem maybeEmitRegistryInto_sent (json : Bytes) (registryEmitted : Bool) (s : Sending) :
    (maybeEmitRegistryInto json registryEmitted s).sent = s.sent ++ consoleMuxMaybeEmitRegistry json registryEmitted := by
  unfold maybeEmitRegistryInto consoleMuxMaybeEmitRegistry
  cases registryEmitted with
  | true => simp
  | false => simpa using emitRegistryInto_sent json s

/-! ### Bounds

A round finds the index below the flush bound or starts a frame, and stores at most two bytes.
The closing pair then always has room.
-/

structure Sending.Fits (s : Sending) : Prop where
  within : s.frame.Within frameSize
  length : ∀ c ∈ s.sent, c.length ≤ frameSize

def Sending.Ready (s : Sending) : Prop := 2 ≤ s.frame.idx ∧ s.frame.idx + 2 < frameSize

section Bounds
variable {s : Sending}

theorem Sending.Fits.flush (h : s.Fits) : s.flush.Fits := by
  refine ⟨h.within, ?_⟩
  intro c hc
  rcases List.mem_append.mp hc with hc | hc
  · exact h.length c hc
  · rw [List.mem_singleton.mp hc, Buffer.length_filled]
    exact h.within.idx

theorem within_openFrame (id : Byte) {frame : Buffer Byte} (h : frame.Within frameSize) :
    (openFrameInto id frame).Within frameSize := by
  have hzero : 0 < frameSize := by decide
  have hone : 1 < frameSize := by decide
  exact (h.rewind.push hzero vcmuxProtoEscStart).push hone id

theorem idx_openFrame (id : Byte) (frame : Buffer Byte) : (openFrameInto id frame).idx = 2 := rfl

/-- The stores of one byte, with room for three. -/
theorem pushByteInto_fits (h : s.Fits) (hlow : 2 ≤ s.frame.idx) (hroom : s.frame.idx + 4 < frameSize) (byte : Byte) :
    (pushByteInto byte s).Fits ∧ (pushByteInto byte s).Ready := by
  unfold pushByteInto
  by_cases hb : byte = vcmuxProtoEscStart
  · simp only [if_pos hb]
    have hesc := h.within.push (by omega) vcmuxProtoEscStart
    refine ⟨⟨hesc.push (by rw [Buffer.idx_push]; omega) byte, h.length⟩, ?_⟩
    simp only [Sending.Ready, Buffer.idx_push]
    omega
  · simp only [if_neg hb]
    refine ⟨⟨h.within.push (by omega) byte, h.length⟩, ?_⟩
    simp only [Sending.Ready, Buffer.idx_push]
    omega

theorem frameByteInto_fits (h : s.Fits) (hready : s.Ready) (id : Byte) (bytes : Nat → Byte) (i : Nat) :
    (frameByteInto id bytes s i).Fits ∧ (frameByteInto id bytes s i).Ready := by
  unfold frameByteInto
  split
  · have hopen : Sending.Fits { s.flush with frame := openFrameInto id s.frame } :=
      ⟨within_openFrame id h.within, h.flush.length⟩
    have hidx := idx_openFrame id s.frame
    exact pushByteInto_fits hopen (Nat.le_of_eq hidx.symm) (by rw [hidx]; decide) (bytes i)
  · exact pushByteInto_fits h hready.1 (by omega) (bytes i)

/-- The second flush is never due. -/
theorem closeFrameInto_eq (hready : s.Ready) :
    closeFrameInto s = Sending.flush { s with frame := (s.frame.push vcmuxProtoEscStart).push vcmuxProtoEscDefault } := by
  have hroom : ¬ s.frame.idx + 2 ≥ frameSize := Nat.not_le.mpr hready.2
  simp only [closeFrameInto, if_neg hroom]

theorem closeFrameInto_fits (h : s.Fits) (hready : s.Ready) : (closeFrameInto s).Fits := by
  rw [closeFrameInto_eq hready]
  have hroom := hready.2
  have hesc := h.within.push (by omega) vcmuxProtoEscStart
  exact Sending.Fits.flush ⟨hesc.push (by rw [Buffer.idx_push]; omega) vcmuxProtoEscDefault, h.length⟩

theorem maybeEmitRegistryInto_fits (json : Bytes) (registryEmitted : Bool) (h : s.Fits) :
    (maybeEmitRegistryInto json registryEmitted s).Fits := by
  unfold maybeEmitRegistryInto
  split
  · exact h
  by_cases hlong : json.length > 0xffff ∨ json.length + 5 > frameSize
  · simpa only [emitRegistryInto, if_pos hlong] using h
  · have hroom : ∀ header : Bytes, header.length = 5 → s.frame.rewind.idx + (header ++ json).length ≤ frameSize := by
      intro header hheader
      rw [List.length_append, hheader, show s.frame.rewind.idx = 0 from rfl]
      omega
    have hstores := h.within.rewind.pushAll (hroom [vcmuxProtoEscStart, vcmuxProtoEscControl,
      vcmuxProtoControlStreamRegistry, UInt8.ofNat ((json.length >>> 8) % 256), UInt8.ofNat (json.length % 256)] rfl)
    rw [Buffer.pushAll_append] at hstores
    simp only [emitRegistryInto, if_neg hlong]
    exact Sending.Fits.flush ⟨hstores, h.length⟩

end Bounds

/-! ### The payload loop -/

section Loop
variable (json : Bytes) (registryEmitted : Bool) (mem : Nat → Byte) (id : Byte) (bytes : Nat → Byte) (bytesLen : Nat)

def startInto : Sending :=
  let s := maybeEmitRegistryInto json registryEmitted ⟨[], Buffer.ofMemory mem⟩
  { s with frame := openFrameInto id s.frame }

def payloadLoopInto : Sending := (List.range bytesLen).foldl (frameByteInto id bytes) (startInto json registryEmitted mem id)

theorem emitFramedPayloadInto_eq {streamId : Int} (hvalid : consoleMuxValidStreamId streamId = true) :
    emitFramedPayloadInto json registryEmitted mem streamId bytes bytesLen =
      closeFrameInto (payloadLoopInto json registryEmitted mem (streamByte streamId) bytes bytesLen) := by
  simp only [emitFramedPayloadInto, hvalid, Bool.not_true, Bool.false_eq_true, if_false]
  rfl

theorem payloadLoopInto_fits :
    (payloadLoopInto json registryEmitted mem id bytes bytesLen).Fits ∧
      (payloadLoopInto json registryEmitted mem id bytes bytesLen).Ready := by
  have hempty : Sending.Fits ⟨[], Buffer.ofMemory mem⟩ :=
    ⟨Buffer.within_ofMemory mem frameSize, List.forall_mem_nil _⟩
  have hregistry := maybeEmitRegistryInto_fits json registryEmitted hempty
  have hstart : (startInto json registryEmitted mem id).Fits := ⟨within_openFrame id hregistry.within, hregistry.length⟩
  have hidx : (startInto json registryEmitted mem id).frame.idx = 2 := rfl
  have hready : (startInto json registryEmitted mem id).Ready := by
    rw [Sending.Ready, hidx]
    decide
  exact List.foldlRecOn (motive := fun s => s.Fits ∧ s.Ready) (List.range bytesLen) (frameByteInto id bytes) ⟨hstart, hready⟩
    (fun s h i _ => frameByteInto_fits h.1 h.2 id bytes i)

theorem payloadLoopInto_matches :
    (payloadLoopInto json registryEmitted mem id bytes bytesLen).Matches (consoleMuxMaybeEmitRegistry json registryEmitted)
      ((List.range bytesLen).foldl (frameByte id bytes) ⟨[], [vcmuxProtoEscStart, id], []⟩) := by
  have hstart : (startInto json registryEmitted mem id).Matches (consoleMuxMaybeEmitRegistry json registryEmitted)
      ⟨[], [vcmuxProtoEscStart, id], []⟩ := by
    refine ⟨?_, filled_openFrame id _⟩
    rw [startInto, maybeEmitRegistryInto_sent]
    simp
  exact List.foldl_rel hstart fun i _ s f h => frameByteInto_matches h id bytes i

/-- Some parts have been sent, and there is room to close the last. -/
theorem closeFrame_parts :
    ∃ (parts : List Bytes) (last : Bytes), parts.flatten ++ last = (List.range bytesLen).map bytes ∧
      closeFrame ((List.range bytesLen).foldl (frameByte id bytes) ⟨[], [vcmuxProtoEscStart, id], []⟩) =
        parts.map (fun part => (Chunk.opened id part).bytes) ++ [(Chunk.closed id last).bytes] := by
  obtain ⟨parts, last, hsent, hframe, hdone⟩ := payloadLoop_holds id bytes bytesLen
  have hlen := (payloadLoopInto_matches [] true (fun _ => 0) id bytes bytesLen).length
  have hroom := (payloadLoopInto_fits [] true (fun _ => 0) id bytes bytesLen).2.2
  rw [← hlen] at hroom
  refine ⟨parts, last, hdone, ?_⟩
  simp only [closeFrame, if_neg (Nat.not_le.mpr hroom)]
  rw [hsent, hframe]
  simp [Chunk.bytes, frameBytes]

end Loop

/-! ### Reading the chunks -/

def stripHeader (id : Byte) (chunk : Bytes) : Bytes :=
  if [vcmuxProtoEscStart, id].isPrefixOf chunk then chunk.drop 2 else chunk

def unframe (id : Byte) (chunks : List Bytes) : Bytes :=
  unstuff vcmuxProtoEscStart (chunks.flatMap (stripHeader id)).dropLast.dropLast

theorem stripHeader_append (id : Byte) (rest : Bytes) : stripHeader id ([vcmuxProtoEscStart, id] ++ rest) = rest := by
  have hpre : [vcmuxProtoEscStart, id].isPrefixOf ([vcmuxProtoEscStart, id] ++ rest) = true := by
    rw [List.isPrefixOf_iff_prefix]
    exact List.prefix_append _ rest
  rw [stripHeader, if_pos hpre]
  rfl

theorem stripHeader_parts (id : Byte) (parts : List Bytes) (last : Bytes) :
    (parts.map (fun part => (Chunk.opened id part).bytes) ++ [(Chunk.closed id last).bytes]).flatMap (stripHeader id) =
      stuff vcmuxProtoEscStart (parts.flatten ++ last) ++ [vcmuxProtoEscStart, vcmuxProtoEscDefault] := by
  induction parts with
  | nil =>
    simp only [List.map_nil, List.nil_append, List.flatMap_singleton, Chunk.bytes, frameBytes, List.append_assoc,
      stripHeader_append, List.flatten_nil]
  | cons part rest ih =>
    rw [List.map_cons, List.cons_append, List.flatMap_cons, ih, Chunk.bytes, stripHeader_append, List.flatten_cons]
    simp only [stuff_append, List.append_assoc]

theorem pending_chunk (id : Byte) (part : Bytes) :
    pending vcmuxProtoEscStart (Chunk.opened id part).bytes = false ∧
      pending vcmuxProtoEscStart (Chunk.closed id part).bytes = false := by
  constructor
  · have hbody := pending_stuff_append vcmuxProtoEscStart part []
    rw [List.append_nil] at hbody
    exact (pending_pair vcmuxProtoEscStart id _).trans hbody
  · have hbody := pending_stuff_append vcmuxProtoEscStart part [vcmuxProtoEscStart, vcmuxProtoEscDefault]
    exact (pending_pair vcmuxProtoEscStart id _).trans (hbody.trans (pending_pair vcmuxProtoEscStart _ []))

/-- The calls for a payload stay within the frame buffer, each starts with the header and
leaves no pair open, and together they carry the payload. -/
theorem uplink_chunks_bounded (json : Bytes) (registryEmitted : Bool) (mem : Nat → Byte) {streamId : Int}
    (hvalid : consoleMuxValidStreamId streamId = true) (bytes : Nat → Byte) (bytesLen : Nat) :
    (emitFramedPayloadInto json registryEmitted mem streamId bytes bytesLen).sent =
        (consoleMuxEmitFramedPayload json registryEmitted streamId bytes bytesLen).1 ∧
      (∀ i ∈ (emitFramedPayloadInto json registryEmitted mem streamId bytes bytesLen).frame.stores, i < frameSize) ∧
      ∃ chunks, (emitFramedPayloadInto json registryEmitted mem streamId bytes bytesLen).sent =
          consoleMuxMaybeEmitRegistry json registryEmitted ++ chunks ∧
        (∀ c ∈ chunks, c.length ≤ frameSize ∧ [vcmuxProtoEscStart, streamByte streamId] <+: c ∧
          pending vcmuxProtoEscStart c = false) ∧
        [vcmuxProtoEscStart, vcmuxProtoEscDefault] <:+ chunks.flatMap (stripHeader (streamByte streamId)) ∧
        unframe (streamByte streamId) chunks = (List.range bytesLen).map bytes := by
  rw [emitFramedPayloadInto_eq json registryEmitted mem bytes bytesLen hvalid]
  have hmatches := payloadLoopInto_matches json registryEmitted mem (streamByte streamId) bytes bytesLen
  obtain ⟨hfits, hready⟩ := payloadLoopInto_fits json registryEmitted mem (streamByte streamId) bytes bytesLen
  have hsent := closeFrameInto_matches hmatches
  have hclosed := closeFrameInto_fits hfits hready
  obtain ⟨parts, last, hdone, hparts⟩ := closeFrame_parts (streamByte streamId) bytes bytesLen
  have hstrip := stripHeader_parts (streamByte streamId) parts last
  refine ⟨?_, hclosed.within.stores, _, hsent.trans (congrArg _ hparts), ?_, ?_, ?_⟩
  · simp only [hsent, consoleMuxEmitFramedPayload, hvalid, Bool.not_true, Bool.false_eq_true, if_false]
  · intro c hc
    refine ⟨hclosed.length c (by rw [hsent, hparts]; exact List.mem_append_right _ hc), ?_⟩
    rcases List.mem_append.mp hc with hc | hc
    · obtain ⟨part, -, rfl⟩ := List.mem_map.mp hc
      exact ⟨List.prefix_append _ _, (pending_chunk _ part).1⟩
    · rw [List.mem_singleton.mp hc]
      exact ⟨⟨_, (List.append_assoc _ _ _).symm⟩, (pending_chunk _ last).2⟩
  · rw [hstrip]
    exact List.suffix_append _ _
  · rw [unframe, hstrip, hdone]
    simp [List.dropLast_append_of_ne_nil, unstuff_stuff]

theorem uplink_chunks_bounded_escapes :
    consoleMuxValidStreamId 7 = true ∧
      ∀ i ∈ (emitFramedPayloadInto [] true (fun _ => 0) 7 (fun _ => 0xfe) 5000).frame.stores, i < frameSize :=
  ⟨by decide, (uplink_chunks_bounded [] true (fun _ => 0) (by decide) (fun _ => 0xfe) 5000).2.1⟩

end VirtiosoMux.Camkes
