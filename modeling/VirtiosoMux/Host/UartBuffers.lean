import VirtiosoMux.Host.UartReports
import VirtiosoMux.Library.FillBuffer

/-! # The buffers of a UART write

The encoders of `write_virtioso_data_to_uart` store cell by cell into buffers from `malloc`.
The functions here keep the buffers and record every store with the size that was allocated;
their results are those of the model that only has the contents.
-/
namespace VirtiosoMux.Host
open Pieces FillBuffer

structure Store where
  index : Nat
  size : Nat

def storesIn (size : Nat) (b : Buffer Byte) : List Store := b.stores.map (fun i => ⟨i, size⟩)

def innerByteInto (b : Buffer Byte) (byte : Byte) : Buffer Byte :=
  let b := if byte = vcmuxProtoEscStart then b.push vcmuxProtoEscEsc else b
  b.push byte

def innerInto (mem : Nat → Byte) (value : Byte) (chunk : Bytes) : Buffer Byte :=
  let b := ((Buffer.ofMemory mem).push vcmuxProtoEscStart).push value
  let b := chunk.foldl innerByteInto b
  (b.push vcmuxProtoEscStart).push vcmuxProtoEscDefault

def outerByteInto (b : Buffer Byte) (byte : Byte) : Buffer Byte :=
  let b := b.push byte
  if byte = uartProtoEscStart then b.push uartProtoEscEsc else b

def outerInto (u : Uart) (mem : Nat → Byte) (bytes : Bytes) : Buffer Byte :=
  let b := ((Buffer.ofMemory mem).push uartProtoEscStart).push ((chipTags[u.virtiosoOuterTagIdx]?).getD Tag.cleared).value
  bytes.foldl outerByteInto b

/-- What `malloc` finds in memory for the two buffers of the `k`-th piece. -/
structure Heap where
  inner : Nat → Nat → Byte
  outer : Nat → Nat → Byte

def encodeFragmentInto (u : Uart) (io : UartIo) (heap : Heap) (value : Byte) (k : Nat) (chunk : Bytes) :
    Except Int Bytes × List Store :=
  let innerMax := chunk.length * 2 + 4
  let outerMax := innerMax * 2 + 2
  if io.malloc k then
    let inner := innerInto (heap.inner k) value chunk
    match u.virtiosoOuterMode with
    | .nvidiaTcu =>
      let outer := outerInto u (heap.outer k) inner.filled
      (.ok outer.filled, storesIn innerMax inner ++ storesIn outerMax outer)
    | .raw => (.ok inner.filled, storesIn innerMax inner)
  else (.error (-enomem), [])

def writePiecesInto (io : UartIo) (encode : Nat → Bytes → Except Int Bytes × List Store) :
    Nat → List Bytes → (Bytes × Int) × List Store
  | _, [] => (([], 0), [])
  | k, piece :: rest =>
    match encode k piece with
    | (.error e, stores) => (([], e), stores)
    | (.ok buf, stores) =>
      let (accepted, r) := putbufOrExit (io.putbuf k) buf
      if r < 0 then ((accepted, r), stores)
      else
        let ((more, result), moreStores) := writePiecesInto io encode (k + 1) rest
        ((accepted ++ more, result), stores ++ moreStores)

def writeVirtiosoDataInto (u : Uart) (io : UartIo) (heap : Heap) (ptyIdx : Byte) (data : Bytes) :
    (Bytes × Int) × List Store :=
  if u.ptyMaxCount ≤ ptyIdx.toNat then (([], -einval), [])
  else if ptyIdx.toNat = u.rawPtyIdx ∨ ptyIdx.toNat = virtiosoDefaultPtyIdx then
    if !u.enableWriteRawPty then (([], 0), [])
    else
      match u.virtiosoOuterMode with
      | .nvidiaTcu =>
        if io.malloc 0 then
          let outer := outerInto u (heap.outer 0) data
          (putbufOrExit (io.putbuf 0) outer.filled, storesIn (data.length * 2 + 2) outer)
        else (([], -enomem), [])
      | .raw => (putbufOrExit (io.putbuf 0) data, [])
  else
    writePiecesInto io (encodeFragmentInto u io heap (u.tags ptyIdx.toNat).value) 0
      (pieces virtiosoDownlinkFragmentPayloadSize data)

/-! ### Contents and lengths -/

section Buffers
variable (u : Uart) (mem : Nat → Byte) (value : Byte)

theorem innerInto_eq (chunk : Bytes) : innerInto mem value chunk = (Buffer.ofMemory mem).pushAll (innerFrame value chunk) := by
  have hloop : ∀ b : Buffer Byte, chunk.foldl innerByteInto b =
      b.pushAll (chunk.flatMap (fun b => if b = vcmuxProtoEscStart then [vcmuxProtoEscEsc, b] else [b])) := by
    intro b
    apply Buffer.foldl_pushAll
    intro b byte
    by_cases hb : byte = vcmuxProtoEscStart <;> simp [innerByteInto, Buffer.pushAll, hb]
  simp only [innerInto, innerFrame, Buffer.pushAll_append, hloop]
  rfl

theorem outerInto_eq (bytes : Bytes) : outerInto u mem bytes = (Buffer.ofMemory mem).pushAll (outerWrap u bytes) := by
  have hloop : ∀ b : Buffer Byte, bytes.foldl outerByteInto b =
      b.pushAll (bytes.flatMap (fun b => if b = uartProtoEscStart then [b, uartProtoEscEsc] else [b])) := by
    intro b
    apply Buffer.foldl_pushAll
    intro b byte
    by_cases hb : byte = uartProtoEscStart <;> simp [outerByteInto, Buffer.pushAll, hb]
  simp only [outerInto, outerWrap, Buffer.pushAll_append, hloop]
  rfl

theorem innerInto_filled (chunk : Bytes) : (innerInto mem value chunk).filled = innerFrame value chunk := by
  rw [innerInto_eq, Buffer.filled_pushAll]
  rfl

theorem outerInto_filled (bytes : Bytes) : (outerInto u mem bytes).filled = outerWrap u bytes := by
  rw [outerInto_eq, Buffer.filled_pushAll]
  rfl

/-- At most two cells for each byte. -/
theorem length_doubled_le {f : Byte → Bytes} (hf : ∀ b, (f b).length ≤ 2) (bytes : Bytes) :
    (bytes.flatMap f).length ≤ bytes.length * 2 := by
  induction bytes with
  | nil => exact Nat.le_refl 0
  | cons b rest ih =>
    have hb := hf b
    rw [List.flatMap_cons, List.length_append, List.length_cons]
    omega

theorem length_innerFrame_le (chunk : Bytes) : (innerFrame value chunk).length ≤ chunk.length * 2 + 4 := by
  have hbody := length_doubled_le (f := fun b => if b = vcmuxProtoEscStart then [vcmuxProtoEscEsc, b] else [b])
    (fun b => by split <;> simp) chunk
  simp only [innerFrame, List.length_append, List.length_cons, List.length_nil]
  omega

theorem length_outerWrap_le (bytes : Bytes) : (outerWrap u bytes).length ≤ bytes.length * 2 + 2 := by
  have hbody := length_doubled_le (f := fun b => if b = uartProtoEscStart then [b, uartProtoEscEsc] else [b])
    (fun b => by split <;> simp) bytes
  simp only [outerWrap, List.length_append, List.length_cons, List.length_nil]
  omega

theorem innerInto_within (chunk : Bytes) : (innerInto mem value chunk).Within (chunk.length * 2 + 4) := by
  have hlen := length_innerFrame_le value chunk
  rw [innerInto_eq]
  exact Buffer.within_filling mem hlen

theorem outerInto_within {bytes : Bytes} {size : Nat} (hlen : bytes.length ≤ size) :
    (outerInto u mem bytes).Within (size * 2 + 2) := by
  have hwrap := length_outerWrap_le u bytes
  rw [outerInto_eq]
  exact Buffer.within_filling mem (hwrap.trans (by omega))

/-- The carrier doubles headers and payload of a frame alike. -/
theorem carriedInto_within (inner outer : Nat → Byte) (chunk : Bytes) :
    (outerInto u outer (innerInto inner value chunk).filled).Within ((chunk.length * 2 + 4) * 2 + 2) := by
  apply outerInto_within
  rw [Buffer.length_filled]
  exact (innerInto_within inner value chunk).idx

end Buffers

/-! ### Whole writes -/

def InBounds (stores : List Store) : Prop := ∀ s ∈ stores, s.index < s.size

theorem InBounds.nil : InBounds [] := List.forall_mem_nil _

theorem InBounds.append {a b : List Store} (ha : InBounds a) (hb : InBounds b) : InBounds (a ++ b) :=
  fun s hs => (List.mem_append.mp hs).elim (ha s) (hb s)

theorem inBounds_storesIn {b : Buffer Byte} {size : Nat} (h : b.Within size) : InBounds (storesIn size b) := by
  intro s hs
  obtain ⟨i, hi, rfl⟩ := List.mem_map.mp hs
  exact h.stores i hi

theorem encodeFragmentInto_fst (u : Uart) (io : UartIo) (heap : Heap) (value : Byte) (k : Nat) (chunk : Bytes) :
    (encodeFragmentInto u io heap value k chunk).1 =
      if io.malloc k then .ok (carry u (innerFrame value chunk)) else .error (-enomem) := by
  unfold encodeFragmentInto
  split
  · cases hmode : u.virtiosoOuterMode with
    | nvidiaTcu => simp only [carry, hmode, outerInto_filled, innerInto_filled]
    | raw => simp only [carry, hmode, innerInto_filled]
  · rfl

theorem encodeFragmentInto_inBounds (u : Uart) (io : UartIo) (heap : Heap) (value : Byte) (k : Nat) (chunk : Bytes) :
    InBounds (encodeFragmentInto u io heap value k chunk).2 := by
  unfold encodeFragmentInto
  split
  · have hinner := inBounds_storesIn (innerInto_within (heap.inner k) value chunk)
    cases u.virtiosoOuterMode with
    | nvidiaTcu =>
      exact hinner.append (inBounds_storesIn (carriedInto_within u value (heap.inner k) (heap.outer k) chunk))
    | raw => exact hinner
  · exact InBounds.nil

section Pieces
variable {io : UartIo} {encode : Nat → Bytes → Except Int Bytes × List Store}

theorem writePiecesInto_fst (k : Nat) (ps : List Bytes) :
    (writePiecesInto io encode k ps).1 = writePieces io (fun k piece => (encode k piece).1) k ps := by
  induction ps generalizing k with
  | nil => rfl
  | cons piece rest ih =>
    have hrest := ih (k + 1)
    rw [writePiecesInto, writePieces]
    rcases hencode : encode k piece with ⟨result, stores⟩
    cases result with
    | error e => rfl
    | ok buf =>
      simp only
      split
      · rfl
      · rw [← hrest]

theorem writePiecesInto_inBounds (hencode : ∀ k piece, InBounds (encode k piece).2) (k : Nat) (ps : List Bytes) :
    InBounds (writePiecesInto io encode k ps).2 := by
  induction ps generalizing k with
  | nil => exact InBounds.nil
  | cons piece rest ih =>
    have hrest := ih (k + 1)
    have hpiece := hencode k piece
    rw [writePiecesInto]
    rcases heq : encode k piece with ⟨result, stores⟩
    rw [heq] at hpiece
    cases result with
    | error e => exact hpiece
    | ok buf =>
      simp only
      split
      · exact hpiece
      · exact hpiece.append hrest

end Pieces

section Writes
variable (u : Uart) (io : UartIo) (heap : Heap) (ptyIdx : Byte) (data : Bytes)

theorem writeVirtiosoDataInto_fst :
    (writeVirtiosoDataInto u io heap ptyIdx data).1 = writeVirtiosoDataToUart u io ptyIdx data := by
  unfold writeVirtiosoDataInto writeVirtiosoDataToUart
  split
  · rfl
  split
  · split
    · rfl
    cases u.virtiosoOuterMode with
    | nvidiaTcu =>
      simp only [outerInto_filled]
      split <;> rfl
    | raw => rfl
  · rw [writePiecesInto_fst]
    simp only [encodeFragmentInto_fst]

theorem writeVirtiosoDataInto_inBounds : InBounds (writeVirtiosoDataInto u io heap ptyIdx data).2 := by
  unfold writeVirtiosoDataInto
  split
  · exact InBounds.nil
  split
  · split
    · exact InBounds.nil
    cases u.virtiosoOuterMode with
    | nvidiaTcu =>
      simp only
      split
      · exact inBounds_storesIn (outerInto_within u (heap.outer 0) (Nat.le_refl data.length))
      · exact InBounds.nil
    | raw => exact InBounds.nil
  · exact writePiecesInto_inBounds (encodeFragmentInto_inBounds u io heap (u.tags ptyIdx.toNat).value) 0 _

/-- Every store of a write is in bounds, the indices stay within the sizes, and no chunk of
the legacy loop is refused for want of room. -/
theorem uart_buffers_bounded :
    (writeVirtiosoDataInto u io heap ptyIdx data).1 = writeVirtiosoDataToUart u io ptyIdx data ∧
      (∀ s ∈ (writeVirtiosoDataInto u io heap ptyIdx data).2, s.index < s.size) ∧
      (∀ chunk ∈ pieces virtiosoDownlinkFragmentPayloadSize data, ∀ value inner outer,
        (innerInto inner value chunk).Within (chunk.length * 2 + 4) ∧
          (outerInto u outer (innerInto inner value chunk).filled).Within ((chunk.length * 2 + 4) * 2 + 2)) ∧
      (∀ outer, (outerInto u outer data).Within (data.length * 2 + 2)) ∧
      ∀ k, ∀ chunk ∈ pieces maxWriteChunkSize data, ∀ e, encodeLegacyChunk u ptyIdx k chunk ≠ .error e := by
  refine ⟨writeVirtiosoDataInto_fst u io heap ptyIdx data, writeVirtiosoDataInto_inBounds u io heap ptyIdx data, ?_, ?_, ?_⟩
  · intro chunk _ value inner outer
    exact ⟨innerInto_within inner value chunk, carriedInto_within u value inner outer chunk⟩
  · intro outer
    exact outerInto_within u outer (Nat.le_refl data.length)
  · intro k chunk hchunk e herror
    have hlen := pieces_length_le (by decide) data chunk hchunk
    rw [encodeLegacyChunk_ok u ptyIdx k hlen] at herror
    cases herror

end Writes

end VirtiosoMux.Host
