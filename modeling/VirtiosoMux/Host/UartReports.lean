import VirtiosoMux.Host.Uart

/-! # What the result of a UART write tells

A write is a sequence of `putbuf_or_exit` calls that stops at the first negative result.
Positive results, which are short writes, are taken for success.
-/
namespace VirtiosoMux.Host
open ByteStuffing Pieces

/-! ### The calls a write makes -/

structure UartCall where
  allocated : Bool
  outcome : PutbufIo
  buf : Bytes

def UartCall.Fails (c : UartCall) : Prop :=
  c.allocated = false ∨ c.outcome = .timedOut ∨ c.outcome = .failed ∨
    (∃ count, c.outcome = .accepted count false ∧ c.buf.length ≤ count) ∨
    ∃ count drained, c.outcome = .accepted count drained ∧ count < c.buf.length ∧ toInt32 count < 0

def UartCall.Complete (c : UartCall) : Prop :=
  ∃ count drained, c.outcome = .accepted count drained ∧ c.buf.length ≤ count

def runCalls : List UartCall → Bytes × Int
  | [] => ([], 0)
  | c :: rest =>
    if !c.allocated then ([], -enomem)
    else
      let (accepted, r) := putbufOrExit c.outcome c.buf
      if r < 0 then (accepted, r) else (accepted ++ (runCalls rest).1, (runCalls rest).2)

theorem putbuf_neg_iff (io : PutbufIo) (buf : Bytes) :
    (putbufOrExit io buf).2 < 0 ↔ (⟨true, io, buf⟩ : UartCall).Fails := by
  cases io with
  | timedOut => simp [putbufOrExit, UartCall.Fails]
  | failed => simp [putbufOrExit, UartCall.Fails]
  | accepted count drained =>
    by_cases hfull : buf.length ≤ count
    · have hno : ¬ count < buf.length := by omega
      cases drained <;> simp [putbufOrExit, UartCall.Fails, hfull, hno]
    · have hmin : min count buf.length = count := by omega
      have hlt : count < buf.length := by omega
      have hne : count ≠ buf.length := by omega
      cases drained <;> simp [putbufOrExit, UartCall.Fails, hmin, hlt, hne, hfull]

/-- The device accepts a buffer from its front. -/
theorem putbuf_accepted (io : PutbufIo) (buf : Bytes) : (putbufOrExit io buf).1 <+: buf := by
  cases io with
  | timedOut => exact List.nil_prefix
  | failed => exact List.nil_prefix
  | accepted count drained =>
    simp only [putbufOrExit]
    split
    · exact List.take_prefix _ _
    · split <;> exact List.prefix_rfl

theorem putbuf_accepted_length (io : PutbufIo) (buf : Bytes) : (putbufOrExit io buf).1.length ≤ buf.length :=
  (putbuf_accepted io buf).length_le

theorem putbuf_complete_iff {io : PutbufIo} {buf : Bytes} (h : ¬ (putbufOrExit io buf).2 < 0) :
    ((putbufOrExit io buf).1 = buf ↔ (⟨true, io, buf⟩ : UartCall).Complete) ∧
      ((putbufOrExit io buf).1 ≠ buf → (putbufOrExit io buf).1.length < buf.length) := by
  cases io with
  | timedOut => simp [putbufOrExit] at h
  | failed => simp [putbufOrExit] at h
  | accepted count drained =>
    by_cases hfull : buf.length ≤ count
    · cases drained <;> simp [putbufOrExit, UartCall.Complete, hfull]
    · have hmin : min count buf.length = count := by omega
      have hlt : count < buf.length := by omega
      have hne : count ≠ buf.length := by omega
      have htake : buf.take count ≠ buf := by
        intro heq
        have := congrArg List.length heq
        simp only [List.length_take] at this
        omega
      simp [putbufOrExit, UartCall.Complete, hmin, hne, hlt, htake]

/-- The result is negative exactly when some call of the sequence fails. -/
theorem runCalls_neg_iff (calls : List UartCall) : (runCalls calls).2 < 0 ↔ ∃ c ∈ calls, c.Fails := by
  induction calls with
  | nil => simp [runCalls]
  | cons c rest ih =>
    obtain ⟨allocated, outcome, buf⟩ := c
    cases allocated with
    | false => simp [runCalls, enomem, UartCall.Fails]
    | true =>
      have hp := putbuf_neg_iff outcome buf
      by_cases hneg : (putbufOrExit outcome buf).2 < 0
      · simp [runCalls, hneg, hp.mp hneg]
      · have hnf : ¬ (⟨true, outcome, buf⟩ : UartCall).Fails := fun hf => hneg (hp.mpr hf)
        simp [runCalls, hneg, hnf, ih]

theorem runCalls_length (calls : List UartCall) :
    (runCalls calls).1.length ≤ (calls.flatMap UartCall.buf).length := by
  induction calls with
  | nil => simp [runCalls]
  | cons c rest ih =>
    have hlen := putbuf_accepted_length c.outcome c.buf
    simp only [runCalls, List.flatMap_cons, List.length_append]
    split
    · simp
    · split
      · simp only; omega
      · simp only [List.length_append]; omega

theorem runCalls_cons {c : UartCall} (halloc : c.allocated = true) (rest : List UartCall) :
    (runCalls (c :: rest)).1 = (putbufOrExit c.outcome c.buf).1 ++
      if (putbufOrExit c.outcome c.buf).2 < 0 then [] else (runCalls rest).1 := by
  by_cases hneg : (putbufOrExit c.outcome c.buf).2 < 0 <;> simp [runCalls, halloc, hneg]

/-- If as many bytes have arrived as there are, all have. -/
theorem runCalls_eq_of_length {calls : List UartCall} (h : (runCalls calls).1.length = (calls.flatMap UartCall.buf).length) :
    (runCalls calls).1 = calls.flatMap UartCall.buf := by
  induction calls with
  | nil => rfl
  | cons c rest ih =>
    by_cases halloc : c.allocated = true
    · have hprefix := putbuf_accepted c.outcome c.buf
      have hlen := hprefix.length_le
      have hrest := runCalls_length rest
      rw [List.flatMap_cons, runCalls_cons halloc, List.length_append, List.length_append] at h
      rw [List.flatMap_cons, runCalls_cons halloc]
      split at h
      · -- a write that fails after the last byte
        rename_i hneg
        rw [List.length_nil] at h
        have hnone : (rest.flatMap UartCall.buf).length = 0 := by omega
        rw [if_pos hneg, hprefix.eq_of_length (by omega), List.eq_nil_of_length_eq_zero hnone]
      · rename_i hneg
        rw [if_neg hneg, hprefix.eq_of_length (by omega), ih (by omega)]
    · have hnone : (runCalls (c :: rest)).1 = [] := by simp [runCalls, halloc]
      rw [hnone] at h ⊢
      exact (List.eq_nil_of_length_eq_zero h.symm).symm

/-- If nothing fails, everything has arrived exactly when every write was complete. -/
theorem runCalls_complete_iff {calls : List UartCall} (h : ¬ ∃ c ∈ calls, c.Fails) :
    (runCalls calls).1 = calls.flatMap UartCall.buf ↔ ∀ c ∈ calls, c.Complete := by
  induction calls with
  | nil => simp [runCalls]
  | cons c rest ih =>
    simp only [List.mem_cons, exists_eq_or_imp, not_or] at h
    obtain ⟨hc, hrest⟩ := h
    obtain ⟨allocated, outcome, buf⟩ := c
    cases allocated with
    | false => exact absurd (.inl rfl) hc
    | true =>
      have hneg : ¬ (putbufOrExit outcome buf).2 < 0 := fun hlt => hc ((putbuf_neg_iff outcome buf).mp hlt)
      obtain ⟨hcomplete, hshort⟩ := putbuf_complete_iff hneg
      have hout : (runCalls (⟨true, outcome, buf⟩ :: rest)).1 = (putbufOrExit outcome buf).1 ++ (runCalls rest).1 := by
        simp [runCalls, hneg]
      rw [hout]
      simp only [List.flatMap_cons, List.forall_mem_cons]
      constructor
      · intro heq
        -- a shorter first part cannot be made up for by the rest
        have hfirst : (putbufOrExit outcome buf).1 = buf := by
          by_contra hne
          have hlt := hshort hne
          have hle := runCalls_length rest
          have := congrArg List.length heq
          simp only [List.length_append] at this
          omega
        rw [hfirst] at heq
        exact ⟨hcomplete.mp hfirst, (ih hrest).mp (List.append_cancel_left heq)⟩
      · rintro ⟨h₁, h₂⟩
        rw [hcomplete.mpr h₁, (ih hrest).mpr h₂]

/-! ### The encoding and its pieces -/

theorem doubled_eq_stuff (esc : Byte) (bytes : Bytes) :
    bytes.flatMap (fun b => if b = esc then [esc, b] else [b]) = stuff esc bytes := by
  induction bytes with
  | nil => rfl
  | cons b bs ih => by_cases hb : b = esc <;> simp [hb, ih]

theorem innerFrame_eq (value : Byte) (chunk : Bytes) : innerFrame value chunk = frameBytes value chunk := by
  rw [innerFrame, frameBytes, ← doubled_eq_stuff]

theorem stuff_flatten (esc : Byte) (ps : List Bytes) : stuff esc ps.flatten = ps.flatMap (stuff esc) := by
  induction ps with
  | nil => rfl
  | cons p ps ih => simp [ih]

/-- What the peer has to receive for the data to have been transmitted. -/
def completeEncoding (u : Uart) (ptyIdx : Byte) (data : Bytes) : Bytes :=
  if u.virtiosoModeEnabled then
    if ptyIdx.toNat = u.rawPtyIdx ∨ ptyIdx.toNat = virtiosoDefaultPtyIdx then carry u data
    else (pieces virtiosoDownlinkFragmentPayloadSize data).flatMap
      (fun p => carry u (frameBytes (u.tags ptyIdx.toNat).value p))
  else if ptyIdx.toNat = u.rawPtyIdx ∨ data = [] then data
  else [uartProtoEscStart, (u.tags ptyIdx.toNat).value] ++ stuff uartProtoEscStart data

def legacyBuffer (u : Uart) (ptyIdx : Byte) (k : Nat) (chunk : Bytes) : Bytes :=
  (if k = 0 ∧ ptyIdx.toNat ≠ u.rawPtyIdx then [uartProtoEscStart, (u.tags ptyIdx.toNat).value] else []) ++
    (if ptyIdx.toNat = u.rawPtyIdx then chunk else stuff uartProtoEscStart chunk)

theorem writeByteToEncodedBuf_ok {buf : Bytes} (h : buf.length < maxWriteChunkSize * 4 + 16) (x : Byte) :
    writeByteToEncodedBuf buf x = .ok (buf ++ [x]) := by
  rw [writeByteToEncodedBuf, if_neg (by omega)]

theorem writeLegacyByte_ok (u : Uart) (ptyIdx : Byte) {buf : Bytes}
    (h : buf.length + 2 ≤ maxWriteChunkSize * 4 + 16) (b : Byte) :
    writeLegacyByte u ptyIdx buf b =
      .ok (buf ++ (if ptyIdx.toNat = u.rawPtyIdx then [b] else stuff uartProtoEscStart [b])) := by
  have hfirst := writeByteToEncodedBuf_ok (show buf.length < maxWriteChunkSize * 4 + 16 by omega) b
  by_cases hraw : ptyIdx.toNat = u.rawPtyIdx
  · simp [writeLegacyByte, hfirst, hraw]
  · by_cases hb : b = uartProtoEscStart
    · have hsecond := writeByteToEncodedBuf_ok (show (buf ++ [b]).length < maxWriteChunkSize * 4 + 16 by simp only [List.length_append, List.length_singleton]; omega) uartProtoEscEsc
      subst hb
      simp [writeLegacyByte, hfirst, hsecond, hraw]
    · simp [writeLegacyByte, hfirst, hb, hraw]

theorem legacyLoop_ok (u : Uart) (ptyIdx : Byte) (chunk : Bytes) {buf : Bytes}
    (h : buf.length + 2 * chunk.length ≤ maxWriteChunkSize * 4 + 16) :
    chunk.foldlM (writeLegacyByte u ptyIdx) buf =
      .ok (buf ++ (if ptyIdx.toNat = u.rawPtyIdx then chunk else stuff uartProtoEscStart chunk)) := by
  induction chunk generalizing buf with
  | nil => simp [pure, Except.pure]
  | cons b chunk ih =>
    simp only [List.length_cons] at h
    have hlen : (buf ++ (if ptyIdx.toNat = u.rawPtyIdx then [b] else stuff uartProtoEscStart [b])).length ≤
        buf.length + 2 := by
      have := length_stuff_le uartProtoEscStart [b]
      simp only [List.length_append]
      split <;> simp_all
    rw [List.foldlM_cons, writeLegacyByte_ok u ptyIdx (by omega)]
    change chunk.foldlM (writeLegacyByte u ptyIdx) _ = _
    rw [ih (by omega)]
    by_cases hraw : ptyIdx.toNat = u.rawPtyIdx
    · simp [hraw]
    · simp only [hraw, if_false, List.append_assoc, ← stuff_append, List.singleton_append]

/-- A chunk of the legacy loop never fills the buffer. -/
theorem encodeLegacyChunk_ok (u : Uart) (ptyIdx : Byte) (k : Nat) {chunk : Bytes}
    (hlen : chunk.length ≤ maxWriteChunkSize) :
    encodeLegacyChunk u ptyIdx k chunk = .ok (legacyBuffer u ptyIdx k chunk) := by
  by_cases hhead : k = 0 ∧ ptyIdx.toNat ≠ u.rawPtyIdx
  · have h₁ := writeByteToEncodedBuf_ok (show ([] : Bytes).length < _ by simp [maxWriteChunkSize]) uartProtoEscStart
    have h₂ := writeByteToEncodedBuf_ok (show ([] ++ [uartProtoEscStart]).length < _ by simp [maxWriteChunkSize])
      (u.tags ptyIdx.toNat).value
    have hheader : writeLegacyHeader u ptyIdx k = .ok [uartProtoEscStart, (u.tags ptyIdx.toNat).value] := by
      simp only [writeLegacyHeader, if_pos hhead, h₁, h₂]
      rfl
    simp only [encodeLegacyChunk, hheader, legacyBuffer, if_pos hhead]
    exact legacyLoop_ok u ptyIdx chunk (by simp only [List.length_cons, List.length_nil]; omega)
  · simp only [encodeLegacyChunk, writeLegacyHeader, if_neg hhead, legacyBuffer]
    exact legacyLoop_ok u ptyIdx chunk (by simp only [List.length_nil]; omega)

/-! ### A write as a sequence of calls -/

def pieceCalls (io : UartIo) (malloc : Nat → Bool) (buffer : Nat → Bytes → Bytes) (k : Nat) (ps : List Bytes) :
    List UartCall :=
  (ps.zipIdx k).map (fun p => ⟨malloc p.2, io.putbuf p.2, buffer p.2 p.1⟩)

theorem writePieces_eq (io : UartIo) {encode : Nat → Bytes → Except Int Bytes} {malloc : Nat → Bool}
    {buffer : Nat → Bytes → Bytes} (ps : List Bytes) (k : Nat)
    (henc : ∀ k, ∀ p ∈ ps, encode k p = if malloc k then .ok (buffer k p) else .error (-enomem)) :
    writePieces io encode k ps = runCalls (pieceCalls io malloc buffer k ps) := by
  induction ps generalizing k with
  | nil => rfl
  | cons p ps ih =>
    have hrest := ih (k + 1) (fun k p hp => henc k p (List.mem_cons_of_mem _ hp))
    have hp := henc k p List.mem_cons_self
    simp only [pieceCalls, List.zipIdx_cons, List.map_cons] at hrest ⊢
    cases hm : malloc k with
    | false => simp [writePieces, runCalls, hp, hm]
    | true => simp only [writePieces, runCalls, hp, hm, hrest, if_true, Bool.not_true, Bool.false_eq_true, if_false]

/-- The calls that a write of `data` makes as long as none of them fails. -/
def uartCalls (u : Uart) (io : UartIo) (ptyIdx : Byte) (data : Bytes) : List UartCall :=
  if u.virtiosoModeEnabled then
    if ptyIdx.toNat = u.rawPtyIdx ∨ ptyIdx.toNat = virtiosoDefaultPtyIdx then
      [⟨decide (u.virtiosoOuterMode = .raw) || io.malloc 0, io.putbuf 0, carry u data⟩]
    else
      pieceCalls io io.malloc (fun _ p => carry u (frameBytes (u.tags ptyIdx.toNat).value p)) 0
        (pieces virtiosoDownlinkFragmentPayloadSize data)
  else
    pieceCalls io (fun k => decide (k ≠ 0) || io.malloc 0) (legacyBuffer u ptyIdx) 0 (pieces maxWriteChunkSize data)

theorem pieceCalls_bytes (io : UartIo) (malloc : Nat → Bool) (buffer : Nat → Bytes → Bytes) (f : Bytes → Bytes)
    (ps : List Bytes) (k : Nat) (hf : ∀ j, k ≤ j → ∀ p, buffer j p = f p) :
    (pieceCalls io malloc buffer k ps).flatMap UartCall.buf = ps.flatMap f := by
  induction ps generalizing k with
  | nil => rfl
  | cons p ps ih =>
    have hrest := ih (k + 1) (fun j hj => hf j (by omega))
    simp only [pieceCalls] at hrest
    simp [pieceCalls, hf k (Nat.le_refl k), hrest]

/-- Together the buffers of the calls are the complete encoding. -/
theorem uartCalls_bytes (u : Uart) (io : UartIo) (ptyIdx : Byte) (data : Bytes) :
    (uartCalls u io ptyIdx data).flatMap UartCall.buf = completeEncoding u ptyIdx data := by
  by_cases hmode : u.virtiosoModeEnabled = true
  · by_cases hraw : ptyIdx.toNat = u.rawPtyIdx ∨ ptyIdx.toNat = virtiosoDefaultPtyIdx
    · simp [uartCalls, completeEncoding, hmode, hraw]
    · simp only [uartCalls, completeEncoding, hmode, if_true, if_neg hraw]
      exact pieceCalls_bytes io _ _ _ _ 0 (fun _ _ _ => rfl)
  · simp only [uartCalls, completeEncoding, hmode, Bool.false_eq_true, if_false]
    by_cases hd : data = []
    · subst hd
      simp [pieces_nil, pieceCalls]
    · have hsize : 0 < maxWriteChunkSize := by decide
      have hrest := pieceCalls_bytes io (fun k => decide (k ≠ 0) || io.malloc 0) (legacyBuffer u ptyIdx)
        (fun p => if ptyIdx.toNat = u.rawPtyIdx then p else stuff uartProtoEscStart p)
        (pieces maxWriteChunkSize (data.drop maxWriteChunkSize)) 1 (by
          intro j hj p
          have hj : j ≠ 0 := by omega
          simp [legacyBuffer, hj])
      have hcalls : pieceCalls io (fun k => decide (k ≠ 0) || io.malloc 0) (legacyBuffer u ptyIdx) 0
          (pieces maxWriteChunkSize data) =
          ⟨io.malloc 0, io.putbuf 0, legacyBuffer u ptyIdx 0 (data.take maxWriteChunkSize)⟩ ::
          pieceCalls io (fun k => decide (k ≠ 0) || io.malloc 0) (legacyBuffer u ptyIdx) 1
            (pieces maxWriteChunkSize (data.drop maxWriteChunkSize)) := by
        rw [pieces_cons hsize hd]
        simp [pieceCalls]
      rw [hcalls, List.flatMap_cons, hrest]
      have hdata := pieces_flatten hsize (data.drop maxWriteChunkSize)
      by_cases hraw : ptyIdx.toNat = u.rawPtyIdx
      · simp [legacyBuffer, hraw, List.flatMap_id', hdata]
      · have hstuff := stuff_flatten uartProtoEscStart (pieces maxWriteChunkSize (data.drop maxWriteChunkSize))
        rw [hdata] at hstuff
        simp only [legacyBuffer, hraw, hd, or_self, if_false, ne_eq, not_false_eq_true, and_self, if_true]
        rw [← hstuff, List.append_assoc, ← stuff_append, List.take_append_drop]

def Suppressed (u : Uart) (ptyIdx : Byte) : Prop :=
  u.enableWriteRawPty = false ∧
    (ptyIdx.toNat = u.rawPtyIdx ∨ (u.virtiosoModeEnabled = true ∧ ptyIdx.toNat = virtiosoDefaultPtyIdx))

instance (u : Uart) (ptyIdx : Byte) : Decidable (Suppressed u ptyIdx) := inferInstanceAs (Decidable (_ ∧ _))

/-- A single call, whose result is returned as it is. -/
theorem runCalls_one (io : PutbufIo) (buf : Bytes) : (runCalls [⟨true, io, buf⟩]).1 = (putbufOrExit io buf).1 ∧
    ((putbufOrExit io buf).2 < 0 ↔ (runCalls [⟨true, io, buf⟩]).2 < 0) := by
  by_cases hneg : (putbufOrExit io buf).2 < 0 <;> simp [runCalls, hneg]

section Paths
variable {u : Uart} {io : UartIo} {ptyIdx : Byte} (hsup : ¬ Suppressed u ptyIdx) (hidx : ¬ u.ptyMaxCount ≤ ptyIdx.toNat)
include hsup hidx

/-- A write to the unframed PTYs of virtioso mode. -/
theorem virtiosoRaw_calls (hmode : u.virtiosoModeEnabled = true)
    (hraw : ptyIdx.toNat = u.rawPtyIdx ∨ ptyIdx.toNat = virtiosoDefaultPtyIdx) (data : Bytes) :
    (writeDataToUart u io ptyIdx data).1 = (runCalls (uartCalls u io ptyIdx data)).1 ∧
      ((writeDataToUart u io ptyIdx data).2 < 0 ↔ (runCalls (uartCalls u io ptyIdx data)).2 < 0) := by
  have hw : u.enableWriteRawPty = true := by
    by_contra hno
    exact hsup ⟨by simpa using hno, hraw.imp id (fun h => ⟨hmode, h⟩)⟩
  obtain ⟨hbytes, hneg⟩ := runCalls_one (io.putbuf 0) (carry u data)
  cases houter : u.virtiosoOuterMode with
  | raw =>
    have hcarry : carry u data = data := by simp [carry, houter]
    simp only [writeDataToUart, writeVirtiosoDataToUart, uartCalls, hmode, hidx, hraw, hw, houter, if_true,
      if_false, Bool.not_true, Bool.false_eq_true, decide_true, Bool.true_or, hcarry] at hbytes hneg ⊢
    exact ⟨hbytes.symm, hneg⟩
  | nvidiaTcu =>
    have hcarry : carry u data = outerWrap u data := by simp [carry, houter]
    cases hm : io.malloc 0 with
    | false =>
      simp [writeDataToUart, writeVirtiosoDataToUart, uartCalls, hmode, hidx, hraw, hw, houter, hm, runCalls]
    | true =>
      simp only [writeDataToUart, writeVirtiosoDataToUart, uartCalls, hmode, hidx, hraw, hw, houter, hm, if_true,
        if_false, Bool.not_true, Bool.false_eq_true, Bool.or_true, hcarry] at hbytes hneg ⊢
      exact ⟨hbytes.symm, hneg⟩

omit hsup in
theorem virtiosoFrames_calls (hmode : u.virtiosoModeEnabled = true)
    (hraw : ¬ (ptyIdx.toNat = u.rawPtyIdx ∨ ptyIdx.toNat = virtiosoDefaultPtyIdx)) (data : Bytes) :
    writeDataToUart u io ptyIdx data = runCalls (uartCalls u io ptyIdx data) := by
  simp only [writeDataToUart, writeVirtiosoDataToUart, uartCalls, hmode, hidx, hraw, if_true, if_false]
  refine writePieces_eq io _ 0 ?_
  intro k p _
  rw [innerFrame_eq]

theorem legacyChunks_calls (hmode : ¬ u.virtiosoModeEnabled = true) (hm : io.malloc 0 = true) (data : Bytes) :
    writeDataToUart u io ptyIdx data = runCalls (uartCalls u io ptyIdx data) := by
  have hnot : ¬ (ptyIdx.toNat = u.rawPtyIdx ∧ (!u.enableWriteRawPty) = true) := by
    rintro ⟨hraw, hw⟩
    exact hsup ⟨by simpa using hw, .inl hraw⟩
  simp only [writeDataToUart, uartCalls, hmode, hidx, hnot, hm, if_false, Bool.false_eq_true, Bool.not_true]
  refine writePieces_eq io _ 0 ?_
  intro k p hp
  rw [encodeLegacyChunk_ok u ptyIdx k (pieces_length_le (by decide) data p hp)]
  simp

end Paths

/-- A write that gets as far as its chunks is its sequence of calls, up to the positive result
of a short write. -/
theorem writeDataToUart_calls {u : Uart} {io : UartIo} {ptyIdx : Byte} (hsup : ¬ Suppressed u ptyIdx)
    (hidx : ptyIdx.toNat < u.ptyMaxCount) (halloc : u.virtiosoModeEnabled = true ∨ io.malloc 0 = true)
    (data : Bytes) :
    (writeDataToUart u io ptyIdx data).1 = (runCalls (uartCalls u io ptyIdx data)).1 ∧
      ((writeDataToUart u io ptyIdx data).2 < 0 ↔ (runCalls (uartCalls u io ptyIdx data)).2 < 0) := by
  have hvalid : ¬ u.ptyMaxCount ≤ ptyIdx.toNat := Nat.not_le.mpr hidx
  by_cases hmode : u.virtiosoModeEnabled = true
  · by_cases hraw : ptyIdx.toNat = u.rawPtyIdx ∨ ptyIdx.toNat = virtiosoDefaultPtyIdx
    · exact virtiosoRaw_calls hsup hvalid hmode hraw data
    · rw [virtiosoFrames_calls hvalid hmode hraw data]
      exact ⟨rfl, Iff.rfl⟩
  · rw [legacyChunks_calls hsup hvalid hmode (halloc.resolve_left hmode) data]
    exact ⟨rfl, Iff.rfl⟩

/-- A write that does not report a failure has transmitted the complete encoding, if and only
if the PTY index is refused, some call fails visibly, or every write takes its whole buffer. -/
theorem write_reported_iff (u : Uart) (io : UartIo) (ptyIdx : Byte) (data : Bytes) (hsup : ¬ Suppressed u ptyIdx) :
    (0 ≤ (writeDataToUart u io ptyIdx data).2 →
      (writeDataToUart u io ptyIdx data).1 = completeEncoding u ptyIdx data) ↔
    (u.ptyMaxCount ≤ ptyIdx.toNat ∨ (∃ c ∈ uartCalls u io ptyIdx data, c.Fails) ∨
      ∀ c ∈ uartCalls u io ptyIdx data, c.Complete) := by
  by_cases hidx : u.ptyMaxCount ≤ ptyIdx.toNat
  · have hres : (writeDataToUart u io ptyIdx data).2 < 0 := by
      by_cases hmode : u.virtiosoModeEnabled = true <;>
        simp [writeDataToUart, writeVirtiosoDataToUart, hmode, hidx, einval]
    exact ⟨fun _ => .inl hidx, fun _ h => absurd h (by omega)⟩
  by_cases halloc : u.virtiosoModeEnabled = true ∨ io.malloc 0 = true
  · obtain ⟨hbytes, hneg⟩ := writeDataToUart_calls hsup (by omega) halloc data
    have hnonneg : 0 ≤ (writeDataToUart u io ptyIdx data).2 ↔ ¬ ∃ c ∈ uartCalls u io ptyIdx data, c.Fails := by
      rw [← runCalls_neg_iff, ← hneg, Int.not_lt]
    rw [hnonneg, hbytes, ← uartCalls_bytes u io ptyIdx data]
    by_cases hfail : ∃ c ∈ uartCalls u io ptyIdx data, c.Fails
    · exact ⟨fun _ => .inr (.inl hfail), fun _ h => absurd hfail h⟩
    · rw [runCalls_complete_iff hfail]
      exact ⟨fun h => .inr (.inr (h hfail)), fun h _ => (h.resolve_left hidx).resolve_left hfail⟩
  · -- the legacy encode buffer could not be allocated: nothing is sent and that is reported
    simp only [not_or, Bool.not_eq_true] at halloc
    obtain ⟨hmode, hm⟩ := halloc
    have hnot : ¬ (ptyIdx.toNat = u.rawPtyIdx ∧ (!u.enableWriteRawPty) = true) := by
      rintro ⟨hraw, hw⟩
      exact hsup ⟨by simpa using hw, .inl hraw⟩
    have hres : (writeDataToUart u io ptyIdx data).2 < 0 := by
      simp only [writeDataToUart, hmode, hidx, hnot, hm, Bool.false_eq_true, if_false, Bool.not_false, if_true]
      decide
    refine ⟨fun _ => ?_, fun _ h => absurd h (by omega)⟩
    by_cases hd : data = []
    · subst hd
      simp [uartCalls, hmode, pieces_nil, pieceCalls]
    · refine .inr (.inl ⟨⟨false, io.putbuf 0, legacyBuffer u ptyIdx 0 (data.take maxWriteChunkSize)⟩, ?_, .inl rfl⟩)
      simp only [uartCalls, hmode, Bool.false_eq_true, if_false]
      rw [pieces_cons (by decide) hd]
      simp [pieceCalls, hm]

def rawUart : Uart where
  virtiosoModeEnabled := true
  virtiosoOuterMode := .raw
  virtiosoOuterTagIdx := 0
  enableWriteRawPty := false
  tags i := if i = 3 then ⟨some (ascii "vm0"), 1⟩ else Tag.cleared
  ptyMaxCount := 4
  rawPtyIdx := 0

theorem pieces_single (size : Nat) (b : Byte) : pieces (size + 1) [b] = [[b]] :=
  pieces_short (List.cons_ne_nil b []) (Nat.succ_le_succ (Nat.zero_le size))

/-- A frame that the device takes whole. -/
theorem write_reported_iff_whole :
    0 ≤ (writeDataToUart rawUart ⟨fun _ => true, fun _ => .accepted 5 true⟩ 3 [0x41]).2 ∧
    (writeDataToUart rawUart ⟨fun _ => true, fun _ => .accepted 5 true⟩ 3 [0x41]).1 =
      completeEncoding rawUart 3 [0x41] := by
  have hone := pieces_single 511 0x41
  have hres : 0 ≤ (writeDataToUart rawUart ⟨fun _ => true, fun _ => .accepted 5 true⟩ 3 [0x41]).2 := by
    simp only [writeDataToUart, writeVirtiosoDataToUart, virtiosoDownlinkFragmentPayloadSize, hone]
    decide
  refine ⟨hres, (write_reported_iff rawUart ⟨fun _ => true, fun _ => .accepted 5 true⟩ 3 [0x41] (by decide)).mpr ?_ hres⟩
  refine .inr (.inr ?_)
  simp only [uartCalls, virtiosoDownlinkFragmentPayloadSize, hone]
  intro c hc
  cases List.mem_singleton.mp hc
  exact ⟨5, true, rfl, by decide⟩

/-- The device takes two of the five bytes of a frame and the write returns zero. -/
theorem short_write_unreported :
    writeDataToUart rawUart ⟨fun _ => true, fun _ => .accepted 2 true⟩ 3 [0x41] = ([0xfe, 0x01], 0) ∧
    ¬ ∀ u io ptyIdx data, ¬ Suppressed u ptyIdx → 0 ≤ (writeDataToUart u io ptyIdx data).2 →
      (writeDataToUart u io ptyIdx data).1 = completeEncoding u ptyIdx data := by
  have hone := pieces_single 511 0x41
  have hres : writeDataToUart rawUart ⟨fun _ => true, fun _ => .accepted 2 true⟩ 3 [0x41] = ([0xfe, 0x01], 0) := by
    simp only [writeDataToUart, writeVirtiosoDataToUart, virtiosoDownlinkFragmentPayloadSize, hone]
    decide
  refine ⟨hres, ?_⟩
  intro h
  have hbytes := h rawUart ⟨fun _ => true, fun _ => .accepted 2 true⟩ 3 [0x41] (by decide) (Int.le_of_eq (by rw [hres]))
  rw [hres] at hbytes
  simp only [completeEncoding, virtiosoDownlinkFragmentPayloadSize, hone] at hbytes
  exact absurd hbytes (by decide)

end VirtiosoMux.Host
