import VirtiosoMux.Host.Runs
import VirtiosoMux.Host.LineEnds
import VirtiosoMux.Host.UartReports

/-! # Legacy mode

Without `-A` the multiplexer itself is the peer of the NVIDIA TCU: every PTY but RAW has a tag, a
write goes out behind the tag of its PTY, and the receiving thread hands each byte to the PTY that
was selected last. RAW gets every byte as it is.
-/
namespace VirtiosoMux.Host
open ByteStuffing Pieces

/-- The globals that `main` sets: the tags of the chip, of which the last is the default, and one
PTY more. -/
def legacyTable : Table where
  tags i := (chipTags[i]?).getD Tag.cleared
  numProc := chipTags.length
  ptyMaxCount := chipTags.length + 1
  inputEnabled _ := false
  defaultTagIdx := chipTags.length - 1

def legacyRawPtyIdx : Nat := legacyTable.ptyMaxCount - 1

structure Uart.Legacy (u : Uart) : Prop where
  mode : u.virtiosoModeEnabled = false
  tags : u.tags = legacyTable.tags
  count : u.ptyMaxCount = legacyTable.ptyMaxCount
  raw : u.rawPtyIdx = legacyRawPtyIdx

/-! ### The receiving thread -/

/-- The locals of `tty_input_handler` that legacy mode uses, the globals, and the calls of
`patch2flush_stream` so far. -/
structure LegacyReceiver where
  inEscape : Bool
  curRxGuest : Nat
  host : State
  flushed : List (Nat × Byte)

/-- A call of `patch2flush_stream`, whose result the thread ignores. -/
def LegacyReceiver.flush (env : Env) (r : LegacyReceiver) (i : Nat) (ch : Byte) : LegacyReceiver :=
  { r with host := (patch2flushStream env r.host i ch).1, flushed := r.flushed ++ [(i, ch)] }

def matchTag (t : Table) (ch : Byte) : Option Nat := (List.range t.numProc).find? fun i => (t.tags i).value == ch

def LegacyReceiver.feed (env : Env) (r : LegacyReceiver) (ch : Byte) : LegacyReceiver :=
  let r := r.flush env legacyRawPtyIdx ch
  if r.inEscape then
    let r := { r with inEscape := false }
    if ch = uartProtoEscEsc then r.flush env r.curRxGuest uartProtoEscStart
    else if ch = uartProtoEscReset then { r with curRxGuest := r.host.table.defaultTagIdx }
    else
      match matchTag r.host.table ch with
      | some tagIdx => { r with curRxGuest := tagIdx }
      | none => r
  else if ch = uartProtoEscStart then { r with inEscape := true }
  else r.flush env r.curRxGuest ch

def LegacyReceiver.tick (r : LegacyReceiver) : LegacyReceiver :=
  { r with host := { r.host with clock := r.host.clock + 1 } }

def LegacyReceiver.run (env : Env) (r : LegacyReceiver) (bytes : Bytes) : LegacyReceiver :=
  bytes.foldl (fun r ch => (r.feed env ch).tick) r

def LegacyReceiver.flushedTo (r : LegacyReceiver) (i : Nat) : Bytes := bytesFor i r.flushed

section Receiver
variable {env : Env}

theorem flush_table (r : LegacyReceiver) (i : Nat) (ch : Byte) : (r.flush env i ch).host.table = r.host.table := by
  obtain ⟨p, n, seenR, ret, heq⟩ := patch2flushStream_slot env r.host i ch
  simp only [LegacyReceiver.flush, heq]
  rfl

theorem flush_flushedTo (r : LegacyReceiver) (i j : Nat) (ch : Byte) :
    (r.flush env i ch).flushedTo j = r.flushedTo j ++ only i [ch] j := by
  by_cases hj : j = i
  · subst hj
    simp [LegacyReceiver.flushedTo, LegacyReceiver.flush, bytesFor]
  · simp [LegacyReceiver.flushedTo, LegacyReceiver.flush, bytesFor, only_of_ne hj, Ne.symm hj]

section Feed
variable {r : LegacyReceiver}

theorem legacy_start (h : r.inEscape = false) :
    r.feed env uartProtoEscStart = { r.flush env legacyRawPtyIdx uartProtoEscStart with inEscape := true } := by
  have hplain : (r.flush env legacyRawPtyIdx uartProtoEscStart).inEscape = false := h
  simp only [LegacyReceiver.feed, hplain, Bool.false_eq_true, if_false, if_true]

theorem legacy_plain (h : r.inEscape = false) {ch : Byte} (hch : ch ≠ uartProtoEscStart) :
    r.feed env ch = (r.flush env legacyRawPtyIdx ch).flush env r.curRxGuest ch := by
  have hplain : (r.flush env legacyRawPtyIdx ch).inEscape = false := h
  simp only [LegacyReceiver.feed, hplain, Bool.false_eq_true, if_false, if_neg hch]
  rfl

/-- The jump from the escape case back into the data case. -/
theorem legacy_literal (h : r.inEscape = true) : r.feed env uartProtoEscEsc =
    { (r.flush env legacyRawPtyIdx uartProtoEscEsc).flush env r.curRxGuest uartProtoEscStart with inEscape := false } := by
  have hpending : (r.flush env legacyRawPtyIdx uartProtoEscEsc).inEscape = true := h
  simp only [LegacyReceiver.feed, hpending, if_true]
  rfl

theorem legacy_select (h : r.inEscape = true) {ch : Byte} {i : Nat} (hesc : ch ≠ uartProtoEscEsc)
    (hreset : ch ≠ uartProtoEscReset) (hmatch : matchTag r.host.table ch = some i) :
    r.feed env ch = { r.flush env legacyRawPtyIdx ch with inEscape := false, curRxGuest := i } := by
  have hpending : (r.flush env legacyRawPtyIdx ch).inEscape = true := h
  have hfound : matchTag (r.flush env legacyRawPtyIdx ch).host.table ch = some i := by
    rw [flush_table]
    exact hmatch
  simp only [LegacyReceiver.feed, hpending, if_true, if_neg hesc, if_neg hreset, hfound]

theorem legacy_reset (h : r.inEscape = true) : r.feed env uartProtoEscReset =
    { r.flush env legacyRawPtyIdx uartProtoEscReset with
      inEscape := false, curRxGuest := r.host.table.defaultTagIdx } := by
  have hpending : (r.flush env legacyRawPtyIdx uartProtoEscReset).inEscape = true := h
  have hne : uartProtoEscReset ≠ uartProtoEscEsc := by decide
  simp only [LegacyReceiver.feed, hpending, if_true, if_neg hne, flush_table]

/-- A code that is no tag is dropped. -/
theorem legacy_unknown (h : r.inEscape = true) {ch : Byte} (hesc : ch ≠ uartProtoEscEsc)
    (hreset : ch ≠ uartProtoEscReset) (hmatch : matchTag r.host.table ch = none) :
    r.feed env ch = { r.flush env legacyRawPtyIdx ch with inEscape := false } := by
  have hpending : (r.flush env legacyRawPtyIdx ch).inEscape = true := h
  have hfound : matchTag (r.flush env legacyRawPtyIdx ch).host.table ch = none := by
    rw [flush_table]
    exact hmatch
  simp only [LegacyReceiver.feed, hpending, if_true, if_neg hesc, if_neg hreset, hfound]

/-- What one byte can do: RAW gets it, a PTY is selected, and the selected one may get a byte. -/
theorem feed_cases (r : LegacyReceiver) (ch : Byte) : ∃ pending guest,
    (guest = r.curRxGuest ∨ guest = r.host.table.defaultTagIdx ∨ matchTag r.host.table ch = some guest) ∧
      let s := { r.flush env legacyRawPtyIdx ch with inEscape := pending, curRxGuest := guest }
      r.feed env ch = s ∨ ∃ out, r.feed env ch = s.flush env guest out := by
  by_cases hescape : r.inEscape = true
  · by_cases hesc : ch = uartProtoEscEsc
    · subst hesc
      exact ⟨false, r.curRxGuest, .inl rfl, .inr ⟨uartProtoEscStart, legacy_literal hescape⟩⟩
    by_cases hreset : ch = uartProtoEscReset
    · subst hreset
      exact ⟨false, _, .inr (.inl rfl), .inl (legacy_reset hescape)⟩
    cases hmatch : matchTag r.host.table ch with
    | some i => exact ⟨false, i, .inr (.inr rfl), .inl (legacy_select hescape hesc hreset hmatch)⟩
    | none => exact ⟨false, r.curRxGuest, .inl rfl, .inl (legacy_unknown hescape hesc hreset hmatch)⟩
  · have hplain : r.inEscape = false := Bool.eq_false_of_not_eq_true hescape
    by_cases hstart : ch = uartProtoEscStart
    · subst hstart
      exact ⟨true, r.curRxGuest, .inl rfl, .inl (legacy_start hplain)⟩
    · refine ⟨false, r.curRxGuest, .inl rfl, .inr ⟨ch, ?_⟩⟩
      rw [legacy_plain hplain hstart]
      simp only [LegacyReceiver.flush, hplain]

theorem feed_table (r : LegacyReceiver) (ch : Byte) : (r.feed env ch).host.table = r.host.table := by
  obtain ⟨pending, guest, -, heq | ⟨out, heq⟩⟩ := @feed_cases env r ch
  · rw [heq]
    exact flush_table r _ _
  · rw [heq, flush_table]
    exact flush_table r _ _

/-- Only PTYs that exist are selected, as the receiving thread asserts before it writes. -/
theorem run_guest (htable : r.host.table = legacyTable) (hguest : r.curRxGuest < legacyTable.ptyMaxCount) (bytes : Bytes) :
    (r.run env bytes).curRxGuest < legacyTable.ptyMaxCount := by
  induction bytes generalizing r with
  | nil => exact hguest
  | cons ch rest ih =>
    obtain ⟨pending, guest, hselected, heq⟩ := @feed_cases env r ch
    have hnext : (r.feed env ch).curRxGuest = guest := by
      obtain heq | ⟨out, heq⟩ := heq
      · rw [heq]
      · rw [heq]
        rfl
    refine ih (r := (r.feed env ch).tick) ((feed_table r ch).trans htable) ?_
    change (r.feed env ch).curRxGuest < legacyTable.ptyMaxCount
    rw [hnext]
    rw [htable] at hselected
    rcases hselected with rfl | rfl | hmatch
    · exact hguest
    · decide
    · have hi := List.mem_range.mp (List.mem_of_find?_eq_some hmatch)
      exact Nat.lt_succ_of_lt hi

end Feed

/-! ### Reading a line -/

/-- From `r` to `r'` the bytes are read: RAW gets them, the other PTYs get `out`, and no escape is
pending. -/
structure LegacyReads (env : Env) (r r' : LegacyReceiver) (bytes : Bytes) (out : Nat → Bytes) : Prop where
  run : r.run env bytes = r'
  escape : r'.inEscape = false
  table : r'.host.table = r.host.table
  flushed : ∀ i, r'.flushedTo i = r.flushedTo i ++ if i = legacyRawPtyIdx then bytes else out i

theorem LegacyReads.refl {r : LegacyReceiver} (h : r.inEscape = false) : LegacyReads env r r [] (fun _ => []) := by
  constructor
  · rfl
  · exact h
  · rfl
  · intro i
    rw [ite_self, List.append_nil]

theorem LegacyReads.trans {r s t : LegacyReceiver} {v w : Bytes} {d e : Nat → Bytes} (a : LegacyReads env r s v d)
    (b : LegacyReads env s t w e) : LegacyReads env r t (v ++ w) (fun i => d i ++ e i) := by
  constructor
  · rw [LegacyReceiver.run, List.foldl_append]
    change (r.run env v).run env w = t
    rw [a.run, b.run]
  · exact b.escape
  · exact b.table.trans a.table
  · intro i
    rw [b.flushed, a.flushed, List.append_assoc]
    split <;> rfl

theorem LegacyReads.congr {r s : LegacyReceiver} {v : Bytes} {d e : Nat → Bytes} (a : LegacyReads env r s v d)
    (hde : ∀ i, d i = e i) : LegacyReads env r s v e :=
  ⟨a.run, a.escape, a.table, fun i => by rw [a.flushed i, hde i]⟩

/-- A byte or an escape pair of the payload. -/
theorem reads_flushed {r s : LegacyReceiver} {bytes p : Bytes} (hrun : r.run env bytes = s.tick)
    (hescape : s.inEscape = false) (htable : s.host.table = r.host.table)
    (hflushed : ∀ i, s.flushedTo i = r.flushedTo i ++ (only legacyRawPtyIdx bytes i ++ only r.curRxGuest p i))
    (hguest : r.curRxGuest ≠ legacyRawPtyIdx) : LegacyReads env r s.tick bytes (only r.curRxGuest p) := by
  refine ⟨hrun, hescape, htable, fun i => (hflushed i).trans ?_⟩
  congr 1
  by_cases hi : i = legacyRawPtyIdx
  · subst hi
    rw [if_pos rfl, only_self, only_of_ne hguest.symm, List.append_nil]
  · rw [if_neg hi, only_of_ne hi, List.nil_append]

/-- The tags are distinct, and none is an escape or a reset. -/
theorem legacy_tags : ∀ i < chipTags.length, matchTag legacyTable (legacyTable.tags i).value = some i ∧
    (legacyTable.tags i).value ≠ uartProtoEscEsc ∧ (legacyTable.tags i).value ≠ uartProtoEscReset := by
  decide

theorem guest_ne_raw {i : Nat} (hi : i < chipTags.length) : i ≠ legacyRawPtyIdx := Nat.ne_of_lt hi

/-- A header selects its PTY. -/
theorem reads_header {r : LegacyReceiver} (hescape : r.inEscape = false) (htable : r.host.table = legacyTable) {i : Nat}
    (hi : i < chipTags.length) :
    ∃ r', LegacyReads env r r' [uartProtoEscStart, (legacyTable.tags i).value] (fun _ => []) ∧ r'.curRxGuest = i := by
  obtain ⟨hmatch, hesc, hreset⟩ := legacy_tags i hi
  let s : LegacyReceiver := { r.flush env legacyRawPtyIdx uartProtoEscStart with inEscape := true }
  let t : LegacyReceiver :=
    { s.tick.flush env legacyRawPtyIdx (legacyTable.tags i).value with inEscape := false, curRxGuest := i }
  have hs : s.tick.host.table = legacyTable := (flush_table r _ _).trans htable
  have hrun : r.run env [uartProtoEscStart, (legacyTable.tags i).value] = t.tick := by
    change ((r.feed env uartProtoEscStart).tick.feed env (legacyTable.tags i).value).tick = t.tick
    have hfound : matchTag s.tick.host.table (legacyTable.tags i).value = some i := by
      rw [hs]
      exact hmatch
    rw [legacy_start hescape, legacy_select (r := s.tick) rfl hesc hreset hfound]
  refine ⟨t.tick, ⟨hrun, rfl, ?_, ?_⟩, rfl⟩
  · exact (flush_table s.tick _ _).trans (hs.trans htable.symm)
  · intro j
    have hfirst : s.tick.flushedTo j = r.flushedTo j ++ only legacyRawPtyIdx [uartProtoEscStart] j :=
      @flush_flushedTo env r _ j _
    have hsecond : t.tick.flushedTo j = s.tick.flushedTo j ++ only legacyRawPtyIdx [(legacyTable.tags i).value] j :=
      @flush_flushedTo env s.tick _ j _
    rw [hsecond, hfirst, List.append_assoc, only_append]
    rfl

section Payload
variable {r : LegacyReceiver} (hescape : r.inEscape = false) (hguest : r.curRxGuest ≠ legacyRawPtyIdx)
include hescape hguest

/-- An escape pair is the escape for the selected PTY. -/
theorem reads_literal : ∃ r', LegacyReads env r r' [uartProtoEscStart, uartProtoEscEsc] (only r.curRxGuest [uartProtoEscStart]) ∧
    r'.curRxGuest = r.curRxGuest := by
  let s : LegacyReceiver := { r.flush env legacyRawPtyIdx uartProtoEscStart with inEscape := true }
  let t : LegacyReceiver := { (s.tick.flush env legacyRawPtyIdx uartProtoEscEsc).flush env r.curRxGuest uartProtoEscStart with
    inEscape := false }
  have hrun : r.run env [uartProtoEscStart, uartProtoEscEsc] = t.tick := by
    change ((r.feed env uartProtoEscStart).tick.feed env uartProtoEscEsc).tick = t.tick
    rw [legacy_start hescape, legacy_literal (r := s.tick) rfl]
    rfl
  have hflushed : ∀ i, t.flushedTo i = r.flushedTo i ++
      (only legacyRawPtyIdx [uartProtoEscStart, uartProtoEscEsc] i ++ only r.curRxGuest [uartProtoEscStart] i) := by
    intro i
    have hstart : s.tick.flushedTo i = r.flushedTo i ++ only legacyRawPtyIdx [uartProtoEscStart] i :=
      @flush_flushedTo env r _ i _
    have hesc : (s.tick.flush env legacyRawPtyIdx uartProtoEscEsc).flushedTo i =
        s.tick.flushedTo i ++ only legacyRawPtyIdx [uartProtoEscEsc] i := flush_flushedTo _ _ i _
    have hliteral : t.flushedTo i = (s.tick.flush env legacyRawPtyIdx uartProtoEscEsc).flushedTo i ++
        only r.curRxGuest [uartProtoEscStart] i := @flush_flushedTo env _ _ i _
    rw [hliteral, hesc, hstart, List.append_assoc, List.append_assoc, ← List.append_assoc (only legacyRawPtyIdx _ i),
      only_append]
    rfl
  have htable : t.host.table = r.host.table :=
    (flush_table _ _ _).trans ((flush_table s.tick _ _).trans (flush_table r _ _))
  exact ⟨t.tick, reads_flushed hrun rfl htable hflushed hguest, rfl⟩

theorem reads_plain {b : Byte} (hb : b ≠ uartProtoEscStart) :
    ∃ r', LegacyReads env r r' [b] (only r.curRxGuest [b]) ∧ r'.curRxGuest = r.curRxGuest := by
  let t : LegacyReceiver := (r.flush env legacyRawPtyIdx b).flush env r.curRxGuest b
  have hrun : r.run env [b] = t.tick := congrArg LegacyReceiver.tick (legacy_plain hescape hb)
  have hflushed : ∀ i, t.flushedTo i = r.flushedTo i ++ (only legacyRawPtyIdx [b] i ++ only r.curRxGuest [b] i) := by
    intro i
    have hraw : (r.flush env legacyRawPtyIdx b).flushedTo i = r.flushedTo i ++ only legacyRawPtyIdx [b] i :=
      flush_flushedTo _ _ i _
    rw [← List.append_assoc, ← hraw]
    exact flush_flushedTo _ _ i _
  have htable : t.host.table = r.host.table := (flush_table _ _ _).trans (flush_table r _ _)
  exact ⟨t.tick, reads_flushed hrun hescape htable hflushed hguest, rfl⟩

/-- A stuffed payload goes to the selected PTY; none of its bytes is read as a command. -/
theorem reads_stuff (p : Bytes) :
    ∃ r', LegacyReads env r r' (stuff uartProtoEscStart p) (only r.curRxGuest p) ∧ r'.curRxGuest = r.curRxGuest := by
  induction p generalizing r with
  | nil => exact ⟨r, (LegacyReads.refl hescape).congr fun i => (only_nil _ i).symm, rfl⟩
  | cons b p ih =>
    by_cases hb : b = uartProtoEscStart
    · subst hb
      obtain ⟨s, hone, hsame⟩ := @reads_literal env r hescape hguest
      obtain ⟨r', hrest, hcur⟩ := ih hone.escape (hsame ▸ hguest)
      rw [stuff_cons_esc]
      refine ⟨r', (hone.trans hrest).congr fun i => ?_, hcur.trans hsame⟩
      rw [hsame]
      exact only_append r.curRxGuest i [uartProtoEscStart] p
    · obtain ⟨s, hone, hsame⟩ := @reads_plain env r hescape hguest b hb
      obtain ⟨r', hrest, hcur⟩ := ih hone.escape (hsame ▸ hguest)
      rw [stuff_cons_of_ne _ hb]
      refine ⟨r', (hone.trans hrest).congr fun i => ?_, hcur.trans hsame⟩
      rw [hsame]
      exact only_append r.curRxGuest i [b] p

end Payload

end Receiver

/-! ### Writing to the line -/

structure UartWrite where
  io : UartIo
  ptyIdx : Byte
  data : Bytes

def UartWrite.emitted (u : Uart) (w : UartWrite) : Bytes := (writeDataToUart u w.io w.ptyIdx w.data).1

def UartWrite.Whole (u : Uart) (w : UartWrite) : Prop :=
  (w.emitted u).length = ((uartCalls u w.io w.ptyIdx w.data).flatMap UartCall.buf).length

def writtenFor (i : Nat) (writes : List UartWrite) : Bytes := (writes.filter fun w => w.ptyIdx.toNat == i).flatMap UartWrite.data

/-- A write of which every call takes its whole buffer and which reports no error is whole. -/
theorem whole_of_complete {u : Uart} {w : UartWrite} (hsup : ¬ Suppressed u w.ptyIdx)
    (hresult : 0 ≤ (writeDataToUart u w.io w.ptyIdx w.data).2) (h : ∀ c ∈ uartCalls u w.io w.ptyIdx w.data, c.Complete) :
    w.Whole u := by
  have hbytes := (write_reported_iff u w.io w.ptyIdx w.data hsup).mpr (.inr (.inr h)) hresult
  rw [UartWrite.Whole, UartWrite.emitted, hbytes, uartCalls_bytes]

section Writer
variable {u : Uart} (hu : u.Legacy) {w : UartWrite} (hidx : w.ptyIdx.toNat < chipTags.length)
include hu hidx

theorem tagged_ne_raw : w.ptyIdx.toNat ≠ u.rawPtyIdx := by
  rw [hu.raw]
  exact guest_ne_raw hidx

theorem legacy_encoding : completeEncoding u w.ptyIdx w.data =
    if w.data = [] then [] else
      [uartProtoEscStart, (legacyTable.tags w.ptyIdx.toNat).value] ++ stuff uartProtoEscStart w.data := by
  have hraw := tagged_ne_raw hu hidx
  by_cases hd : w.data = []
  · simp [completeEncoding, hu.mode, hd]
  · simp [completeEncoding, hu.mode, hraw, hd, hu.tags]

/-- A whole write is the tag and the stuffed data, however many chunks it takes. -/
theorem whole_emitted (h : w.Whole u) : w.emitted u =
    if w.data = [] then [] else
      [uartProtoEscStart, (legacyTable.tags w.ptyIdx.toNat).value] ++ stuff uartProtoEscStart w.data := by
  rw [← legacy_encoding hu hidx, ← uartCalls_bytes u w.io]
  have hraw := tagged_ne_raw hu hidx
  have hcount : w.ptyIdx.toNat < u.ptyMaxCount := by
    rw [hu.count]
    exact Nat.lt_succ_of_lt hidx
  by_cases hm : w.io.malloc 0 = true
  · have hsup : ¬ Suppressed u w.ptyIdx := by
      rintro ⟨-, hsame | ⟨hmode, -⟩⟩
      · exact hraw hsame
      · exact absurd (hu.mode.symm.trans hmode) Bool.false_ne_true
    have hcalls := (writeDataToUart_calls hsup hcount (.inr hm) w.data).1
    rw [UartWrite.Whole, UartWrite.emitted, hcalls] at h
    rw [UartWrite.emitted, hcalls]
    exact runCalls_eq_of_length h
  · have hnone : w.emitted u = [] := by
      have hvalid : ¬ u.ptyMaxCount ≤ w.ptyIdx.toNat := Nat.not_le.mpr hcount
      simp [UartWrite.emitted, writeDataToUart, hu.mode, hvalid, hraw, hm]
    rw [UartWrite.Whole, hnone] at h
    rw [hnone]
    exact (List.eq_nil_of_length_eq_zero h.symm).symm

end Writer

/-! ### Writes read back -/

section RoundTrip
variable {env : Env}

/-- A write selects its PTY, whatever was selected before. -/
theorem reads_write {u : Uart} (hu : u.Legacy) {w : UartWrite} (hidx : w.ptyIdx.toNat < chipTags.length) (hwhole : w.Whole u)
    {r : LegacyReceiver} (hescape : r.inEscape = false) (htable : r.host.table = legacyTable) :
    ∃ r', LegacyReads env r r' (w.emitted u) (only w.ptyIdx.toNat w.data) := by
  rw [whole_emitted hu hidx hwhole]
  by_cases hd : w.data = []
  · rw [if_pos hd, hd]
    exact ⟨r, (LegacyReads.refl hescape).congr fun i => (only_nil _ i).symm⟩
  · obtain ⟨s, hheader, hguest⟩ := @reads_header env r hescape htable w.ptyIdx.toNat hidx
    obtain ⟨r', hdata, -⟩ := reads_stuff hheader.escape (hguest ▸ guest_ne_raw hidx) w.data
    rw [if_neg hd]
    refine ⟨r', (hheader.trans hdata).congr fun i => ?_⟩
    rw [List.nil_append, hguest]

theorem reads_writes {u : Uart} (hu : u.Legacy) {writes : List UartWrite}
    (hwrites : ∀ w ∈ writes, w.ptyIdx.toNat < chipTags.length ∧ w.Whole u) {r : LegacyReceiver}
    (hescape : r.inEscape = false) (htable : r.host.table = legacyTable) :
    ∃ r', LegacyReads env r r' (writes.flatMap (UartWrite.emitted u)) (fun i => writtenFor i writes) := by
  induction writes generalizing r with
  | nil => exact ⟨r, LegacyReads.refl hescape⟩
  | cons w rest ih =>
    obtain ⟨hidx, hwhole⟩ := hwrites w List.mem_cons_self
    obtain ⟨s, hone⟩ := reads_write hu hidx hwhole hescape htable
    obtain ⟨r', hrest⟩ := ih (fun v hv => hwrites v (List.mem_cons_of_mem _ hv)) hone.escape (hone.table.trans htable)
    refine ⟨r', (hone.trans hrest).congr fun i => ?_⟩
    by_cases hi : w.ptyIdx.toNat = i
    · subst hi
      simp [writtenFor]
    · simp [writtenFor, hi, only_of_ne (Ne.symm hi)]

/-! ### Bytes on the PTYs -/

def SentFlushed (env : Env) (i : Nat) (r r' : LegacyReceiver) : Prop :=
  ∃ out, r'.flushedTo i = r.flushedTo i ++ out ∧ Sent env r.host.table i (r.host.ptyData i) (r'.host.ptyData i) out ∧
    r'.host.table = r.host.table

theorem SentFlushed.refl (i : Nat) (r : LegacyReceiver) : SentFlushed env i r r := by
  refine ⟨[], ?_, Sent.nil _ _ _ _, rfl⟩
  exact (List.append_nil _).symm

theorem SentFlushed.trans {i : Nat} {r s t : LegacyReceiver} (a : SentFlushed env i r s) (b : SentFlushed env i s t) :
    SentFlushed env i r t := by
  obtain ⟨out, hout, hsent, htable⟩ := a
  obtain ⟨more, hmore, hsent', htable'⟩ := b
  rw [htable] at hsent'
  refine ⟨out ++ more, ?_, hsent.append hsent', htable'.trans htable⟩
  rw [hmore, hout, List.append_assoc]

variable (hpatch : env.disablePatch = true) (he : env.Accepts)
include hpatch he

theorem sent_flush (i : Nat) (r : LegacyReceiver) (j : Nat) (ch : Byte) : SentFlushed env i r (r.flush env j ch) := by
  refine ⟨only j [ch] i, flush_flushedTo r j i ch, ?_, flush_table r j ch⟩
  obtain ⟨p, heq, hsent⟩ := flush_ok he r.host j 2 ch
  have hflush : (r.flush env j ch).host = r.host.setPty j p := by
    simp only [LegacyReceiver.flush, patch2flushStream_eq, hpatch, if_true, heq]
  rw [hflush]
  by_cases hi : i = j
  · subst hi
    rw [only_self, show (r.host.setPty i p).ptyData i = p from Function.update_self _ _ _]
    exact hsent
  · rw [only_of_ne hi, show (r.host.setPty j p).ptyData i = r.host.ptyData i from Function.update_of_ne hi _ _]
    exact Sent.nil _ _ _ _

theorem sent_feed (i : Nat) (r : LegacyReceiver) (ch : Byte) : SentFlushed env i r (r.feed env ch) := by
  have hraw := sent_flush hpatch he i r legacyRawPtyIdx ch
  obtain ⟨pending, guest, -, heq | ⟨out, heq⟩⟩ := @feed_cases env r ch
  · rw [heq]
    exact hraw
  · rw [heq]
    exact hraw.trans (sent_flush hpatch he i
      { r.flush env legacyRawPtyIdx ch with inEscape := pending, curRxGuest := guest } guest out)

theorem sent_run (i : Nat) (r : LegacyReceiver) (bytes : Bytes) : SentFlushed env i r (r.run env bytes) := by
  induction bytes generalizing r with
  | nil => exact .refl i r
  | cons ch rest ih =>
    have hfeed : SentFlushed env i r (r.feed env ch).tick := sent_feed hpatch he i r ch
    exact hfeed.trans (ih (r.feed env ch).tick)

end RoundTrip

/-- What is written for the tagged PTYs comes back on them, and everything that was sent on RAW. -/
theorem legacy_round_trip {u : Uart} (hu : u.Legacy) {env : Env} {r : LegacyReceiver} (hescape : r.inEscape = false)
    (htable : r.host.table = legacyTable) {writes : List UartWrite}
    (hwrites : ∀ w ∈ writes, w.ptyIdx.toNat < chipTags.length ∧ w.Whole u) :
    let bytes := writes.flatMap (UartWrite.emitted u)
    let r' := r.run env bytes
    r'.inEscape = false ∧ (∀ i < chipTags.length, r'.flushedTo i = r.flushedTo i ++ writtenFor i writes) ∧
      r'.flushedTo legacyRawPtyIdx = r.flushedTo legacyRawPtyIdx ++ bytes ∧
      (env.disablePatch = true → env.Accepts →
        (∀ i < chipTags.length,
          Sent env legacyTable i (r.host.ptyData i) (r'.host.ptyData i) (writtenFor i writes)) ∧
        Sent env legacyTable legacyRawPtyIdx (r.host.ptyData legacyRawPtyIdx) (r'.host.ptyData legacyRawPtyIdx) bytes) := by
  intro bytes r'
  obtain ⟨s, hreads⟩ := reads_writes hu hwrites hescape htable
  have hrun : r' = s := hreads.run
  have htagged : ∀ i < chipTags.length, r'.flushedTo i = r.flushedTo i ++ writtenFor i writes := by
    intro i hi
    rw [hrun, hreads.flushed i, if_neg (guest_ne_raw hi)]
  have hraw : r'.flushedTo legacyRawPtyIdx = r.flushedTo legacyRawPtyIdx ++ bytes := by
    rw [hrun, hreads.flushed legacyRawPtyIdx, if_pos rfl]
  refine ⟨hrun ▸ hreads.escape, htagged, hraw, fun hpatch he => ?_⟩
  have hsent : ∀ i out, r'.flushedTo i = r.flushedTo i ++ out →
      Sent env legacyTable i (r.host.ptyData i) (r'.host.ptyData i) out := by
    intro i out hout
    obtain ⟨out', hflushed, hsent, -⟩ := sent_run hpatch he i r bytes
    have hsame : out' = out := List.append_cancel_left (hflushed.symm.trans hout)
    rw [hsame, htable] at hsent
    exact hsent
  exact ⟨fun i hi => hsent i _ (htagged i hi), hsent _ _ hraw⟩

def legacyUart : Uart where
  virtiosoModeEnabled := false
  virtiosoOuterMode := .raw
  virtiosoOuterTagIdx := 0
  enableWriteRawPty := false
  tags := legacyTable.tags
  ptyMaxCount := legacyTable.ptyMaxCount
  rawPtyIdx := legacyRawPtyIdx

def legacyReceiver (env : Env) : LegacyReceiver :=
  { inEscape := false, curRxGuest := 0, host := { start env with table := legacyTable }, flushed := [] }

def legacyWrite (ptyIdx : Byte) (data : Bytes) : UartWrite := ⟨⟨fun _ => true, fun _ => .accepted 16 true⟩, ptyIdx, data⟩

def legacyWrites : List UartWrite := [legacyWrite 1 [0x61], legacyWrite 0 [0xff, 0xe2, 0xfd], legacyWrite 1 [0x62]]

def legacyRun : LegacyReceiver :=
  (legacyReceiver quietEnv).run quietEnv (legacyWrites.flatMap (UartWrite.emitted legacyUart))

/-- An escape, the tag of another PTY and the reset code as data, between two writes to that PTY. -/
theorem legacy_round_trip_codes :
    legacyRun.inEscape = false ∧ legacyRun.flushedTo 0 = [0xff, 0xe2, 0xfd] ∧ legacyRun.flushedTo 1 = [0x61, 0x62] := by
  have hpieces : ∀ data : Bytes, data ≠ [] → data.length ≤ maxWriteChunkSize → pieces maxWriteChunkSize data = [data] := by
    intro data hd hlen
    rw [pieces_cons (by decide) hd, List.take_of_length_le hlen, List.drop_of_length_le hlen, pieces_nil]
  have hwhole : ∀ w ∈ legacyWrites, w.ptyIdx.toNat < chipTags.length ∧ w.Whole legacyUart := by
    intro w hw
    simp only [legacyWrites, List.mem_cons, List.not_mem_nil, or_false] at hw
    rcases hw with rfl | rfl | rfl <;> refine ⟨by decide, ?_⟩
    · simp only [UartWrite.Whole, UartWrite.emitted, legacyWrite, writeDataToUart, uartCalls, hpieces [0x61] (by decide) (by decide)]
      decide
    · simp only [UartWrite.Whole, UartWrite.emitted, legacyWrite, writeDataToUart, uartCalls,
        hpieces [0xff, 0xe2, 0xfd] (by decide) (by decide)]
      decide
    · simp only [UartWrite.Whole, UartWrite.emitted, legacyWrite, writeDataToUart, uartCalls, hpieces [0x62] (by decide) (by decide)]
      decide
  have hu : legacyUart.Legacy := ⟨rfl, rfl, rfl, rfl⟩
  obtain ⟨hescape, htagged, -⟩ := @legacy_round_trip legacyUart hu quietEnv (legacyReceiver quietEnv) rfl rfl legacyWrites hwhole
  exact ⟨hescape, htagged 0 (by decide), htagged 1 (by decide)⟩

end VirtiosoMux.Host
