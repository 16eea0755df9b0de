import VirtiosoMux.Host.UartReports
import VirtiosoMux.Library.Locked

/-! # The PTY threads on the serial line

Every PTY has a thread in `pty_input_handler`, which hands what it reads to `write_data_to_uart`. The
threads share the device under `tty_data.write_lock`; a step under the lock is one round of the
loop of a write.
-/
namespace VirtiosoMux.Host
open Pieces Locked

/-- What `pty_input_handler` has read, with the globals that the write reads and the outcome of the one
allocation in front of the lock. -/
structure PtyInput where
  uart : Uart
  data : Bytes
  malloc : Bool

structure RoundIo where
  malloc : Bool
  putbuf : PutbufIo

/-- Where a write stands behind the lock: before its only `putbuf_or_exit`, or in one of the two loops with
the pieces to come. -/
inductive UartPlace
  | unframed (data : Bytes)
  | fragments (k : Nat) (rest : List Bytes)
  | chunks (k : Nat) (rest : List Bytes)

structure UartBody where
  uart : Uart
  ptyIdx : Byte
  place : UartPlace

/-- The part of `write_data_to_uart` in front of the lock. -/
def uartEnter (ptyIdx : Byte) (c : PtyInput) : Option UartBody :=
  let u := c.uart
  if u.virtiosoModeEnabled then
    if u.ptyMaxCount ≤ ptyIdx.toNat then none
    else if ptyIdx.toNat = u.rawPtyIdx ∨ ptyIdx.toNat = virtiosoDefaultPtyIdx then
      if !u.enableWriteRawPty then none else some ⟨u, ptyIdx, .unframed c.data⟩
    else some ⟨u, ptyIdx, .fragments 0 (pieces virtiosoDownlinkFragmentPayloadSize c.data)⟩
  else if u.ptyMaxCount ≤ ptyIdx.toNat then none
  else if ptyIdx.toNat = u.rawPtyIdx ∧ !u.enableWriteRawPty then none
  else if !c.malloc then none
  else some ⟨u, ptyIdx, .chunks 0 (pieces maxWriteChunkSize c.data)⟩

/-- A failed write ends the loop at the label that gives the lock back. -/
def behindPutbuf (r : Int) (b : UartBody) : Next UartBody := if r < 0 then .release else .more b

def uartRound (b : UartBody) (i : RoundIo) : Bytes × Next UartBody :=
  match b.place with
  | .unframed data =>
    match b.uart.virtiosoOuterMode with
    | .nvidiaTcu => if i.malloc then ((putbufOrExit i.putbuf (outerWrap b.uart data)).1, .release) else ([], .release)
    | .raw => ((putbufOrExit i.putbuf data).1, .release)
  | .fragments _ [] => ([], .release)
  | .fragments k (chunk :: rest) =>
    if i.malloc then
      let r := putbufOrExit i.putbuf (carry b.uart (innerFrame (b.uart.tags b.ptyIdx.toNat).value chunk))
      (r.1, behindPutbuf r.2 { b with place := .fragments (k + 1) rest })
    else ([], .release)
  | .chunks _ [] => ([], .release)
  | .chunks k (chunk :: rest) =>
    match encodeLegacyChunk b.uart b.ptyIdx k chunk with
    -- `WRITE_BYTE_TO_ENCODED_BUF` returns without unlocking
    | .error _ => ([], .leak)
    | .ok buf =>
      let r := putbufOrExit i.putbuf buf
      (r.1, behindPutbuf r.2 { b with place := .chunks (k + 1) rest })

def uartLine : Calls Byte PtyInput UartBody RoundIo Byte := ⟨uartEnter, uartRound⟩

/-! ### The lock is always given back -/

def UartBody.Fits (b : UartBody) : Prop :=
  match b.place with
  | .chunks _ rest => ∀ p ∈ rest, p.length ≤ maxWriteChunkSize
  | _ => True

def UartBody.rounds (b : UartBody) : Nat :=
  match b.place with
  | .unframed _ => 0
  | .fragments _ rest => rest.length
  | .chunks _ rest => rest.length

theorem behindPutbuf_more {r : Int} {b b' : UartBody} (h : behindPutbuf r b = .more b') : b' = b := by
  unfold behindPutbuf at h
  split at h
  · cases h
  · cases h
    rfl

theorem behindPutbuf_keep (r : Int) (b : UartBody) : behindPutbuf r b ≠ .leak := by
  unfold behindPutbuf
  split <;> simp

/-- A round of the legacy loop on a piece that fits. -/
theorem uartRound_chunk {b : UartBody} {k : Nat} {chunk : Bytes} {rest : List Bytes} (hb : b.place = .chunks k (chunk :: rest))
    (hlen : chunk.length ≤ maxWriteChunkSize) (i : RoundIo) :
    uartRound b i = ((putbufOrExit i.putbuf (legacyBuffer b.uart b.ptyIdx k chunk)).1,
      behindPutbuf (putbufOrExit i.putbuf (legacyBuffer b.uart b.ptyIdx k chunk)).2 { b with place := .chunks (k + 1) rest }) := by
  simp only [uartRound, hb, encodeLegacyChunk_ok b.uart b.ptyIdx k hlen]

theorem uartLine_releases : Releases uartLine UartBody.Fits UartBody.rounds := by
  constructor
  · intro t c b hb
    simp only [uartLine, uartEnter] at hb
    split at hb
    · split at hb
      · cases hb
      · split at hb
        · split at hb
          · cases hb
          · cases hb
            trivial
        · cases hb
          trivial
    · split at hb
      · cases hb
      · split at hb
        · cases hb
        · split at hb
          · cases hb
          · cases hb
            exact pieces_length_le (by decide) c.data
  · rintro ⟨u, ptyIdx, place⟩ i b' hfits hnext
    cases place with
    | unframed data =>
      simp only [uartLine, uartRound] at hnext
      split at hnext
      · split at hnext <;> cases hnext
      · cases hnext
    | fragments k rest =>
      cases rest with
      | nil => cases hnext
      | cons chunk rest =>
        simp only [uartLine, uartRound] at hnext
        split at hnext
        · cases behindPutbuf_more hnext
          exact ⟨trivial, Nat.lt_succ_self _⟩
        · cases hnext
    | chunks k rest =>
      cases rest with
      | nil => cases hnext
      | cons chunk rest =>
        have hround := uartRound_chunk rfl (hfits chunk List.mem_cons_self) (b := ⟨u, ptyIdx, .chunks k (chunk :: rest)⟩) i
        cases behindPutbuf_more ((congrArg Prod.snd hround).symm.trans hnext)
        exact ⟨fun p hp => hfits p (List.mem_cons_of_mem _ hp), Nat.lt_succ_self _⟩
  · rintro ⟨u, ptyIdx, place⟩ i hfits
    cases place with
    | unframed data =>
      simp only [uartLine, uartRound]
      split
      · split <;> simp
      · simp
    | fragments k rest =>
      cases rest with
      | nil => simp [uartLine, uartRound]
      | cons chunk rest =>
        simp only [uartLine, uartRound]
        split
        · exact behindPutbuf_keep _ _
        · simp
    | chunks k rest =>
      cases rest with
      | nil => simp [uartLine, uartRound]
      | cons chunk rest =>
        have hround := uartRound_chunk rfl (hfits chunk List.mem_cons_self) (b := ⟨u, ptyIdx, .chunks k (chunk :: rest)⟩) i
        simp only [uartLine, hround]
        exact behindPutbuf_keep _ _

/-! ### A turn is a whole call -/

def turnIo (e : Turn Byte PtyInput RoundIo) : UartIo where
  malloc k := if e.call.uart.virtiosoModeEnabled then (e.outcomes[k]?.map RoundIo.malloc).getD false else e.call.malloc
  putbuf k := (e.outcomes[k]?.map RoundIo.putbuf).getD .failed

/-- What the round of a loop does that encodes its piece with `encode` and goes on with `body`. -/
def Rounds (body : Nat → List Bytes → UartBody) (encode : RoundIo → Nat → Bytes → Except Int Bytes) (fits : Bytes → Prop) :
    Prop :=
  (∀ k i, uartRound (body k []) i = ([], .release)) ∧
  ∀ k chunk rest i, fits chunk → uartRound (body k (chunk :: rest)) i =
    match encode i k chunk with
    | .error _ => ([], .release)
    | .ok buf => ((putbufOrExit i.putbuf buf).1, behindPutbuf (putbufOrExit i.putbuf buf).2 (body (k + 1) rest))

/-- A loop that has come to its return has written what the model of the whole write says, if both encode the
pieces alike under the outcomes of the rounds. -/
theorem rounds_output {body : Nat → List Bytes → UartBody} {encode : RoundIo → Nat → Bytes → Except Int Bytes}
    {fits : Bytes → Prop} (hb : Rounds body encode fits) {io : UartIo} {whole : Nat → Bytes → Except Int Bytes}
    (is : List RoundIo) (k : Nat) (rest : List Bytes) (hfits : ∀ p ∈ rest, fits p)
    (hio : ∀ j i, is[j]? = some i → io.putbuf (k + j) = i.putbuf ∧ whole (k + j) = encode i (k + j))
    (hret : (uartLine.run (body k rest) is).2 = .release) :
    (uartLine.run (body k rest) is).1 = (writePieces io whole k rest).1 := by
  induction is generalizing k rest with
  | nil => cases hret
  | cons i is ih =>
    obtain ⟨hput, hwhole⟩ := hio 0 i rfl
    cases rest with
    | nil =>
      have hround := hb.1 k i
      simp [Calls.run, uartLine, hround, writePieces]
    | cons chunk rest =>
      have hround := hb.2 k chunk rest i (hfits chunk List.mem_cons_self)
      rw [Nat.add_zero] at hput hwhole
      cases henc : encode i k chunk with
      | error e =>
        rw [henc] at hround
        simp [Calls.run, uartLine, hround, writePieces, hwhole, henc]
      | ok buf =>
        rw [henc] at hround
        by_cases hneg : (putbufOrExit i.putbuf buf).2 < 0
        · simp only [behindPutbuf, if_pos hneg] at hround
          simp [Calls.run, uartLine, hround, writePieces, hwhole, henc, hput, hneg]
        · simp only [behindPutbuf, if_neg hneg] at hround
          have hnext : ∀ j i', is[j]? = some i' →
              io.putbuf (k + 1 + j) = i'.putbuf ∧ whole (k + 1 + j) = encode i' (k + 1 + j) := by
            intro j i' hj
            rw [Nat.add_assoc, Nat.add_comm 1 j]
            exact hio (j + 1) i' hj
          have hrun : uartLine.run (body k (chunk :: rest)) (i :: is) = ((putbufOrExit i.putbuf buf).1 ++
              (uartLine.run (body (k + 1) rest) is).1, (uartLine.run (body (k + 1) rest) is).2) := by
            simp [Calls.run, uartLine, hround]
          rw [hrun] at hret ⊢
          rw [ih (k + 1) rest (fun p hp => hfits p (List.mem_cons_of_mem _ hp)) hnext hret]
          simp [writePieces, hwhole, henc, hput, hneg]

theorem fragments_rounds (u : Uart) (ptyIdx : Byte) : Rounds (fun k rest => ⟨u, ptyIdx, .fragments k rest⟩)
    (fun i _ chunk => if i.malloc then .ok (carry u (innerFrame (u.tags ptyIdx.toNat).value chunk)) else .error (-enomem))
    (fun _ => True) := by
  refine ⟨fun k i => rfl, fun k chunk rest i _ => ?_⟩
  cases hm : i.malloc with
  | false => simp [uartRound, hm]
  | true => simp [uartRound, hm]

theorem chunks_rounds (u : Uart) (ptyIdx : Byte) : Rounds (fun k rest => ⟨u, ptyIdx, .chunks k rest⟩)
    (fun _ k chunk => encodeLegacyChunk u ptyIdx k chunk) (fun chunk => chunk.length ≤ maxWriteChunkSize) := by
  refine ⟨fun k i => rfl, fun k chunk rest i hlen => ?_⟩
  have hround := uartRound_chunk (b := ⟨u, ptyIdx, .chunks k (chunk :: rest)⟩) rfl hlen i
  simp only [encodeLegacyChunk_ok u ptyIdx k hlen]
  exact hround

inductive Entered (ptyIdx : Byte) (c : PtyInput) : UartBody → Prop
  | unframed (h : ∀ io, writeDataToUart c.uart io ptyIdx c.data =
        match c.uart.virtiosoOuterMode with
        | .nvidiaTcu => if io.malloc 0 then putbufOrExit (io.putbuf 0) (outerWrap c.uart c.data) else ([], -enomem)
        | .raw => putbufOrExit (io.putbuf 0) c.data) (hmode : c.uart.virtiosoModeEnabled = true) :
      Entered ptyIdx c ⟨c.uart, ptyIdx, .unframed c.data⟩
  | fragments (h : ∀ io, writeDataToUart c.uart io ptyIdx c.data =
        writePieces io (fun k chunk => if io.malloc k then .ok (carry c.uart (innerFrame (c.uart.tags ptyIdx.toNat).value chunk))
          else .error (-enomem)) 0 (pieces virtiosoDownlinkFragmentPayloadSize c.data))
      (hmode : c.uart.virtiosoModeEnabled = true) :
      Entered ptyIdx c ⟨c.uart, ptyIdx, .fragments 0 (pieces virtiosoDownlinkFragmentPayloadSize c.data)⟩
  | chunks (h : ∀ io, io.malloc 0 = c.malloc → writeDataToUart c.uart io ptyIdx c.data =
        writePieces io (encodeLegacyChunk c.uart ptyIdx) 0 (pieces maxWriteChunkSize c.data))
      (hmode : ¬ c.uart.virtiosoModeEnabled = true) :
      Entered ptyIdx c ⟨c.uart, ptyIdx, .chunks 0 (pieces maxWriteChunkSize c.data)⟩

theorem uartEnter_cases {ptyIdx : Byte} {c : PtyInput} {b : UartBody} (h : uartEnter ptyIdx c = some b) :
    Entered ptyIdx c b := by
  simp only [uartEnter] at h
  split at h
  · rename_i hmode
    split at h
    · cases h
    · rename_i hidx
      split at h
      · rename_i hraw
        split at h
        · cases h
        · rename_i hw
          cases h
          refine .unframed (fun io => ?_) hmode
          cases houter : c.uart.virtiosoOuterMode <;>
            simp [writeDataToUart, writeVirtiosoDataToUart, hmode, hidx, hraw, hw, houter]
      · rename_i hraw
        cases h
        refine .fragments (fun io => ?_) hmode
        simp [writeDataToUart, writeVirtiosoDataToUart, hmode, hidx, hraw]
  · rename_i hmode
    split at h
    · cases h
    · rename_i hidx
      split at h
      · cases h
      · rename_i hraw
        split at h
        · cases h
        · rename_i hm
          cases h
          refine .chunks (fun io hio => ?_) hmode
          simp only [writeDataToUart, hmode, hidx, hraw, hio, hm, if_false, Bool.false_eq_true]

/-- A call that has returned has written what the model of the whole write says. -/
theorem turn_output {e : Turn Byte PtyInput RoundIo} (he : e.Returned uartLine) :
    e.output uartLine = (writeDataToUart e.call.uart (turnIo e) e.thread e.call.data).1 := by
  obtain ⟨b, henter, hret⟩ := he
  rw [show e.output uartLine = (uartLine.run b e.outcomes).1 by simp [Turn.output, henter]]
  cases uartEnter_cases henter with
  | unframed h hmode =>
    rw [h]
    cases hout : e.outcomes with
    | nil =>
      rw [hout] at hret
      cases hret
    | cons i is =>
      have hput : (turnIo e).putbuf 0 = i.putbuf := by simp [turnIo, hout]
      have hmalloc : (turnIo e).malloc 0 = i.malloc := by simp [turnIo, hout, hmode]
      rw [hput, hmalloc]
      cases houter : e.call.uart.virtiosoOuterMode with
      | raw => simp [Calls.run, uartLine, uartRound, houter]
      | nvidiaTcu => cases hm : i.malloc <;> simp [Calls.run, uartLine, uartRound, houter, hm]
  | fragments h hmode =>
    rw [h]
    refine rounds_output (fragments_rounds e.call.uart e.thread) e.outcomes 0 _ (fun _ _ => trivial) ?_ hret
    intro j i hj
    simp [turnIo, hj, hmode]
  | chunks h hmode =>
    rw [h (turnIo e) (by simp [turnIo, hmode])]
    refine rounds_output (chunks_rounds e.call.uart e.thread) e.outcomes 0 _ (pieces_length_le (by decide) _) ?_ hret
    intro j i hj
    simp [turnIo, hj]

/-! ### Every interleaving -/

abbrev PtyThreads := Line Byte PtyInput UartBody RoundIo Byte

/-- In every interleaving of the PTY threads, the line has their writes one after the other in the order of the
lock: each that has returned with all that a write alone sends under the same outcomes, and behind them what the
one with the lock has sent so far. A thread's writes are those of its inputs, in their order. The lock is never
left behind: its holder gives it back by its own steps, whatever comes of each of the system calls. -/
theorem uart_serialized {as : List (Action Byte PtyInput RoundIo)} {s : PtyThreads} (hr : RunsTo uartLine as s) :
    s.out = s.turns.flatMap (fun e => (writeDataToUart e.call.uart (turnIo e) e.thread e.call.data).1) ++
      s.turn.toList.flatMap (Turn.output uartLine) ∧
    (∀ t, s.made t = callsOf t s.turns ++ callsOf t s.turn.toList ++ (s.thread t).waits) ∧
    (∀ t, s.lock = some t ↔ ∃ b, s.thread t = .inside b) ∧
    ∀ t, s.lock = some t → ∀ outcomes : Nat → RoundIo, ∃ n s',
      Machine.Runs (step uartLine) (fun _ _ => True) s ((List.range n).map fun k => .emit t (outcomes k)) s' ∧
        s'.lock = none := by
  have h := orderly uartLine_releases hr
  refine ⟨?_, fun t => ?_, h.holder, fun t ht outcomes => h.freed uartLine_releases ht outcomes⟩
  · rw [h.out, List.flatMap_append]
    congr 1
    exact List.flatMap_congr fun e he => turn_output (h.returned e he)
  · rw [h.made t, callsOf_append]

def openUart : Uart := { rawUart with enableWriteRawPty := true }

def inputOf (data : Bytes) : PtyInput := ⟨openUart, data, true⟩

/-- Both PTYs have input; the second comes to the lock first, and the first waits. -/
def twoInputs : List (Action Byte PtyInput RoundIo) :=
  [.call 0 (inputOf [0x61]), .call 2 (inputOf [0x62, 0x63]), .acquire 2, .emit 2 ⟨true, .accepted 2 true⟩, .acquire 0]

theorem uart_serialized_twoInputs : ∃ s, RunsTo uartLine twoInputs s ∧ s.out = [0x62, 0x63] ∧ s.lock = some 0 ∧
    ∀ outcomes : Nat → RoundIo, ∃ n s',
      Machine.Runs (step uartLine) (fun _ _ => True) s ((List.range n).map fun k => .emit 0 (outcomes k)) s' ∧
        s'.lock = none := by
  obtain ⟨s, hs⟩ : ∃ s, twoInputs.foldlM (step uartLine) Line.start = some s := ⟨_, rfl⟩
  have hr : RunsTo uartLine twoInputs s := Machine.runs_of_foldlM (fun _ _ _ => trivial) hs
  have hnow : s.out = [0x62, 0x63] ∧ s.lock = some 0 := by
    cases hs
    exact ⟨rfl, rfl⟩
  exact ⟨s, hr, hnow.1, hnow.2, (uart_serialized hr).2.2.2 0 hnow.2⟩

end VirtiosoMux.Host
