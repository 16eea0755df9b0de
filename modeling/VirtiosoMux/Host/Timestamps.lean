import VirtiosoMux.Library.Stamps
import VirtiosoMux.Host.Invariant

/-! # Timestamps in the logs

The log of a stream is meant to have a timestamp at the start of every line. Whether a byte
starts one is read off the last byte of the stream, where zero stands for no byte so far; a zero
among the data then reads as the start of a line as well.
-/
namespace VirtiosoMux.Host
open Stamps

def endsLine (b : Byte) : Bool := b == 0x0a

/-- The values of `last_ch` before which `flush_stream` asks for a timestamp. -/
def stampDue (b : Byte) : Bool := b == 0x0a || b == 0

/-- With timestamps and without line patching, `get_timestamp` always has a timestamp for the
buffer of `flush_stream`, and the log takes what is written to it. The PTY may fail. -/
structure Env.Stamps (env : Env) (i : Nat) : Prop where
  enabled : env.logTimestampEnabled = true
  noPatch : env.disablePatch = true
  stamp : ∀ n, 0 < ((env.io n).flush i 2).timestamp.length ∧ ((env.io n).flush i 2).timestamp.length < 30
  stampOk : ∀ n, ((env.io n).flush i 2).stampOk = true
  logOk : ∀ n, ((env.io n).flush i 2).logOk = true

/-- A slot with a log, as `create_pty_at_index` leaves it. -/
structure State.Opened (h : State) (i : Nat) : Prop where
  count : i < h.table.ptyMaxCount
  logFd : (h.ptyData i).logFd = true
  lastCh : (h.ptyData i).lastCh = 0
  log : (h.ptyData i).log = []

def stampAt (env : Env) (i n : Nat) (ch : Byte) : Bytes × Byte := (((env.io n).flush i 2).timestamp, ch)

structure Logs (p : ThreadData) (l : List (Bytes × Byte)) : Prop where
  logFd : p.logFd = true
  log : p.log = stamped stampDue true l
  last : stampDue p.lastCh = atStart stampDue true l

theorem State.Opened.logs {h : State} {i : Nat} (ho : h.Opened i) : Logs (h.ptyData i) [] := by
  refine ⟨ho.logFd, ho.log, ?_⟩
  rw [ho.lastCh]
  rfl

/-- A PTY that has just been opened with a log. -/
theorem createPtyAtIndex_opened {env : Env} {h : State} {i : Nat} (name : Bytes) (startThread : Bool)
    (hi : i < ptyCapacity) (hcount : i < h.table.ptyMaxCount) (hmaster : ((env.now h).pty i).master = true)
    (hsave : env.saveOutputPath.isSome = true) (hlog : ((env.now h).pty i).logOpen = true) :
    (createPtyAtIndex env h i name startThread).1.Opened i := by
  have hcap : ¬ ptyCapacity ≤ i := Nat.not_le.mpr hi
  simp only [createPtyAtIndex, if_neg hcap, hmaster, hsave, hlog, Bool.not_true, Bool.false_eq_true, if_false, Bool.and_self]
  split
  · exact ⟨hcount, by simp [State.setPty], by simp [State.setPty], by simp [State.setPty]⟩
  split
  all_goals exact ⟨hcount, by simp [emitPtySessionRecord, State.setPty], by simp [emitPtySessionRecord, State.setPty],
    by simp [emitPtySessionRecord, State.setPty]⟩

section Flush
variable {env : Env} {i : Nat} (he : env.Stamps i)
include he

/-- One call: the slot has one byte more. -/
theorem flush_stamped {h : State} (hcount : i < h.table.ptyMaxCount) {l : List (Bytes × Byte)} (hl : Logs (h.ptyData i) l)
    (ch : Byte) : ∃ p ret, patch2flushStream env h i ch = (h.setPty i p, ret) ∧ Logs p (l ++ [stampAt env i h.clock ch]) := by
  obtain ⟨hpos, hlt⟩ := he.stamp h.clock
  have hstampOk := he.stampOk h.clock
  have hlogOk := he.logOk h.clock
  have hlogs : ∀ w, Logs { h.ptyData i with
      log := (if stampDue (h.ptyData i).lastCh then (h.ptyData i).log ++ ((env.io h.clock).flush i 2).timestamp
        else (h.ptyData i).log) ++ [ch]
      lastCh := ch
      written := w } (l ++ [stampAt env i h.clock ch]) := by
    intro w
    refine ⟨hl.logFd, ?_, (atStart_snoc stampDue true l _ ch).symm⟩
    simp only [stampAt, stamped_snoc, ← hl.last, ← hl.log]
    by_cases hdue : stampDue (h.ptyData i).lastCh = true <;> simp [hdue]
  rw [patch2flushStream_eq, he.noPatch, if_pos rfl]
  have hopen : i < h.table.ptyMaxCount ∧ (h.ptyData i).logFd = true := ⟨hcount, hl.logFd⟩
  unfold flushStream
  simp only [Env.now, if_pos hopen, he.enabled, hstampOk, hlogOk, if_true, Bool.true_and, Bool.true_eq_false, and_false,
    if_false]
  have hsame : ((h.ptyData i).lastCh == 0x0a || (h.ptyData i).lastCh == 0) = stampDue (h.ptyData i).lastCh := rfl
  have hlog : (if 0 < (if stampDue (h.ptyData i).lastCh = true then ((env.io h.clock).flush i 2).timestamp.length else 0) ∧
        (if stampDue (h.ptyData i).lastCh = true then ((env.io h.clock).flush i 2).timestamp.length else 0) < 30 then
      (h.ptyData i).log ++ ((env.io h.clock).flush i 2).timestamp else (h.ptyData i).log) =
      if stampDue (h.ptyData i).lastCh then (h.ptyData i).log ++ ((env.io h.clock).flush i 2).timestamp
        else (h.ptyData i).log := by
    by_cases hdue : stampDue (h.ptyData i).lastCh = true
    · simp [hdue, hpos, hlt]
    · simp [hdue]
  rw [hsame, hlog]
  cases ((env.io h.clock).flush i 2).pty with
  | ok => exact ⟨_, _, rfl, hlogs _⟩
  | again => exact ⟨_, _, rfl, hlogs _⟩
  | error => exact ⟨_, _, rfl, hlogs _⟩

end Flush

/-! ### Sequences of calls -/

structure StreamCall where
  moment : Nat
  pty : Nat
  ch : Byte

def streamCalls (env : Env) (h : State) (calls : List StreamCall) : State :=
  calls.foldl (fun h call => (patch2flushStream env { h with clock := call.moment } call.pty call.ch).1) h

def callStamps (env : Env) (i : Nat) (calls : List StreamCall) : List (Bytes × Byte) :=
  (calls.filter (fun call => call.pty == i)).map (fun call => stampAt env i call.moment call.ch)

theorem streamCalls_logs {env : Env} {i : Nat} (he : env.Stamps i) {h : State} (hcount : i < h.table.ptyMaxCount)
    {l : List (Bytes × Byte)} (hl : Logs (h.ptyData i) l) (calls : List StreamCall) :
    Logs ((streamCalls env h calls).ptyData i) (l ++ callStamps env i calls) := by
  induction calls generalizing h l with
  | nil =>
    rw [show callStamps env i [] = [] from rfl, List.append_nil]
    exact hl
  | cons call rest ih =>
    by_cases hcall : call.pty = i
    · have hstamps : callStamps env i (call :: rest) = stampAt env i call.moment call.ch :: callStamps env i rest := by
        simp [callStamps, hcall]
      obtain ⟨p, ret, hflush, hp⟩ := flush_stamped he (h := { h with clock := call.moment }) hcount hl call.ch
      have hslot : Logs ((({ h with clock := call.moment } : State).setPty i p).ptyData i)
          (l ++ [stampAt env i call.moment call.ch]) := by
        rw [show (({ h with clock := call.moment } : State).setPty i p).ptyData i = p from Function.update_self _ _ _]
        exact hp
      rw [hstamps, List.append_cons, streamCalls, List.foldl_cons, hcall, hflush]
      exact ih (h := ({ h with clock := call.moment } : State).setPty i p) hcount hslot
    · have hstamps : callStamps env i (call :: rest) = callStamps env i rest := by simp [callStamps, hcall]
      obtain ⟨p, n, r, ret, hwrite⟩ := patch2flushStream_slot env { h with clock := call.moment } call.pty call.ch
      have hslot : (({ h with clock := call.moment } : State).setPty call.pty p).ptyData i = h.ptyData i :=
        Function.update_of_ne (Ne.symm hcall) _ _
      rw [hstamps, streamCalls, List.foldl_cons, hwrite]
      exact ih (h := (({ h with clock := call.moment } : State).setPty call.pty p).setSeen call.pty n r) hcount
        (hslot ▸ hl)

/-! ### The receiving thread -/

/-- The byte that a received byte leads to at a stream other than the copy of the carrier. -/
def routedByte (env : Env) (i : Nat) (h : State) (ch : Byte) : List (Bytes × Byte) :=
  match handed env h ch with
  | some (g, b) => if innerTarget g b = some i then [stampAt env i h.clock b] else []
  | none => []

def routed (env : Env) (i : Nat) : State → Bytes → List (Bytes × Byte)
  | _, [] => []
  | h, ch :: rest => routedByte env i h ch ++
      if (feedNvidiaOuterOrVirtiosoRaw env h ch).2 < 0 then []
      else routed env i { (feedNvidiaOuterOrVirtiosoRaw env h ch).1 with
        clock := (feedNvidiaOuterOrVirtiosoRaw env h ch).1.clock + 1 } rest

section Receive
variable {env : Env} {i : Nat} (he : env.Stamps i) (hne : i ≠ rawCcplexPtyIdx)
include he hne

theorem receive_stamped {h : State} (hs : h.Sound) (hi : i < h.table.numProc) {l : List (Bytes × Byte)}
    (hl : Logs (h.ptyData i) l) (ch : Byte) :
    Logs ((feedNvidiaOuterOrVirtiosoRaw env h ch).1.ptyData i) (l ++ routedByte env i h ch) := by
  cases hh : handed env h ch with
  | none =>
    have hslot : (feedNvidiaOuterOrVirtiosoRaw env h ch).1.ptyData i = h.ptyData i := by
      rcases feed_unhanded hh with ⟨p, n, r, heq⟩ | ⟨e, tag, cur, esc, heq, -⟩
      · rw [heq]
        exact Function.update_of_ne hne _ _
      · rw [heq]
    rw [hslot, routedByte, hh, List.append_nil]
    exact hl
  | some res =>
    obtain ⟨g, b⟩ := res
    obtain ⟨p, n, r, e, hg⟩ := handed_state hh
    have hslot : g.ptyData i = h.ptyData i := by
      rw [hg]
      exact Function.update_of_ne hne _ _
    have htable : g.table = h.table := by
      rw [hg]
      rfl
    have hclock : g.clock = h.clock := by
      rw [hg]
      rfl
    rw [feed_handed hh, routedByte, hh]
    by_cases ht : innerTarget g b = some i
    · have hcount : i < (g.setEscape false).table.ptyMaxCount := by
        rw [show (g.setEscape false).table = g.table from rfl, htable, hs.counts]
        exact hi
      obtain ⟨p, ret, hflush, hp⟩ := flush_stamped he hcount (show Logs ((g.setEscape false).ptyData i) l from hslot ▸ hl) b
      rw [feed_target ht, hflush]
      simp only [if_pos ht, ← hclock]
      simpa [State.setPty] using hp
    · simp only [if_neg ht, List.append_nil]
      rw [feedVirtiosoByte_slots env g b (htable ▸ hi) ht, hslot]
      exact hl

theorem handler_stamped {h : State} (hs : h.Sound) (hi : i < h.table.numProc) {l : List (Bytes × Byte)}
    (hl : Logs (h.ptyData i) l) (bytes : Bytes) :
    Logs ((ttyInputHandler env h bytes).1.ptyData i) (l ++ routed env i h bytes) := by
  induction bytes generalizing h l with
  | nil =>
    rw [routed, List.append_nil]
    exact hl
  | cons ch rest ih =>
    have hstep := receive_stamped he hne hs hi hl ch
    rw [ttyInputHandler, routed, ← List.append_assoc]
    dsimp only
    by_cases hneg : (feedNvidiaOuterOrVirtiosoRaw env h ch).2 < 0
    · rw [if_pos hneg, if_pos hneg, List.append_nil]
      exact hstep
    · rw [if_neg hneg, if_neg hneg]
      have hgrow := (receive_table env h ch).numProc_le
      exact ih ((hs.receive (.inl (Int.not_lt.mp hneg))).tick) (Nat.lt_of_lt_of_le hi hgrow) hstep

end Receive

/-! ### When lines and timestamps agree -/

/-- The log marks the line starts exactly if no byte but the last is zero. -/
theorem Logs.marked_iff {p : ThreadData} {l : List (Bytes × Byte)} (hl : Logs p l) (hstamps : ∀ q ∈ l, q.1 ≠ []) :
    p.log = marked endsLine l ↔ ∀ b ∈ (l.map Prod.snd).dropLast, b ≠ 0 := by
  have hends : ∀ b, endsLine b = true → stampDue b = true := by
    intro b hb
    rw [stampDue, show (b == 0x0a) = true from hb, Bool.true_or]
  rw [hl.log, ← stamped_eq_marked, stamped_eq_iff endsLine hends true hstamps]
  apply forall₂_congr
  intro b _
  simp only [stampDue, endsLine, Bool.or_eq_true, beq_iff_eq]
  constructor
  · intro h hzero
    have hfeed := h (.inr hzero)
    rw [hzero] at hfeed
    exact absurd hfeed (by decide)
  · rintro hne (h | h)
    · exact h
    · exact absurd h hne

theorem Env.Stamps.ne_nil {env : Env} {i : Nat} (he : env.Stamps i) (n : Nat) (ch : Byte) : (stampAt env i n ch).1 ≠ [] :=
  List.ne_nil_of_length_pos (he.stamp n).1

theorem callStamps_ne_nil {env : Env} {i : Nat} (he : env.Stamps i) (calls : List StreamCall) :
    ∀ q ∈ callStamps env i calls, q.1 ≠ [] := by
  intro q hq
  obtain ⟨call, -, rfl⟩ := List.mem_map.mp hq
  exact he.ne_nil call.moment call.ch

theorem routed_ne_nil {env : Env} {i : Nat} (he : env.Stamps i) (h : State) (bytes : Bytes) :
    ∀ q ∈ routed env i h bytes, q.1 ≠ [] := by
  induction bytes generalizing h with
  | nil => exact List.forall_mem_nil _
  | cons ch rest ih =>
    intro q hq
    rcases List.mem_append.mp hq with hq | hq
    · unfold routedByte at hq
      split at hq
      · split at hq
        · rw [List.mem_singleton.mp hq]
          exact he.ne_nil _ _
        · cases hq
      · cases hq
    · split at hq
      · cases hq
      · exact ih _ q hq

/-- For any sequence of calls, whatever other streams are written to in between, and for any
received bytes. -/
theorem timestamps_iff {env : Env} {i : Nat} (he : env.Stamps i) {h : State} (hopen : h.Opened i) :
    (∀ calls, ((streamCalls env h calls).ptyData i).log = marked endsLine (callStamps env i calls) ↔
      ∀ b ∈ ((callStamps env i calls).map Prod.snd).dropLast, b ≠ 0) ∧
    (h.Sound → i ≠ rawCcplexPtyIdx → ∀ bytes,
      ((ttyInputHandler env h bytes).1.ptyData i).log = marked endsLine (routed env i h bytes) ↔
        ∀ b ∈ ((routed env i h bytes).map Prod.snd).dropLast, b ≠ 0) := by
  constructor
  · intro calls
    have hlogs := streamCalls_logs he hopen.count hopen.logs calls
    rw [List.nil_append] at hlogs
    exact hlogs.marked_iff (callStamps_ne_nil he calls)
  · intro hs hne bytes
    have hi : i < h.table.numProc := hs.counts ▸ hopen.count
    have hlogs := handler_stamped he hne hs hi hopen.logs bytes
    rw [List.nil_append] at hlogs
    exact hlogs.marked_iff (routed_ne_nil he h bytes)

def stampingEnv : Env where
  disablePatch := true
  logTimestampEnabled := true
  virtiosoOuterMode := .raw
  virtiosoOuterTagIdx := 0
  saveOutputPath := some (ascii "logs")
  io _ :=
    { flush := fun _ _ => ⟨ascii "[t] ", true, true, .ok⟩, pty := fun _ => ⟨true, true, ascii "/dev/pts/7", true, true⟩,
      calloc := true, xstrndup := fun _ => true }

theorem stampingEnv_stamps (i : Nat) : stampingEnv.Stamps i := by
  refine ⟨rfl, rfl, ?_, ?_, ?_⟩
  · intro n
    simp only [stampingEnv]
    decide
  · exact fun _ => rfl
  · exact fun _ => rfl

theorem stampingEnv_opened : (start stampingEnv).Opened virtiosoDefaultPtyIdx := by
  exact createPtyAtIndex_opened _ _ (by decide) (by decide) rfl rfl rfl

/-- Two lines, with another stream between them. -/
theorem timestamps_iff_lines :
    ((streamCalls stampingEnv (start stampingEnv) [⟨0, 2, 0x61⟩, ⟨1, 2, 0x0a⟩, ⟨1, 1, 0x78⟩, ⟨2, 2, 0x62⟩]).ptyData
      virtiosoDefaultPtyIdx).log =
        marked endsLine (callStamps stampingEnv virtiosoDefaultPtyIdx [⟨0, 2, 0x61⟩, ⟨1, 2, 0x0a⟩, ⟨1, 1, 0x78⟩, ⟨2, 2, 0x62⟩]) :=
  ((timestamps_iff (stampingEnv_stamps _) stampingEnv_opened).1 _).mpr
    (by simp [callStamps, stampAt, virtiosoDefaultPtyIdx])

/-- The byte behind a zero is stamped in the middle of a line. -/
theorem stamp_behind_zero :
    ¬ ∀ calls, ((streamCalls stampingEnv (start stampingEnv) calls).ptyData virtiosoDefaultPtyIdx).log =
      marked endsLine (callStamps stampingEnv virtiosoDefaultPtyIdx calls) := by
  intro hall
  exact absurd (hall [⟨0, 2, 0x00⟩, ⟨1, 2, 0x61⟩]) (by decide)

end VirtiosoMux.Host
