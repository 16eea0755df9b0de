import VirtiosoMux.Library.LineEnds
import VirtiosoMux.Host.Invariant

/-! # Line patching

With patching enabled a write to a PTY completes its line ends. The two flags of a PTY say
which half of a line end has been written last, and each PTY has its own.
-/
namespace VirtiosoMux.Host
open LineEnds

abbrev lineFeed : Byte := 0x0a
abbrev carriageReturn : Byte := 0x0d

def patchLineEnds (bytes : Bytes) : Bytes := complete lineFeed carriageReturn bytes

structure Env.Accepts (env : Env) : Prop where
  stampOk : ∀ n i k, ((env.io n).flush i k).stampOk = true
  logOk : ∀ n i k, ((env.io n).flush i k).logOk = true
  ptyOk : ∀ n i k, ((env.io n).flush i k).pty = .ok

structure Env.Flushes (env : Env) : Prop extends env.Accepts where
  patch : env.disablePatch = false

/-- The flags of a PTY say which half has been seen. -/
def State.Seen (h : State) (i : Nat) (half : Half) : Prop :=
  h.parser.seenN i = decide (half = .lf) ∧ h.parser.seenR i = decide (half = .cr)

def patchCalls (env : Env) (h : State) (calls : List (Nat × Byte)) : State :=
  calls.foldl (fun h call => (patch2flushStream env h call.1 call.2).1) h

def bytesFor (i : Nat) (calls : List (Nat × Byte)) : Bytes := (calls.filter fun call => call.1 == i).map Prod.snd

def innerRun (env : Env) (h : State) (bytes : Bytes) : State :=
  bytes.foldl (fun h ch => (feedVirtiosoByte env h ch).1) h

def innerBytes (env : Env) (j : Nat) : State → Bytes → Bytes
  | _, [] => []
  | h, ch :: rest => (if innerTarget h ch = some j then [ch] else []) ++ innerBytes env j (feedVirtiosoByte env h ch).1 rest

/-- From `p` to `q` the slot has been sent `out`: its PTY has it, and so has its log if it keeps
one without timestamps. -/
structure Sent (env : Env) (t : Table) (i : Nat) (p q : ThreadData) (out : Bytes) : Prop where
  written : q.written = p.written ++ out
  logFd : q.logFd = p.logFd
  log : env.logTimestampEnabled = false → i < t.ptyMaxCount → p.logFd = true → q.log = p.log ++ out

theorem Sent.nil (env : Env) (t : Table) (i : Nat) (p : ThreadData) : Sent env t i p p [] := by
  constructor
  · exact (List.append_nil _).symm
  · rfl
  · exact fun _ _ _ => (List.append_nil _).symm

theorem Sent.append {env : Env} {t : Table} {i : Nat} {p q s : ThreadData} {out out' : Bytes}
    (hp : Sent env t i p q out) (hq : Sent env t i q s out') : Sent env t i p s (out ++ out') := by
  constructor
  · rw [hq.written, hp.written, List.append_assoc]
  · exact hq.logFd.trans hp.logFd
  · intro hoff hlt hfd
    rw [hq.log hoff hlt (hp.logFd.trans hfd), hp.log hoff hlt hfd, List.append_assoc]

theorem marks_ne : lineFeed ≠ carriageReturn := by decide

/-- After a write that succeeds both flags or the one that is alone are kept. -/
theorem forgetLineEnd_ok (g : State) (i : Nat) (n r : Bool) :
    forgetLineEnd i (g.setSeen i n r, 0) = (g.setSeen i (n && !r) (r && !n), 0) := by
  cases n with
  | false => cases r <;> simp [forgetLineEnd, State.setSeen]
  | true => cases r <;> simp [forgetLineEnd, State.setSeen]

/-- The flags after the write, from those before it and the byte. -/
theorem next_flags (half : Half) (ch : Byte) :
    let n := decide (half = .lf ∧ IsMark lineFeed carriageReturn ch ∨ ch = lineFeed)
    let r := decide (half = .cr ∧ IsMark lineFeed carriageReturn ch ∨ ch = carriageReturn)
    (n && !r) = decide (next lineFeed carriageReturn half ch = .lf) ∧
      (r && !n) = decide (next lineFeed carriageReturn half ch = .cr) := by
  by_cases hlf : ch = lineFeed
  · subst hlf
    cases half <;> simp [next, IsMark, marks_ne]
  by_cases hcr : ch = carriageReturn
  · subst hcr
    cases half <;> simp [next, IsMark, marks_ne.symm]
  · simp [next, IsMark, hlf, hcr]

/-- A flush sends its byte and leaves everything but the slot. -/
theorem flush_ok {env : Env} (he : env.Accepts) (h : State) (i k : Nat) (ch : Byte) :
    ∃ p, flushStream env ((env.now h).flush i k) h i ch = (h.setPty i p, 0) ∧
      Sent env h.table i (h.ptyData i) p [ch] := by
  have hstamp : ((env.now h).flush i k).stampOk = true := he.stampOk _ _ _
  have hlog : ((env.now h).flush i k).logOk = true := he.logOk _ _ _
  have hpty : ((env.now h).flush i k).pty = .ok := he.ptyOk _ _ _
  unfold flushStream
  simp only [hstamp, hlog, hpty, Bool.true_eq_false, and_false, if_false, if_true]
  split
  · refine ⟨_, rfl, rfl, rfl, ?_⟩
    intro hoff _ _
    simp [hoff]
  · rename_i hclosed
    refine ⟨_, rfl, rfl, rfl, ?_⟩
    intro _ hlt hfd
    exact absurd ⟨hlt, hfd⟩ hclosed

section Flush
variable {env : Env} (he : env.Flushes)
include he

/-- What is written before the byte is the missing half of an open line end. -/
theorem patched_ok {h : State} {i : Nat} {half : Half} (hseen : h.Seen i half) (ch : Byte) :
    ∃ p out, patched env h i ch = (h.setPty i p).setSeen i
        (decide (half = .lf ∧ IsMark lineFeed carriageReturn ch ∨ ch = lineFeed))
        (decide (half = .cr ∧ IsMark lineFeed carriageReturn ch ∨ ch = carriageReturn)) ∧
      Sent env h.table i (h.ptyData i) p out ∧ emit lineFeed carriageReturn half ch = out ++ [ch] := by
  obtain ⟨hn, hr⟩ := hseen
  unfold patched
  by_cases hlf : ch = lineFeed
  · subst hlf
    refine ⟨h.ptyData i, [], ?_, .nil _ _ _ _, by simp [emit, IsMark]⟩
    rw [if_pos rfl, setPty_self, hr]
    simp [IsMark, marks_ne]
  by_cases hcr : ch = carriageReturn
  · subst hcr
    refine ⟨h.ptyData i, [], ?_, .nil _ _ _ _, by simp [emit, IsMark]⟩
    rw [if_neg (by decide), if_pos rfl, setPty_self, hn]
    simp [IsMark, marks_ne.symm]
  have hmark : ¬ IsMark lineFeed carriageReturn ch := not_or.mpr ⟨hlf, hcr⟩
  rw [if_neg hlf, if_neg hcr]
  cases half with
  | clear =>
    refine ⟨h.ptyData i, [], ?_, .nil _ _ _ _, by simp [emit, hmark, missing]⟩
    simp only [hr, hn, reduceCtorEq, decide_false, Bool.false_eq_true, if_false]
    rw [setPty_self]
    conv_lhs => rw [← setSeen_self h i]
    simp [hr, hn, hlf, hcr]
  | cr =>
    obtain ⟨p, hflush, hsent⟩ := flush_ok he.toAccepts h i 0 lineFeed
    refine ⟨p, [lineFeed], ?_, hsent, by simp [emit, hmark, missing]⟩
    simp only [hr, decide_true, if_true, hflush]
    simp [hmark, hlf, hcr]
  | lf =>
    obtain ⟨p, hflush, hsent⟩ := flush_ok he.toAccepts h i 1 carriageReturn
    refine ⟨p, [carriageReturn], ?_, hsent, by simp [emit, hmark, missing]⟩
    simp only [hr, hn, reduceCtorEq, decide_false, Bool.false_eq_true, if_false, decide_true, if_true, hflush]
    simp [hmark, hlf, hcr]

/-- One call: the slot is sent the completed byte and its flags follow. -/
theorem patch_ok {h : State} {i : Nat} {half : Half} (hseen : h.Seen i half) (ch : Byte) :
    ∃ p, patch2flushStream env h i ch = ((h.setPty i p).setSeen i
        (decide (next lineFeed carriageReturn half ch = .lf)) (decide (next lineFeed carriageReturn half ch = .cr)), 0) ∧
      Sent env h.table i (h.ptyData i) p (emit lineFeed carriageReturn half ch) := by
  obtain ⟨p, out, hpatched, hsent, hemit⟩ := patched_ok he hseen ch
  obtain ⟨q, hflush, hsent'⟩ := flush_ok he.toAccepts (patched env h i ch) i 2 ch
  have hnow : env.now (patched env h i ch) = env.now h := by rw [hpatched]; rfl
  rw [hnow] at hflush
  rw [patch2flushStream_eq, he.patch, if_neg Bool.false_ne_true, hflush, hemit]
  have hpty : (patched env h i ch).ptyData i = p := by
    rw [hpatched]
    exact Function.update_self _ _ _
  rw [hpty] at hsent'
  rw [hpatched] at hsent' ⊢
  refine ⟨q, ?_, hsent.append hsent'⟩
  obtain ⟨hlf, hcr⟩ := next_flags half ch
  rw [setSeen_setPty, setPty_setPty, forgetLineEnd_ok, hlf, hcr]

/-! ### Runs of calls -/

/-- However the calls are interleaved, a PTY is sent its own bytes completed. -/
theorem patchCalls_sent {h : State} {i : Nat} {half : Half} (hseen : h.Seen i half) (calls : List (Nat × Byte)) :
    Sent env h.table i (h.ptyData i) ((patchCalls env h calls).ptyData i)
      (output lineFeed carriageReturn half (bytesFor i calls)) := by
  induction calls generalizing h half with
  | nil => exact .nil _ _ _ _
  | cons call rest ih =>
    obtain ⟨j, ch⟩ := call
    by_cases hj : j = i
    · subst hj
      obtain ⟨p, heq, hsent⟩ := patch_ok he hseen ch
      have hbytes : bytesFor j ((j, ch) :: rest) = ch :: bytesFor j rest := by simp [bytesFor]
      have hseen' : (patch2flushStream env h j ch).1.Seen j (next lineFeed carriageReturn half ch) := by
        rw [heq]
        exact ⟨Function.update_self _ _ _, Function.update_self _ _ _⟩
      have hrest := ih hseen'
      have hpty : (patch2flushStream env h j ch).1.ptyData j = p := by
        rw [heq]
        exact Function.update_self _ _ _
      have htable : (patch2flushStream env h j ch).1.table = h.table := by
        rw [heq]
        rfl
      rw [hpty, htable] at hrest
      rw [hbytes, output]
      exact hsent.append hrest
    · obtain ⟨p, n, r, ret, heq⟩ := patch2flushStream_slot env h j ch
      have hbytes : bytesFor i ((j, ch) :: rest) = bytesFor i rest := by simp [bytesFor, hj]
      have hseen' : (patch2flushStream env h j ch).1.Seen i half := by
        rw [heq]
        exact ⟨(Function.update_of_ne (Ne.symm hj) _ _).trans hseen.1,
          (Function.update_of_ne (Ne.symm hj) _ _).trans hseen.2⟩
      have hrest := ih hseen'
      have hpty : (patch2flushStream env h j ch).1.ptyData i = h.ptyData i := by
        rw [heq]
        exact Function.update_of_ne (Ne.symm hj) _ _
      have htable : (patch2flushStream env h j ch).1.table = h.table := by
        rw [heq]
        rfl
      rw [hpty, htable] at hrest
      rw [hbytes]
      exact hrest

/-- The same of the bytes that the inner parser writes to a slot in use, whatever else it reads. -/
theorem innerRun_sent {h : State} {j : Nat} (hj : j < h.table.numProc) {half : Half} (hseen : h.Seen j half) (bytes : Bytes) :
    ((innerRun env h bytes).ptyData j).written =
      (h.ptyData j).written ++ output lineFeed carriageReturn half (innerBytes env j h bytes) := by
  induction bytes generalizing h half with
  | nil => exact (List.append_nil _).symm
  | cons ch rest ih =>
    have hcount : j < (feedVirtiosoByte env h ch).1.table.numProc :=
      Nat.lt_of_lt_of_le hj (feedVirtiosoByte_table env h ch).numProc_le
    by_cases ht : innerTarget h ch = some j
    · obtain ⟨p, heq, hsent⟩ := patch_ok he (h := h.setEscape false) (i := j) hseen ch
      have hfeed : feedVirtiosoByte env h ch = _ := (feed_target ht).trans heq
      have hseen' : (feedVirtiosoByte env h ch).1.Seen j (next lineFeed carriageReturn half ch) := by
        rw [hfeed]
        exact ⟨Function.update_self _ _ _, Function.update_self _ _ _⟩
      have hpty : (feedVirtiosoByte env h ch).1.ptyData j = p := by
        rw [hfeed]
        exact Function.update_self _ _ _
      have hrest := ih hcount hseen'
      rw [hpty, hsent.written] at hrest
      rw [innerBytes, if_pos ht, List.cons_append, List.nil_append, output, ← List.append_assoc]
      exact hrest
    · obtain ⟨hn, hr⟩ := feedVirtiosoByte_seen env h ch ht
      have hrest := ih hcount ⟨hn.trans hseen.1, hr.trans hseen.2⟩
      rw [feedVirtiosoByte_slots env h ch hj ht] at hrest
      rw [innerBytes, if_neg ht]
      exact hrest

end Flush

/-- Line patching is idempotent and loses nothing, it completes every line end that something
follows, and each stream is patched by itself. -/
theorem line_ends_patched :
    (∀ x, patchLineEnds (patchLineEnds x) = patchLineEnds x) ∧
    (∀ x, x.Sublist (patchLineEnds x) ∧ Inserted (IsMark lineFeed carriageReturn) x (patchLineEnds x)) ∧
    (∀ x before run rest c, patchLineEnds x = before ++ run ++ c :: rest → run ≠ [] →
      (∀ b ∈ run, IsMark lineFeed carriageReturn b) → (∀ b ∈ before.getLast?, ¬ IsMark lineFeed carriageReturn b) →
      ¬ IsMark lineFeed carriageReturn c → lineFeed ∈ run ∧ carriageReturn ∈ run) ∧
    (∀ env h i, Env.Flushes env → State.Seen h i .clear → ∀ calls,
      Sent env h.table i (h.ptyData i) ((patchCalls env h calls).ptyData i) (patchLineEnds (bytesFor i calls))) ∧
    ∀ env h i, Env.Flushes env → State.Seen h i .clear → i < h.table.numProc → ∀ bytes,
      ((innerRun env h bytes).ptyData i).written = (h.ptyData i).written ++ patchLineEnds (innerBytes env i h bytes) := by
  refine ⟨complete_complete marks_ne, ?_, ?_, ?_, ?_⟩
  · intro x
    have hins := inserted_output lineFeed carriageReturn .clear x
    exact ⟨hins.sublist, hins⟩
  · intro x before run rest c hx hrun hmarks hbefore hc
    have hcomplete := complete_complete marks_ne x
    rw [show complete lineFeed carriageReturn x = before ++ run ++ c :: rest from hx] at hcomplete
    exact run_of_complete marks_ne hcomplete hrun hmarks hbefore hc
  · intro env h i he hseen calls
    exact patchCalls_sent he hseen calls
  · intro env h i he hseen hi bytes
    exact innerRun_sent he hi hseen bytes

def patchingEnv : Env := { quietEnv with disablePatch := false }

theorem patchingEnv_flushes : patchingEnv.Flushes := by
  refine ⟨⟨?_, ?_, ?_⟩, rfl⟩ <;> intros <;> rfl

/-- Two streams in turn: one ends its lines with a lone line feed, the other with a lone carriage return. -/
theorem line_ends_patched_interleaved :
    ((patchCalls patchingEnv (start patchingEnv) [(1, 0x61), (2, 0x0d), (1, 0x0a), (2, 0x62), (1, 0x63)]).ptyData 1).written =
      (((start patchingEnv).ptyData 1).written ++ [0x61, 0x0a, 0x0d, 0x63]) ∧
    ((patchCalls patchingEnv (start patchingEnv) [(1, 0x61), (2, 0x0d), (1, 0x0a), (2, 0x62), (1, 0x63)]).ptyData 2).written =
      (((start patchingEnv).ptyData 2).written ++ [0x0d, 0x0a, 0x62]) := by
  obtain ⟨-, -, -, hcalls, -⟩ := line_ends_patched
  have hfirst := hcalls patchingEnv (start patchingEnv) 1 patchingEnv_flushes ⟨rfl, rfl⟩
    [(1, 0x61), (2, 0x0d), (1, 0x0a), (2, 0x62), (1, 0x63)]
  have hsecond := hcalls patchingEnv (start patchingEnv) 2 patchingEnv_flushes ⟨rfl, rfl⟩
    [(1, 0x61), (2, 0x0d), (1, 0x0a), (2, 0x62), (1, 0x63)]
  exact ⟨hfirst.written, hsecond.written⟩

end VirtiosoMux.Host
