import VirtiosoMux.Protocol.Codes
import Mathlib.Data.List.DropRight

/-! # The router's view of the demuxer

The part of `console_router.py` that starts `virtioso-mux` and reads the sessions it opens from
its standard output. A Python string is a list of characters. An exception ends the router's
loop; a result is paired with `false` then, and the state is the one it leaves.
-/
namespace VirtiosoMux.Router

abbrev Text := List Char

/-! ### Decoding with replacement -/

def replacement : Char := Char.ofNat 0xfffd

def isContinuation (b : Byte) : Bool := decide (0x80 ≤ b) && decide (b < 0xc0)

/-- The second byte of a sequence of three or four; some would encode too little or too much. -/
def isSecond (lead b : Byte) : Bool :=
  isContinuation b && !(lead == 0xe0 && decide (b < 0xa0)) && !(lead == 0xed && decide (0xa0 ≤ b)) &&
    !(lead == 0xf0 && decide (b < 0x90)) && !(lead == 0xf4 && decide (0x90 ≤ b))

def low (b : Byte) : Nat := b.toNat - 0x80

/-- The character at the start of the input and the number of bytes it takes. An ill-formed
sequence is replaced up to the byte that breaks it. -/
def decodeOne (lead : Byte) (rest : Bytes) : Char × Nat :=
  if lead < 0x80 then (Char.ofNat lead.toNat, 1)
  else if 0xc2 ≤ lead ∧ lead < 0xe0 then
    match rest with
    | b :: _ => if isContinuation b then (Char.ofNat ((lead.toNat - 0xc0) * 64 + low b), 2) else (replacement, 1)
    | [] => (replacement, 1)
  else if 0xe0 ≤ lead ∧ lead < 0xf0 then
    match rest with
    | b :: c :: _ =>
      if !isSecond lead b then (replacement, 1)
      else if isContinuation c then (Char.ofNat ((lead.toNat - 0xe0) * 4096 + low b * 64 + low c), 3)
      else (replacement, 2)
    | [b] => if isSecond lead b then (replacement, 2) else (replacement, 1)
    | [] => (replacement, 1)
  else if 0xf0 ≤ lead ∧ lead < 0xf5 then
    match rest with
    | b :: c :: d :: _ =>
      if !isSecond lead b then (replacement, 1)
      else if !isContinuation c then (replacement, 2)
      else if isContinuation d then
        (Char.ofNat ((lead.toNat - 0xf0) * 262144 + low b * 4096 + low c * 64 + low d), 4)
      else (replacement, 3)
    | [b, c] =>
      if !isSecond lead b then (replacement, 1) else if isContinuation c then (replacement, 3) else (replacement, 2)
    | [b] => if isSecond lead b then (replacement, 2) else (replacement, 1)
    | [] => (replacement, 1)
  else (replacement, 1)

/-- `skip` bytes belong to the character before. -/
def decodeFrom : Nat → Bytes → Text
  | _, [] => []
  | skip + 1, _ :: rest => decodeFrom skip rest
  | 0, lead :: rest => (decodeOne lead rest).1 :: decodeFrom ((decodeOne lead rest).2 - 1) rest

def decodeUtf8 (bytes : Bytes) : Text := decodeFrom 0 bytes

/-- `str.isspace` of one character. -/
def isSpace (c : Char) : Bool :=
  let n := c.toNat
  (decide (0x09 ≤ n) && decide (n ≤ 0x0d)) || (decide (0x1c ≤ n) && decide (n ≤ 0x20)) || n == 0x85 || n == 0xa0 ||
    n == 0x1680 || (decide (0x2000 ≤ n) && decide (n ≤ 0x200a)) || n == 0x2028 || n == 0x2029 || n == 0x202f ||
    n == 0x205f || n == 0x3000

def strip (text : Text) : Text := (text.dropWhile isSpace).rdropWhile isSpace

/-! ### Sessions -/

structure Session where
  sessionId : Text
  name : Text
  kind : Text
  interactive : Bool
  logPath : Text
  eventsPath : Option Text
  ptyPath : Text
deriving DecidableEq

def setSession (sessions : List (Text × Session)) (name : Text) (session : Session) : List (Text × Session) :=
  if sessions.any (fun entry => entry.1 == name) then
    sessions.map (fun entry => if entry.1 = name then (name, session) else entry)
  else sessions ++ [(name, session)]

/-- Outcomes of the calls made for one line: the bytes that the router's own output takes, the
channel's directory, link and description, and the manifest of all sessions. -/
structure LineIo where
  echo : Option Nat
  channel : Bool
  manifest : Bool

/-- `logPath` is the text of `logs_dir / f"{name}.txt"`. -/
structure Env where
  logPath : Text → Text
  io : Nat → LineIo

structure Mappings where
  sessions : List (Text × Session)
  echoed : Bytes
  lines : Nat

def Mappings.empty : Mappings := ⟨[], [], 0⟩

def recordDynamicMuxSession (env : Env) (m : Mappings) (name ptyPath : Text) : Mappings × Bool :=
  if !(env.io m.lines).channel then (m, false)
  else
    let session : Session :=
      { sessionId := name, name := name, kind := "virtioso_mux_stream".toList, interactive := name != "RAW".toList,
        logPath := env.logPath name, eventsPath := none, ptyPath := ptyPath }
    ({ m with sessions := setSession m.sessions name session }, (env.io m.lines).manifest)

def takeLine (env : Env) (m : Mappings) (line : Bytes) : Mappings × Bool :=
  match (env.io m.lines).echo with
  | none => (m, false)
  | some count =>
    let m := { m with echoed := m.echoed ++ line.take count }
    let text := strip (decodeUtf8 line)
    if '\t' ∉ text then (m, true)
    else
      let ptyPath := text.takeWhile (· != '\t')
      let name := (text.dropWhile (· != '\t')).tail
      if ptyPath = [] ∨ name = [] then (m, true) else recordDynamicMuxSession env m name ptyPath

def nextLine (buffer : Bytes) : Option (Bytes × Bytes) :=
  (buffer.findIdx? (· == 0x0a)).map (fun i => (buffer.take (i + 1), buffer.drop (i + 1)))

theorem nextLine_eq {buffer line rest : Bytes} (h : nextLine buffer = some (line, rest)) :
    buffer = line ++ rest ∧ rest.length < buffer.length := by
  obtain ⟨i, hi, heq⟩ := Option.map_eq_some_iff.mp h
  cases heq
  obtain ⟨hlt, -⟩ := List.findIdx?_eq_some_iff_getElem.mp hi
  exact ⟨(List.take_append_drop (i + 1) buffer).symm, by simp only [List.length_drop]; omega⟩

/-- The loop of `_drain_virtioso_mux_mappings`. Result: the bytes left in the buffer, the
mappings, and whether no call has raised. -/
def drainLoop (env : Env) (m : Mappings) (buffer : Bytes) : Bytes × Mappings × Bool :=
  match _hn : nextLine buffer with
  | none => (buffer, m, true)
  | some (line, rest) =>
    let (m', ok) := takeLine env m line
    if ok then drainLoop env { m' with lines := m'.lines + 1 } rest else (rest, m', false)
termination_by buffer.length
decreasing_by exact (nextLine_eq _hn).2

def drainVirtiosoMuxMappings (env : Env) (m : Mappings) (buffer data : Bytes) : Bytes × Mappings × Bool :=
  drainLoop env m (buffer ++ data)

/-- The reads of the demuxer's standard output, up to the first that raises. -/
def drainReads (env : Env) : Mappings → Bytes → List Bytes → Bytes × Mappings × Bool
  | m, buffer, [] => (buffer, m, true)
  | m, buffer, data :: reads =>
    let (buffer, m, ok) := drainVirtiosoMuxMappings env m buffer data
    if ok then drainReads env m buffer reads else (buffer, m, false)

/-! ### Lines without a tab

Only the byte `0x09` decodes to a tab, so a line without it is echoed and otherwise ignored.
-/

theorem ofNat_eq_tab {n : Nat} (h : Char.ofNat n = '\t') : n = 9 := by
  by_cases hv : n.isValidChar
  · have hnat := congrArg Char.toNat h
    rw [Char.ofNat, dif_pos hv] at hnat
    exact hnat
  · rw [Char.ofNat, dif_neg hv] at h
    cases h

theorem replacement_ne_tab : replacement ≠ '\t' := fun h => absurd (ofNat_eq_tab h) (by decide)

/-- The restrictions on the second byte rule out small numbers. -/
theorem isSecond_low {lead b : Byte} (h : isSecond lead b = true) :
    (lead.toNat = 0xe0 → 0xa0 ≤ b.toNat) ∧ (lead.toNat = 0xf0 → 0x90 ≤ b.toNat) := by
  simp only [isSecond, Bool.and_eq_true, Bool.not_eq_true', Bool.and_eq_false_iff, beq_eq_false_iff_ne,
    decide_eq_false_iff_not, UInt8.not_lt, UInt8.le_iff_toNat_le, UInt8.reduceToNat] at h
  obtain ⟨⟨⟨⟨-, h3⟩, -⟩, h4⟩, -⟩ := h
  constructor
  · intro hlead
    exact h3.resolve_left (fun hne => hne (UInt8.toNat_inj.mp hlead))
  · intro hlead
    exact h4.resolve_left (fun hne => hne (UInt8.toNat_inj.mp hlead))

/-- A lead byte that is not ASCII decodes to a number that is not either. -/
theorem decodeOne_eq_tab {lead : Byte} {rest : Bytes} (h : (decodeOne lead rest).1 = '\t') : lead = 0x09 := by
  have htab : ∀ n, Char.ofNat n = '\t' → n = 9 := fun _ => ofNat_eq_tab
  have hrep := replacement_ne_tab
  unfold decodeOne at h
  generalize '\t' = tab at h htab hrep
  generalize replacement = rep at h hrep
  split at h
  · exact UInt8.toNat_inj.mp (htab _ h)
  exfalso
  split at h
  · rename_i hlead
    simp only [UInt8.le_iff_toNat_le, UInt8.reduceToNat] at hlead
    split at h
    · split at h
      · dsimp only at h
        have hnat := htab _ h
        omega
      · exact hrep h
    · exact hrep h
  split at h
  · rename_i hlead
    simp only [UInt8.le_iff_toNat_le, UInt8.reduceToNat] at hlead
    split at h
    · rename_i b c _
      split at h
      · exact hrep h
      split at h
      · rename_i hb _
        have hsecond : isSecond lead b = true := by simpa using hb
        have hlow := (isSecond_low hsecond).1
        dsimp only at h
        have hnat := htab _ h
        unfold low at hnat
        omega
      · exact hrep h
    · split at h <;> exact hrep h
    · exact hrep h
  split at h
  · rename_i hlead
    simp only [UInt8.le_iff_toNat_le, UInt8.reduceToNat] at hlead
    split at h
    · rename_i b c d _
      split at h
      · exact hrep h
      split at h
      · exact hrep h
      split at h
      · rename_i hb _ _
        have hsecond : isSecond lead b = true := by simpa using hb
        have hlow := (isSecond_low hsecond).2
        dsimp only at h
        have hnat := htab _ h
        unfold low at hnat
        omega
      · exact hrep h
    · split at h
      · exact hrep h
      split at h <;> exact hrep h
    · split at h <;> exact hrep h
    · exact hrep h
  · exact hrep h

theorem tab_mem_decodeFrom (skip : Nat) {bytes : Bytes} (h : '\t' ∈ decodeFrom skip bytes) : 0x09 ∈ bytes := by
  induction bytes generalizing skip with
  | nil => cases skip <;> cases h
  | cons lead rest ih =>
    cases skip with
    | succ skip => exact List.mem_cons_of_mem _ (ih skip h)
    | zero =>
      rcases List.mem_cons.mp h with htab | htab
      · rw [decodeOne_eq_tab htab.symm]
        exact List.mem_cons_self
      · exact List.mem_cons_of_mem _ (ih _ htab)

theorem mem_of_mem_strip {c : Char} {text : Text} (h : c ∈ strip text) : c ∈ text :=
  (List.dropWhile_sublist isSpace).subset ((List.rdropWhile_prefix isSpace _).subset h)

theorem takeLine_sessions (env : Env) (m : Mappings) {line : Bytes} (h : 0x09 ∉ line) :
    (takeLine env m line).1.sessions = m.sessions := by
  have htab : '\t' ∉ strip (decodeUtf8 line) := fun hmem => h (tab_mem_decodeFrom 0 (mem_of_mem_strip hmem))
  unfold takeLine
  split
  · rfl
  · simp only [htab, not_false_eq_true, if_true]

theorem drainLoop_sessions (env : Env) (m : Mappings) {buffer : Bytes} (h : 0x09 ∉ buffer) :
    (drainLoop env m buffer).2.1.sessions = m.sessions ∧ 0x09 ∉ (drainLoop env m buffer).1 := by
  induction hlen : buffer.length using Nat.strongRecOn generalizing m buffer with
  | _ n ih =>
    rw [drainLoop]
    split
    · exact ⟨rfl, h⟩
    · rename_i line rest hn
      obtain ⟨hsplit, hshort⟩ := nextLine_eq hn
      rw [hsplit, List.mem_append, not_or] at h
      have hline := takeLine_sessions env m h.1
      cases htake : takeLine env m line with
      | mk m' ok =>
        rw [htake] at hline
        cases ok with
        | false => exact ⟨hline, h.2⟩
        | true =>
          obtain ⟨hrest, hbuffer⟩ := ih rest.length (hlen ▸ hshort) { m' with lines := m'.lines + 1 } h.2 rfl
          exact ⟨hrest.trans hline, hbuffer⟩

/-- However the output arrives, no session is recorded while it has no tab. -/
theorem drainReads_sessions (env : Env) (m : Mappings) {buffer : Bytes} (hb : 0x09 ∉ buffer) {reads : List Bytes}
    (hr : 0x09 ∉ reads.flatten) : (drainReads env m buffer reads).2.1.sessions = m.sessions := by
  induction reads generalizing m buffer with
  | nil => rfl
  | cons data reads ih =>
    rw [List.flatten_cons, List.mem_append, not_or] at hr
    obtain ⟨hs, hrest⟩ := @drainLoop_sessions env m (buffer ++ data) (by simp [hb, hr.1])
    unfold drainReads drainVirtiosoMuxMappings
    generalize drainLoop env m (buffer ++ data) = res at hs hrest
    obtain ⟨buffer', m', ok⟩ := res
    cases ok with
    | false => exact hs
    | true => exact (ih m' hrest hr.2).trans hs

/-! ### Starting the demuxer -/

/-- The fields of the transport that `_run_virtioso_vcmux` reads: the path of the binary if it is
a non-empty string and exists, the text of `outer`, and `outer_client` if it is a string. -/
structure Transport where
  virtiosoMuxPath : Option Text
  outer : Text
  outerClient : Option Text

structure RunPaths where
  uartSlavePath : Text
  logsDir : Text
  rawLog : Text

/-- The command that the demuxer is started with. A given `outer_client` is added to a list that
does not exist, which raises before the start. -/
def virtiosoMuxCmd (transport : Transport) (paths : RunPaths) : Option (List Text) :=
  match transport.virtiosoMuxPath with
  | none => none
  | some path =>
    let cmd := [path, "-A".toList, "-O".toList, transport.outer, "-d".toList, paths.uartSlavePath, "-s".toList, paths.logsDir,
      "-l".toList, paths.rawLog, "-L".toList]
    match transport.outerClient with
    | none => some cmd
    | some client => if client = [] then some cmd else none

end VirtiosoMux.Router
