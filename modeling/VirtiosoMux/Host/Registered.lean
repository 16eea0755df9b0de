import VirtiosoMux.Host.Invariant
import VirtiosoMux.Library.Paths

/-! # Registered streams

What holds of every entry that a registry or an announcement has added: whether an escape can
select it, whether its index fits the `unsigned char` of the sending thread, and where its log
lies. A registry is checked for reserved identifiers and for duplicate names, an announcement
is not, and neither is checked for separators in a name, so the results are about runs whose
records meet the conditions the code leaves out.
-/
namespace VirtiosoMux.Host
open Paths

/-! ### Selection and the index of the sending thread -/

/-- `pty_input_handler` keeps its index in an `unsigned char`. -/
def ptyInputIdx (id : Nat) : Byte := UInt8.ofNat id

/-- The entry has an identifier that an escape can select, the escape selects it, and the
sending thread uses its index. -/
structure Addressable (env : Env) (h : State) (i : Nat) : Prop where
  unreserved : ¬ Reserved (h.table.tags i).value
  selected : ∀ g : State, g.table = h.table → g.parser.controlState = .idle → g.parser.inEscape = false →
    (feedVirtiosoByte env (feedVirtiosoByte env g vcmuxProtoEscStart).1 (h.table.tags i).value).1.parser.curRxStream = some i
  indexed : (ptyInputIdx i).toNat = i

/-- A received byte completes no announcement of the identifiers `0xfd` and `0xfe`. -/
def AnnouncesSelectable (env : Env) (h : State) (ch : Byte) : Prop :=
  ∀ a ∈ receivedAnnouncement env h ch, a.1 ≠ vcmuxProtoEscControl ∧ a.1 ≠ vcmuxProtoEscStart

instance (env : Env) (h : State) (ch : Byte) : Decidable (AnnouncesSelectable env h ch) :=
  inferInstanceAs (Decidable (∀ a ∈ receivedAnnouncement env h ch, _))

theorem Table.Clean.addressable {h : State} (hc : h.table.Clean) (env : Env) {i : Nat} (h3 : 3 ≤ i)
    (hi : i < h.table.numProc) : Addressable env h i := by
  have hid := hc.selectable i h3 hi
  have hle := hc.numProc_le
  refine ⟨hid, ?_, UInt8.toNat_ofNat_of_lt' (by simp only [UInt8.size]; omega)⟩
  intro g htable hcontrol hescape
  rw [feed_escape hcontrol hescape, feed_select (h := g.setEscape true) hcontrol rfl hid]
  simp only [State.setStream_parser_curRxStream, State.setEscape_table, htable]
  exact hc.find_slot h3 hi

/-- In every run without announcements of `0xfd` and `0xfe` every registered stream can be
selected and has an index of one byte. -/
theorem streams_addressable {env : Env} {bytes : Bytes} (halong : Along env (AnnouncesSelectable env) (start env) bytes)
    {i : Nat} (h3 : 3 ≤ i) (hi : i < (ttyInputHandler env (start env) bytes).1.table.numProc) :
    Addressable env (ttyInputHandler env (start env) bytes).1 i := by
  have hslots : (ttyInputHandler env (start env) bytes).1.table.Slots (fun tag => ¬ Reserved tag.value) := by
    refine handler_invariant (I := fun h => h.table.Slots (fun tag => ¬ Reserved tag.value)) ?_ ?_ ?_ halong
    · intro h hs
      exact hs
    · intro h ch hs hok
      refine hs.change (receive_table env h ch) ?_ ?_
      · intro sid name hdone hnew
        obtain ⟨hcontrol, hstart⟩ := hok (sid, name) hdone
        have hb := hs.builtin
        -- a built-in entry has the value zero, so zero is not new
        have hzero : sid ≠ vcmuxProtoEscDefault := by
          intro h0
          exact find_eq_none_iff.mp hnew 0 (by omega) ((hs.zero 0 (by omega)).trans h0.symm)
        exact not_reserved_iff.mpr ⟨hzero, hcontrol, hstart⟩
      · intro entries _ e _ _ hid
        exact hid
    · obtain ⟨pd, out, heq, -⟩ := start_state env
      rw [heq]
      exact initVirtiosoTags_slots _
  exact hslots.clean.addressable env h3 hi

/-- The stream `x` is announced on the identifier one. -/
theorem streams_addressable_announced :
    Addressable quietEnv (ttyInputHandler quietEnv (start quietEnv) [0xfe, 0xfd, 0x01, 0x00, 0x02, 0x01, 0x78]).1 3 :=
  streams_addressable (by decide) (by decide) (by decide)

/-- An announcement of `0xfd` is registered, and the escape pair `fe fd` opens a record instead. -/
theorem control_id_registered :
    ¬ ∀ i, 3 ≤ i →
      i < (ttyInputHandler quietEnv (start quietEnv) [0xfe, 0xfd, 0x01, 0x00, 0x02, 0xfd, 0x78]).1.table.numProc →
      Addressable quietEnv (ttyInputHandler quietEnv (start quietEnv) [0xfe, 0xfd, 0x01, 0x00, 0x02, 0xfd, 0x78]).1 i := by
  intro hall
  have hres : Reserved ((ttyInputHandler quietEnv (start quietEnv) [0xfe, 0xfd, 0x01, 0x00, 0x02, 0xfd, 0x78]).1.table.tags 3).value := by
    decide
  exact (hall 3 (by decide) (by decide)).unreserved hres

/-! ### Log files -/

def slash : Byte := 0x2f
def dot : Byte := 0x2e

def maxPath : Nat := 256

/-- The directory of the option `-s`: an argument that does not fit the buffer is refused, a
separator at its end is cut off, and `opendir` refuses an empty name. -/
def saveOutputOption (arg : Bytes) : Option Bytes :=
  if maxPath < arg.length + 1 then none
  else
    let path := if arg.getLast? = some slash then arg.dropLast else arg
    if path = [] then none else some path

/-- The name of the log, built in a buffer of 1024 bytes by `snprintf` and `strncat`. -/
def savefile (dir name : Bytes) : Bytes :=
  let buf := (dir ++ ascii "/" ++ name).take 1023
  buf ++ (ascii ".txt").take (1024 - buf.length - 1)

structure LogsSeparate (workingDirectory : List Bytes) (dir : Bytes) (t : Table) : Prop where
  inside : ∀ i < t.numProc, ∃ file, resolve slash dot workingDirectory (savefile dir (((t.tags i).name).getD [])) =
    resolve slash dot workingDirectory dir ++ [file]
  distinct : ∀ i j, i < t.numProc → j < t.numProc →
    resolve slash dot workingDirectory (savefile dir (((t.tags i).name).getD [])) =
      resolve slash dot workingDirectory (savefile dir (((t.tags j).name).getD [])) → i = j

def LogName (dir name : Bytes) : Prop := slash ∉ name ∧ dir.length + 1 + name.length + 4 ≤ 1023

instance (dir name : Bytes) : Decidable (LogName dir name) := inferInstanceAs (Decidable (_ ∧ _))

/-- An announcement of a new identifier carries a name without separators that no entry has, and
the names of the streams of a registry are without separators and fit the buffer. -/
def NamesLogs (env : Env) (h : State) (ch : Byte) : Prop :=
  (∀ a ∈ receivedAnnouncement env h ch, findVirtiosoPtyIdxByStreamId h.table a.1 = none →
    slash ∉ cString (a.2.take 255) ∧ ∀ i < h.table.numProc, (h.table.tags i).name ≠ some (cString (a.2.take 255))) ∧
  (∀ es ∈ receivedEntries env h ch, ∀ dir ∈ env.saveOutputPath, ∀ o ∈ es, ∀ e ∈ o, 0 ≤ e.streamId → LogName dir e.name)

instance (env : Env) (h : State) (ch : Byte) : Decidable (NamesLogs env h ch) :=
  inferInstanceAs (Decidable (_ ∧ _))

theorem savefile_eq {dir name : Bytes} (hfit : dir.length + 1 + name.length + 4 ≤ 1023) :
    savefile dir name = dir ++ slash :: (name ++ ascii ".txt") := by
  have hbuf : (dir ++ ascii "/" ++ name).take 1023 = dir ++ slash :: name := by
    rw [List.take_of_length_le]
    · simp [show ascii "/" = [slash] by decide]
    · simp only [List.length_append, show (ascii "/").length = 1 by decide]
      omega
  rw [savefile, hbuf, List.take_of_length_le]
  · simp
  · simp only [List.length_append, List.length_cons, show (ascii ".txt").length = 4 by decide]
    omega

theorem plain_log {name : Bytes} (hn : slash ∉ name) : Plain slash dot (name ++ ascii ".txt") := by
  have hlen : (name ++ ascii ".txt").length = name.length + 4 := List.length_append
  have hshort : ∀ l : Bytes, l.length < 4 → name ++ ascii ".txt" ≠ l := by
    rintro l hl rfl
    omega
  refine ⟨?_, hshort _ (by decide), hshort _ (by decide), hshort _ (by decide)⟩
  rw [List.mem_append, not_or]
  exact ⟨hn, by decide⟩

theorem LogName.resolve {dir name : Bytes} (hn : LogName dir name) (hdir : dir ≠ []) (workingDirectory : List Bytes) :
    resolve slash dot workingDirectory (savefile dir name) =
      resolve slash dot workingDirectory dir ++ [name ++ ascii ".txt"] := by
  rw [savefile_eq hn.2]
  exact resolve_child hdir (plain_log hn.1) workingDirectory

structure Table.Named (Q : Bytes → Prop) (t : Table) : Prop where
  names : ∀ i < t.numProc, ∃ name, (t.tags i).name = some name ∧ Q name
  distinct : ∀ i j, i < t.numProc → j < t.numProc → (t.tags i).name = (t.tags j).name → i = j

section Named
variable {Q : Bytes → Prop} {t t' : Table}

theorem Table.Named.unchanged (hn : t.Named Q) (hu : t.Unchanged t') : t'.Named Q := by
  have hcount := hu.numProc
  refine ⟨?_, ?_⟩
  · intro i hi
    rw [hu.tags i (by omega)]
    exact hn.names i (by omega)
  · intro i j hi hj heq
    rw [hu.tags i (by omega), hu.tags j (by omega)] at heq
    exact hn.distinct i j (by omega) (by omega) heq

theorem Table.Named.add (hn : t.Named Q) {name : Bytes} (hname : Q name)
    (hnew : ∀ i < t.numProc, (t.tags i).name ≠ some name) {value : Byte}
    (htags : t'.tags = Function.update t.tags t.numProc ⟨some name, value⟩) (hcount : t'.numProc = t.numProc + 1) :
    t'.Named Q := by
  have hlast : (t'.tags t.numProc).name = some name := by
    rw [htags, Function.update_self]
  have hold : ∀ i < t.numProc, t'.tags i = t.tags i := by
    intro i hi
    rw [htags, Function.update_of_ne (Nat.ne_of_lt hi)]
  refine ⟨?_, ?_⟩
  · intro i hi
    by_cases hi' : i = t.numProc
    · rw [hi', hlast]
      exact ⟨name, rfl, hname⟩
    · rw [hold i (by omega)]
      exact hn.names i (by omega)
  · intro i j hi hj heq
    by_cases hi' : i = t.numProc <;> by_cases hj' : j = t.numProc
    · omega
    · rw [hi', hlast, hold j (by omega)] at heq
      exact absurd heq.symm (hnew j (by omega))
    · rw [hj', hlast, hold i (by omega)] at heq
      exact absurd heq (hnew i (by omega))
    · rw [hold i (by omega), hold j (by omega)] at heq
      exact hn.distinct i j (by omega) (by omega) heq

/-- A registry is checked for duplicate names. -/
theorem Table.Named.scanned (hn : t.Named Q) {entries : List (Option Entry)}
    (hq : ∀ e, some e ∈ entries → 0 ≤ e.streamId → Q e.name) : ((t.scan entries).1.table t).Named Q := by
  refine addEntries_invariant (I := fun s => (s.table t).Named Q) ?_
    (s := ⟨t.tags, t.inputEnabled, t.numProc⟩) ⟨hn.names, hn.distinct⟩
  intro s e s' hs he hadd
  rcases addEntry_cases hadd with ⟨-, rfl⟩ | ⟨hpos, -, -, hnew, rfl⟩
  · exact hs
  · exact hs.add (hq e he hpos) (fun i hi => (hnew i hi).2) rfl rfl

theorem Table.Named.change (hn : t.Named Q) {announced : Option (Byte × Bytes)} {entries : Option (List (Option Entry))}
    (hchange : t.Change announced entries t')
    (hann : ∀ sid name, announced = some (sid, name) → findVirtiosoPtyIdxByStreamId t sid = none →
      Q (cString (name.take 255)) ∧ ∀ i < t.numProc, (t.tags i).name ≠ some (cString (name.take 255)))
    (hreg : ∀ es, entries = some es → ∀ e, some e ∈ es → 0 ≤ e.streamId → Q e.name) : t'.Named Q := by
  cases hchange with
  | unchanged hu => exact hn.unchanged hu
  | @connected sid name hdone hnew hcap =>
    obtain ⟨hname, hother⟩ := hann sid name hdone hnew
    obtain ⟨htags, hcount, -⟩ := connect_eq hnew hcap name
    exact hn.add hname hother htags hcount
  | scanned hdone => exact hn.scanned (hreg _ hdone)

theorem Table.Named.logsSeparate {dir : Bytes} (hn : t.Named (LogName dir)) (hdir : dir ≠ [])
    (workingDirectory : List Bytes) : LogsSeparate workingDirectory dir t := by
  refine ⟨?_, ?_⟩
  · intro i hi
    obtain ⟨name, hname, hlog⟩ := hn.names i hi
    rw [hname]
    exact ⟨name ++ ascii ".txt", hlog.resolve hdir workingDirectory⟩
  · intro i j hi hj heq
    obtain ⟨name, hname, hlog⟩ := hn.names i hi
    obtain ⟨name', hname', hlog'⟩ := hn.names j hj
    rw [hname, hname', Option.getD_some, Option.getD_some, hlog.resolve hdir, hlog'.resolve hdir] at heq
    have hsame : name = name' := by simpa using heq
    exact hn.distinct i j hi hj (by rw [hname, hname', hsame])

end Named

theorem saveOutputOption_some {arg dir : Bytes} (harg : saveOutputOption arg = some dir) :
    dir ≠ [] ∧ dir.length ≤ 255 := by
  unfold saveOutputOption at harg
  split at harg
  · cases harg
  · rename_i hfit
    have hcut : (if arg.getLast? = some slash then arg.dropLast else arg).length ≤ arg.length := by
      split
      · rw [List.length_dropLast]
        omega
      · exact Nat.le_refl _
    generalize (if arg.getLast? = some slash then arg.dropLast else arg) = path at harg hcut
    by_cases hne : path = []
    · simp [hne] at harg
    · simp only [if_neg hne, Option.some.injEq] at harg
      subst harg
      simp only [maxPath] at hfit
      exact ⟨hne, by omega⟩

theorem initVirtiosoTags_named {dir : Bytes} (hdir : dir.length ≤ 255) : initVirtiosoTags.Named (LogName dir) := by
  have hname : ∀ name ∈ [rawCcplexPty, autopilotControlPty, physicalUartDefaultPty], LogName dir name := by
    intro name hmem
    have hshort : slash ∉ name ∧ name.length ≤ 100 := by
      revert name
      decide
    exact ⟨hshort.1, by omega⟩
  have hdistinct : ∀ i < 3, ∀ j < 3, (initVirtiosoTags.tags i).name = (initVirtiosoTags.tags j).name → i = j := by
    decide
  refine ⟨?_, fun i j hi hj => hdistinct i hi j hj⟩
  intro i hi
  have hcases : i = 0 ∨ i = 1 ∨ i = 2 := by
    have : i < 3 := hi
    omega
  rcases hcases with rfl | rfl | rfl
  · exact ⟨rawCcplexPty, rfl, hname _ (by simp)⟩
  · exact ⟨autopilotControlPty, rfl, hname _ (by simp)⟩
  · exact ⟨physicalUartDefaultPty, rfl, hname _ (by simp)⟩

/-- In every run whose records carry names without separators, new where the code does not check
that, every stream has its own log directly in the directory of `-s`. -/
theorem logs_separate {env : Env} {a dir : Bytes} (harg : saveOutputOption a = some dir)
    (hsave : env.saveOutputPath = some dir) {bytes : Bytes} (halong : Along env (NamesLogs env) (start env) bytes)
    (workingDirectory : List Bytes) :
    LogsSeparate workingDirectory dir (ttyInputHandler env (start env) bytes).1.table := by
  obtain ⟨hdir, hlen⟩ := saveOutputOption_some harg
  have hnamed : (ttyInputHandler env (start env) bytes).1.table.Named (LogName dir) := by
    refine handler_invariant (I := fun h => h.table.Named (LogName dir)) ?_ ?_ ?_ halong
    · intro h hn
      exact hn
    · intro h ch hn hok
      refine hn.change (receive_table env h ch) ?_ ?_
      · intro sid name hdone hnew
        obtain ⟨hslash, hother⟩ := hok.1 (sid, name) hdone hnew
        have hcut : (cString (name.take 255)).length ≤ 255 :=
          (List.takeWhile_sublist _).length_le.trans (List.length_take_le 255 name)
        exact ⟨⟨hslash, by omega⟩, hother⟩
      · intro es hdone e he hpos
        exact hok.2 es hdone dir hsave (some e) he e rfl hpos
    · obtain ⟨pd, out, heq, -⟩ := start_state env
      rw [heq]
      exact initVirtiosoTags_named hlen
  exact hnamed.logsSeparate hdir workingDirectory

/-- Two streams are announced under different names. -/
theorem logs_separate_announced :
    LogsSeparate [] (ascii "logs") (ttyInputHandler quietEnv (start quietEnv)
      [0xfe, 0xfd, 0x01, 0x00, 0x02, 0x01, 0x78, 0xfe, 0xfd, 0x01, 0x00, 0x02, 0x02, 0x79]).1.table :=
  logs_separate (a := ascii "logs/") (by decide) rfl (by decide) []

/-- A client that calls itself `raw_ccplex` shares the log of the raw carrier. -/
theorem raw_ccplex_log_shared :
    ¬ LogsSeparate [] (ascii "logs") (ttyInputHandler quietEnv (start quietEnv)
      ([0xfe, 0xfd, 0x01, 0x00, 0x0b, 0x01] ++ rawCcplexPty)).1.table := by
  intro hsep
  exact absurd (hsep.distinct 0 3 (by decide) (by decide) (by decide)) (by decide)

end VirtiosoMux.Host
