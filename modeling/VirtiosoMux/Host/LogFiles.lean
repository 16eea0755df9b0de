import VirtiosoMux.Library.Files
import VirtiosoMux.Host.Accesses

/-! # The log files

The log of a slot is opened for appending under the name of its stream, so slots whose names
lead to one path write to one file. The recorded calls act on the files here. In every run, the
file of a slot is what the slot has logged exactly if no other slot has logged to that path.
-/
namespace VirtiosoMux.Host
open Recorded Files

/-- The file that the log of a name is, from a working directory. -/
def logPath (workingDirectory : List Bytes) (dir name : Bytes) : List Bytes :=
  Paths.resolve slash dot workingDirectory (savefile dir name)

abbrev LogWorld := World Nat (List Bytes) Byte

/-- A call on a log, with the index of the slot for its descriptor. -/
def logCall (workingDirectory : List Bytes) (w : LogWorld) : Event → LogWorld
  | .openLog i path => w.opened i (path.map (Paths.resolve slash dot workingDirectory))
  | .writeLog i bytes => w.appended i bytes
  | _ => w

/-- The files after a run into an empty directory. -/
def logWorld (workingDirectory : List Bytes) (env : Env) (bytes : Bytes) : LogWorld :=
  (events (Traced.run env bytes)).foldl (logCall workingDirectory) World.empty

def logFile (workingDirectory : List Bytes) (env : Env) (bytes : Bytes) (path : List Bytes) : Bytes :=
  (logWorld workingDirectory env bytes).content path

def Table.entryLog (workingDirectory : List Bytes) (dir : Bytes) (t : Table) (i : Nat) : List Bytes :=
  logPath workingDirectory dir (((t.tags i).name).getD [])

def Table.LogsApart (workingDirectory : List Bytes) (dir : Bytes) (t : Table) : Prop :=
  ∀ i < t.numProc, ∀ j < t.numProc, t.entryLog workingDirectory dir i = t.entryLog workingDirectory dir j → i = j

instance (workingDirectory : List Bytes) (dir : Bytes) (t : Table) : Decidable (t.LogsApart workingDirectory dir) :=
  inferInstanceAs (Decidable (∀ i < t.numProc, ∀ j < t.numProc, _))

/-- The built-in entries have the same logs in every table that goes on from them. -/
theorem Table.Extends.logsApart {workingDirectory : List Bytes} {dir : Bytes} {t u : Table}
    (hextends : initVirtiosoTags.Extends t) (hapart : t.LogsApart workingDirectory dir) (hu : u = t ∨ u = initVirtiosoTags) :
    u.LogsApart workingDirectory dir ∧ ∀ i < u.numProc, u.entryLog workingDirectory dir i = t.entryLog workingDirectory dir i := by
  rcases hu with rfl | rfl
  · exact ⟨hapart, fun _ _ => rfl⟩
  · have hnames : ∀ i < initVirtiosoTags.numProc,
        initVirtiosoTags.entryLog workingDirectory dir i = t.entryLog workingDirectory dir i := by
      intro i hi
      rw [Table.entryLog, Table.entryLog, hextends.tags i hi]
    refine ⟨?_, hnames⟩
    intro i hi j hj hsame
    rw [hnames i hi, hnames j hj] at hsame
    exact hapart i (Nat.lt_of_lt_of_le hi hextends.numProc) j (Nat.lt_of_lt_of_le hj hextends.numProc) hsame

def slotPath (workingDirectory : List Bytes) (dir : Bytes) (h : State) (i : Nat) : Option (List Bytes) :=
  if (h.ptyData i).logFd then some (h.table.entryLog workingDirectory dir i) else none

/-- The slots below `n` are open on their paths, each slot's output is its log, and only slots
below `m` have written. -/
structure Filed (m n : Nat) (path : Nat → Option (List Bytes)) (log : Nat → Bytes) (w : LogWorld) : Prop where
  owned : w.Owned
  output : ∀ i, w.output i = log i
  used : ∀ p, ∀ x ∈ w.file p, x.1 < m
  path : ∀ i < n, w.path i = path i

section Filed
variable {m n i : Nat} {path path' : Nat → Option (List Bytes)} {log : Nat → Bytes} {w : LogWorld}

theorem Filed.empty (path : Nat → Option (List Bytes)) : Filed 0 0 path (fun _ => []) World.empty :=
  ⟨World.owned_empty, fun _ => rfl, fun _ _ hx => absurd hx List.not_mem_nil, fun i hi => absurd hi (Nat.not_lt_zero i)⟩

theorem Filed.congr (hf : Filed m n path log w) (hpath : ∀ i < n, path' i = path i) : Filed m n path' log w :=
  ⟨hf.owned, hf.output, hf.used, fun i hi => (hf.path i hi).trans (hpath i hi).symm⟩

theorem Filed.mono (hf : Filed m n path log w) {m' n' : Nat} (hm : m ≤ m') (hn : n' ≤ n) : Filed m' n' path log w :=
  ⟨hf.owned, hf.output, fun p x hx => Nat.lt_of_lt_of_le (hf.used p x hx) hm, fun i hi => hf.path i (by omega)⟩

theorem Filed.unused (hf : Filed m n path log w) (hi : m ≤ i) (p : List Bytes) : ∀ x ∈ w.file p, x.1 ≠ i := by
  intro x hx
  have := hf.used p x hx
  omega

/-- The log of the next slot is opened. -/
theorem Filed.opens (hf : Filed m i path log w) (hi : m ≤ i) (q : Option (List Bytes)) :
    Filed m (i + 1) (Function.update path i q) (Function.update log i []) (w.opened i q) := by
  have hnew := fun p => hf.unused hi p
  refine ⟨hf.owned.opened hnew q, ?_, hf.used, ?_⟩
  · intro j
    by_cases hj : j = i
    · subst hj
      rw [World.output_opened_self hnew, Function.update_self]
    · rw [World.output_opened_of_ne hj, hf.output, Function.update_of_ne hj]
  · intro j hj
    by_cases hji : j = i
    · subst hji
      exact (Function.update_self j q w.path).trans (Function.update_self j q path).symm
    · rw [Function.update_of_ne hji, ← hf.path j (by omega)]
      exact Function.update_of_ne hji q w.path

theorem Filed.writes (hf : Filed m n path log w) (hm : i < m) (hn : i < n) {p : List Bytes} (hp : path i = some p)
    (data : Bytes) : Filed m n path (Function.update log i (log i ++ data)) (w.appended i data) := by
  have hopen : w.path i = some p := (hf.path i hn).trans hp
  refine ⟨hf.owned.appended data, ?_, ?_, ?_⟩
  · intro j
    by_cases hj : j = i
    · subst hj
      rw [World.output_appended_self hopen, Function.update_self, hf.output]
    · rw [World.output_appended_of_ne hj, Function.update_of_ne hj, hf.output]
  · intro q x hx
    simp only [World.appended, hopen] at hx
    by_cases hq : q = p
    · subst hq
      rw [Function.update_self] at hx
      rcases List.mem_append.mp hx with hx | hx
      · exact hf.used q x hx
      · obtain ⟨y, -, rfl⟩ := List.mem_map.mp hx
        exact hm
    · rw [Function.update_of_ne hq] at hx
      exact hf.used q x hx
  · intro j hj
    rw [World.appended_path]
    exact hf.path j hj

end Filed

/-! ### One function after the other -/

section Slot
variable {wd : List Bytes} {env : Env} {dir : Bytes} {h : State} {i m n : Nat}

theorem log_setPty (p : ThreadData) : (h.setPty i p).log = Function.update h.log i p.log := by
  funext j
  by_cases hj : j = i
  · subst hj
    simp [State.log, State.setPty]
  · simp [State.log, State.setPty, hj]

theorem slotPath_setPty {p : ThreadData} (hfd : p.logFd = (h.ptyData i).logFd) :
    slotPath wd dir (h.setPty i p) = slotPath wd dir h := by
  funext j
  by_cases hj : j = i
  · subst hj
    simp [slotPath, State.setPty, hfd]
  · simp [slotPath, State.setPty, hj]

/-- A slot is stored with a longer log, under its path. -/
theorem filed_setPty {p : ThreadData} (hfd : p.logFd = (h.ptyData i).logFd) {w : LogWorld}
    (hw : Filed m n (slotPath wd dir h) (Function.update h.log i p.log) w) :
    Filed m n (slotPath wd dir (h.setPty i p)) (h.setPty i p).log w := by
  rw [slotPath_setPty hfd, log_setPty]
  exact hw

abbrev WritesFiled (wd : List Bytes) (dir : Bytes) (m n : Nat) (r : State × Int) : LogWorld → Prop :=
  Filed m n (slotPath wd dir r.1) r.1.log

namespace Traced

theorem toMaster_files (io : FlushIo) (ch : Byte) {pty : ThreadData} (hfd : pty.logFd = (h.ptyData i).logFd)
    {log : Nat → Bytes} (hlog : log = Function.update h.log i pty.log) :
    Leads (logCall wd) (Filed m n (slotPath wd dir h) log) (toMaster io h i pty ch) (WritesFiled wd dir m n) := by
  subst hlog
  unfold toMaster
  refine .bind (.quiet (.record fun _ => rfl)) ?_
  cases io.pty with
  | ok =>
    refine .bind (.quiet (.writeAt (fun _ => rfl) _ _)) (.pure fun w hw => ?_)
    exact filed_setPty (p := { pty with written := pty.written ++ [ch] }) hfd hw
  | again => exact .bind (.quiet (.writeAt (fun _ => rfl) _ _)) (.pure fun w hw => filed_setPty hfd hw)
  | error => exact .bind (.quiet (.writeAt (fun _ => rfl) _ _)) (.pure fun w hw => filed_setPty hfd hw)

section Write
variable (hm : i < m) (hn : i < n) (ch : Byte)
include hm hn

theorem flushStream_files (io : FlushIo) : Leads (logCall wd) (Filed m n (slotPath wd dir h) h.log)
    (flushStream env io h i ch) (WritesFiled wd dir m n) := by
  unfold flushStream
  refine .bind (.quiet (.readAt (fun _ => rfl) _)) (.ite (fun hopen => ?_) (fun _ => ?_))
  · have hpath : slotPath wd dir h i = some (logPath wd dir (((h.table.tags i).name).getD [])) := if_pos hopen.2
    have hwrite : ∀ (log : Nat → Bytes) data, Leads (logCall wd) (Filed m n (slotPath wd dir h) log)
        (record (.writeLog i data)) (fun _ => Filed m n (slotPath wd dir h) (Function.update log i (log i ++ data))) :=
      fun log data => .record (fun w hw => hw.writes hm hn hpath data)
    refine .ite (fun _ => .pure fun w hw => hw) (fun _ => ?_)
    refine .bind (hwrite _ _) (.ite (fun _ => ?_) (fun _ => ?_))
    · refine .bind (hwrite _ _) ?_
      refine toMaster_files io ch ?_ ?_
      · rfl
      · rw [Function.update_self, Function.update_idem]
        rfl
    · refine .bind (.quiet (.writeAt (fun _ => rfl) _ _)) (.pure fun w hw => ?_)
      refine filed_setPty ?_ hw
      rfl
  · exact toMaster_files io ch rfl (Function.update_eq_self i h.log).symm

omit hm hn in
theorem setSeen_files (g : State) (k : Nat) (n' r' : Bool) : Leads (logCall wd) (Filed m n (slotPath wd dir g) g.log)
    (setSeen g k n' r') (fun g => Filed m n (slotPath wd dir g) g.log) := by
  refine .bind (.quiet (.writeAt (fun _ => rfl) _ _)) (.bind (.quiet (.writeAt (fun _ => rfl) _ _)) (.pure ?_))
  exact fun w hw => hw

theorem patched_files : Leads (logCall wd) (Filed m n (slotPath wd dir h) h.log)
    (patched env h i ch) (fun g => Filed m n (slotPath wd dir g) g.log) := by
  unfold patched
  refine .bind (.quiet (.readAt (fun _ => rfl) _)) (.bind (.quiet (.readAt (fun _ => rfl) _)) ?_)
  refine .ite (fun _ => setSeen_files _ _ _ _) (fun _ => .ite (fun _ => setSeen_files _ _ _ _) (fun _ => ?_))
  refine .ite (fun _ => ?_) (fun _ => .ite (fun _ => ?_) (fun _ => .pure fun w hw => hw))
  · exact .bind (flushStream_files hm hn _ _) (setSeen_files _ _ _ _)
  · exact .bind (flushStream_files hm hn _ _) (setSeen_files _ _ _ _)

/-- A write keeps the table, so slots keep their paths for the next one. -/
theorem patch2flushStream_files : Leads (logCall wd) (Filed m n (slotPath wd dir h) h.log)
    (patch2flushStream env h i ch) (WritesFiled wd dir m n) := by
  unfold patch2flushStream
  refine .bind (.quiet (.record fun _ => rfl)) (.bind (.quiet (.record fun _ => rfl)) (.bind (.quiet (.record fun _ => rfl)) ?_))
  refine .ite (fun _ => flushStream_files hm hn ch _) (fun _ => ?_)
  refine .bind (patched_files hm hn ch) (.bind (flushStream_files hm hn ch _) (.ite (fun _ => .pure fun w hw => hw) (fun _ => ?_)))
  refine .bind (.quiet (.readAt (fun _ => rfl) _)) (.bind (.quiet (.readAt (fun _ => rfl) _)) ?_)
  exact .ite (fun _ => .bind (setSeen_files _ _ _ _) (.pure fun w hw => hw)) (fun _ => .pure fun w hw => hw)

end Write

end Traced

end Slot

def State.Filed (workingDirectory : List Bytes) (dir : Bytes) (h : State) : LogWorld → Prop :=
  Host.Filed h.table.numProc h.table.numProc (slotPath workingDirectory dir h) h.log

theorem createPtyAtIndex_table (env : Env) (h : State) (i : Nat) (name : Bytes) (startThread : Bool) :
    (createPtyAtIndex env h i name startThread).1.table = h.table := by
  obtain ⟨p, out, ok, heq, -⟩ := createPtyAtIndex_slot env h i name startThread
  rw [heq]
  rfl

/-- `main` goes on once the built-in PTYs are open. -/
def Env.OpensBuiltins (env : Env) : Prop := ∀ i < 3, ((env.io 0).pty i).master = true ∧ ((env.io 0).pty i).slave = true

theorem Env.Healthy.opensBuiltins {env : Env} (he : env.Healthy) : env.OpensBuiltins := fun i _ => ⟨he.master 0 i, he.slave 0 i⟩

namespace Traced

/-- Lookups in the stream table leave the files alone. -/
theorem lookups_files {α : Type} {m : Recording Event α} (hm : Each Event.Lookup m) (wd : List Bytes) {P : LogWorld → Prop} :
    Leads (logCall wd) P m (fun _ => P) := by
  refine .quiet (hm.imp fun e he => ?_)
  cases e with
  | openLog => exact he.elim
  | writeLog => exact he.elim
  | _ => exact fun _ => rfl

section Open
variable {wd : List Bytes} {env : Env} {dir : Bytes} (hsave : env.saveOutputPath = some dir) {h : State} {i m n : Nat}
include hsave

/-- A slot behind those that have written is opened under its name, or not at all. -/
theorem createPtyAtIndex_files (hm : m ≤ i) {name : Bytes} (hname : ((h.table.tags i).name).getD [] = name)
    (startThread : Bool) : Leads (logCall wd) (Filed m i (slotPath wd dir h) h.log)
    (createPtyAtIndex env h i name startThread)
    (fun r => Filed m (if r.2 then i + 1 else i) (slotPath wd dir r.1) r.1.log) := by
  let slot : ThreadData :=
    { logFd := env.saveOutputPath.isSome && ((env.now h).pty i).logOpen, deviceName := ((env.now h).pty i).deviceName,
      lastCh := 0, log := [], written := [] }
  let path : Option (List Bytes) :=
    (openedLog env ((env.now h).pty i).logOpen name).map (Paths.resolve slash dot wd)
  have hslot : slotPath wd dir (h.setPty i slot) = Function.update (slotPath wd dir h) i path := by
    funext j
    by_cases hj : j = i
    · subst hj
      cases hopen : ((env.now h).pty j).logOpen <;>
        simp [slotPath, Table.entryLog, State.setPty, slot, path, openedLog, hsave, hname, hopen, logPath]
    · simp [slotPath, State.setPty, hj]
  have hopened : Leads (logCall wd) (Filed m i (slotPath wd dir h) h.log)
      (record (.openLog i (openedLog env ((env.now h).pty i).logOpen name)))
      (fun _ => Filed m (i + 1) (slotPath wd dir (h.setPty i slot)) (h.setPty i slot).log) := by
    refine .record fun w hw => ?_
    rw [hslot, log_setPty]
    exact hw.opens hm path
  unfold createPtyAtIndex
  refine .ite (fun _ => .pure fun w hw => hw) (fun _ => ?_)
  refine .bind (.quiet (.record fun _ => rfl)) (.ite (fun _ => .pure fun w hw => hw) (fun _ => ?_))
  refine .bind hopened (.bind (.quiet (.writeAt (fun _ => rfl) _ _)) (.ite (fun _ => ?_) (fun _ => ?_)))
  · exact .pure fun w hw => hw.mono (Nat.le_refl m) (Nat.le_succ i)
  · refine .bind (.quiet (.bind (.readAt (fun _ => rfl) _) (.bind (.readAt (fun _ => rfl) _) (.pure _)))) (.ite (fun _ => ?_) (fun _ => ?_))
    · exact .pure fun w hw => hw.mono (Nat.le_refl m) (Nat.le_succ i)
    · exact .pure fun w hw => hw

theorem createRegistryPtys_files {remaining : Nat} (hm : m ≤ i) :
    Leads (logCall wd) (Filed m i (slotPath wd dir h) h.log) (createRegistryPtys env remaining i h)
      (fun r => Filed m (if r.2 then i + remaining else m) (slotPath wd dir r.1) r.1.log) := by
  induction remaining generalizing i h with
  | zero => exact .pure fun w hw => hw
  | succ remaining ih =>
    refine .bind (.quiet (.readAt (fun _ => rfl) _)) (.bind (.quiet (.readAt (fun _ => rfl) _)) ?_)
    refine .bind (createPtyAtIndex_files hsave hm rfl _) (.ite (fun hok => ?_) (fun hno => ?_))
    · intro w hw
      have hsum : i + 1 + remaining = i + (remaining + 1) := by omega
      rw [if_pos hok] at hw
      rw [← hsum]
      exact ih (Nat.le_succ_of_le hm) w hw
    · refine .pure fun w hw => ?_
      rw [if_neg hno] at hw
      exact hw.mono (Nat.le_refl m) hm

end Open

/-! ### Records -/

section Records
variable {wd : List Bytes} {env : Env} {dir : Bytes} (hsave : env.saveOutputPath = some dir) {h : State}
  (hcap : h.table.numProc ≤ virtiosoMaxPtyCount)

/-- The slots from `b` on are given up, and the others keep their names. -/
theorem filed_restored {g g' : State} {b : Nat} {w : LogWorld} (hw : Filed b b (slotPath wd dir g) g.log w)
    (hp : g'.ptyData = g.ptyData) (hn : g'.table.numProc = b) (htags : ∀ i < b, g'.table.tags i = g.table.tags i) :
    g'.Filed wd dir w := by
  have hlog : g'.log = g.log := by
    funext i
    simp only [State.log, hp]
  have hpath : ∀ i < b, slotPath wd dir g' i = slotPath wd dir g i := by
    intro i hi
    simp only [slotPath, Table.entryLog, hp, htags i hi]
  rw [State.Filed, hn, hlog]
  exact hw.congr hpath

theorem filed_rejected {g : State} {b c : Nat} {w : LogWorld} (hw : Filed b b (slotPath wd dir g) g.log w) :
    (Host.rejectRegistry g b c).Filed wd dir w := by
  refine filed_restored hw rfl rfl ?_
  intro i hi
  exact if_neg (by omega)

include hsave hcap

theorem applyVirtiosoRegistryJson_files (json : Bytes) : Leads (logCall wd) (h.Filed wd dir)
    (applyVirtiosoRegistryJson env h json) (fun r => r.1.Filed wd dir) := by
  unfold applyVirtiosoRegistryJson
  dsimp only
  split
  · exact .pure fun w hw => hw
  · rename_i entries _
    refine .bind (lookups_files (addEntries_lookup hcap entries) wd) ?_
    rw [value_addEntries]
    have hgrow := addEntries_count ⟨h.table.tags, h.table.inputEnabled, h.table.numProc⟩ entries
    have hcount := scan_count_le h.table hcap entries
    have htags : ∀ i < h.table.numProc, (h.table.scan entries).1.tags i = h.table.tags i := fun i hi => scan_tags _ _ hi
    rw [Table.scan] at hcount htags
    generalize RegistryScan.addEntries ⟨h.table.tags, h.table.inputEnabled, h.table.numProc⟩ entries = res at hgrow hcount htags
    obtain ⟨s, ok⟩ := res
    dsimp only at hgrow hcount htags
    have hpath : ∀ i < h.table.numProc, slotPath wd dir { h with table := { h.table with
        tags := s.tags, inputEnabled := s.inputEnabled, numProc := s.count, defaultTagIdx := 0 } } i = slotPath wd dir h i := by
      intro i hi
      simp only [slotPath, Table.entryLog, htags i hi]
    refine .ite (fun _ => ?_) (fun _ => ?_)
    · refine .bind (lookups_files (rejectRegistry_lookup hgrow hcount) wd) ?_
      rw [value_rejectRegistry]
      exact .pure fun w hw => filed_rejected (hw.congr hpath)
    · refine .bind (.pre ?_ (createRegistryPtys_files hsave (Nat.le_refl _))) ?_
      · exact fun w hw => hw.congr hpath
      rw [value_createRegistryPtys]
      obtain ⟨pd, out, k, created, heq, -⟩ := createRegistryPtys_slots env (s.count - h.table.numProc) h.table.numProc
        { h with table := { h.table with
          tags := s.tags, inputEnabled := s.inputEnabled, numProc := s.count, defaultTagIdx := 0 } }
      rw [heq]
      refine .ite (fun hok => .pure fun w hw => ?_) (fun hno => ?_)
      · have hsum : h.table.numProc + (s.count - h.table.numProc) = s.count := by omega
        rw [if_pos hok, hsum] at hw
        exact hw.mono hgrow (Nat.le_refl _)
      · refine .bind (lookups_files (rejectRegistry_lookup hgrow hcount) wd) ?_
        rw [value_rejectRegistry]
        refine .pure fun w hw => ?_
        rw [if_neg hno] at hw
        exact filed_rejected hw

theorem applyVirtiosoStreamConnected_files (streamId : Byte) (name : Bytes) : Leads (logCall wd) (h.Filed wd dir)
    (applyVirtiosoStreamConnected env h streamId name) (fun g => g.Filed wd dir) := by
  unfold applyVirtiosoStreamConnected
  refine .bind (lookups_files (find_lookup hcap streamId) wd) (.ite (fun _ => .pure fun w hw => hw) (fun _ => ?_))
  refine .ite (fun _ => .pure fun w hw => hw) (fun hroom => .ite (fun _ => .pure fun w hw => hw) (fun _ => ?_))
  have hlt : h.table.numProc < virtiosoMaxPtyCount := Nat.lt_of_not_le hroom
  refine .bind (lookups_files (writeAt_tag hlt _ _) wd) (.bind (lookups_files (writeAt_inputEnabled hlt _ _) wd) ?_)
  let g : State := { h with table := { h.table with
    tags := Function.update h.table.tags h.table.numProc ⟨some (cString (name.take 255)), streamId⟩
    inputEnabled := Function.update h.table.inputEnabled h.table.numProc false
    numProc := h.table.numProc + 1
    ptyMaxCount := h.table.numProc + 1 } }
  have hpath : ∀ i < h.table.numProc, slotPath wd dir g i = slotPath wd dir h i := by
    intro i hi
    simp only [slotPath, Table.entryLog, g, Function.update_of_ne (Nat.ne_of_lt hi)]
  have hname : ((g.table.tags h.table.numProc).name).getD [] = cString (name.take 255) := by
    simp [g]
  refine .bind (.pre ?_ (createPtyAtIndex_files (h := g) hsave (Nat.le_refl _) hname false)) ?_
  · exact fun w hw => hw.congr hpath
  have htable : (value (createPtyAtIndex env g h.table.numProc (cString (name.take 255)) false)).1.table = g.table := by
    rw [value_createPtyAtIndex, createPtyAtIndex_table]
  refine .ite (fun hok => .pure fun w hw => ?_) (fun hno => ?_)
  · rw [if_pos hok] at hw
    change Filed (value (createPtyAtIndex env g _ _ _)).1.table.numProc (value (createPtyAtIndex env g _ _ _)).1.table.numProc _ _ w
    rw [htable]
    exact hw.mono (Nat.le_succ _) (Nat.le_refl _)
  · refine .bind (lookups_files (writeAt_tag hlt _ _) wd) (.pure fun w hw => ?_)
    rw [if_neg hno] at hw
    refine filed_restored hw rfl rfl ?_
    intro i hi
    exact Function.update_of_ne (Nat.ne_of_lt hi) _ _

theorem finishRegistry_files : Leads (logCall wd) (h.Filed wd dir) (finishRegistry env h) (fun r => r.1.Filed wd dir) := by
  unfold finishRegistry
  split
  · exact .pure fun w hw => hw
  · refine .bind (.pre ?_ (applyVirtiosoRegistryJson_files hsave ?_ _)) ?_
    · exact fun w hw => hw
    · exact hcap
    · exact .ite (fun _ => .pure fun w hw => hw) (fun _ => .pure fun w hw => hw)

theorem finishAnnounce_files : Leads (logCall wd) (h.Filed wd dir) (finishAnnounce env h) (fun g => g.Filed wd dir) := by
  unfold finishAnnounce
  split
  · refine .ite (fun _ => ?_) (fun _ => .pure fun w hw => hw)
    exact .bind (applyVirtiosoStreamConnected_files hsave hcap _ _) (.pure fun w hw => hw)
  · exact .pure fun w hw => hw

end Records

/-! ### Every run -/

section Run
variable {wd : List Bytes} {env : Env} {dir : Bytes} (hsave : env.saveOutputPath = some dir) {h : State}

/-- A write to a slot in use. -/
theorem write_files {i : Nat} (hi : i < h.table.numProc) (ch : Byte) : Leads (logCall wd) (h.Filed wd dir)
    (patch2flushStream env h i ch) (fun r => r.1.Filed wd dir) := by
  refine (patch2flushStream_files hi hi ch).imp fun w hw => ?_
  rw [value_patch2flushStream] at hw ⊢
  obtain ⟨p, n, r, ret, heq⟩ := patch2flushStream_slot env h i ch
  rw [heq] at hw ⊢
  exact hw

omit hsave in
theorem controlLenLo_filed {calloc : Bool} {ch : Byte} {payload : ControlState} {w : LogWorld} (hw : h.Filed wd dir w) :
    (controlLenLo calloc h ch payload).Filed wd dir w := by
  unfold controlLenLo
  dsimp only
  split
  · exact hw
  split <;> exact hw

section Byte
variable (hs : h.Sound)
include hsave hs

theorem feedVirtiosoByte_files (ch : Byte) : Leads (logCall wd) (h.Filed wd dir) (feedVirtiosoByte env h ch)
    (fun r => r.1.Filed wd dir) := by
  have hcap := hs.capacity
  have hdefault : virtiosoDefaultPtyIdx < h.table.numProc := by
    have := hs.slots.builtin
    simp only [virtiosoDefaultPtyIdx]
    omega
  have hcurrent : ∀ i, h.parser.curRxStream = some i → i < h.table.numProc := fun i hcur => (hs.current i hcur).2
  unfold feedVirtiosoByte
  split
  · unfold controlCmd
    refine .pure fun w hw => ?_
    split
    · exact hw
    split
    · exact hw
    split <;> exact hw
  · exact .pure fun w hw => hw
  · refine .pure fun w hw => ?_
    exact controlLenLo_filed hw
  · refine .ite (fun _ => ?_) (fun _ => .pure fun w hw => hw)
    exact finishRegistry_files (h := storePayload h ch) hsave hcap
  · exact .pure fun w hw => hw
  · exact .pure fun w hw => controlLenLo_filed hw
  · refine .ite (fun _ => ?_) (fun _ => .pure fun w hw => hw)
    exact .bind (finishAnnounce_files (h := storePayload h ch) hsave hcap) (.pure fun w hw => hw)
  · refine .ite (fun _ => ?_) (fun _ => .ite (fun _ => .pure fun w hw => hw) (fun _ => ?_))
    · refine .ite (fun _ => .pure fun w hw => hw) (fun _ => .ite (fun _ => ?_) (fun _ => .ite (fun _ => .pure fun w hw => hw) (fun _ => ?_)))
      · split
        · rename_i i hcur
          exact write_files (h := h.setEscape false) (hcurrent i hcur) ch
        · exact .pure fun w hw => hw
      · exact .bind (lookups_files (find_lookup hcap ch) wd) (.pure fun w hw => hw)
    · split
      · exact .ite (fun _ => write_files hdefault ch) (fun _ => .pure fun w hw => hw)
      · rename_i i hcur
        exact write_files (hcurrent i hcur) ch

theorem feedCarrier_files (ch : Byte) : Leads (logCall wd) (h.Filed wd dir) (feedCarrier env h ch)
    (fun r => r.1.Filed wd dir) := by
  have hraw : rawCcplexPtyIdx < h.table.numProc := by
    have := hs.slots.builtin
    simp only [rawCcplexPtyIdx]
    omega
  unfold feedCarrier
  refine .ite (fun _ => .bind (write_files hraw ch) (.ite (fun _ => .pure fun w hw => hw) (fun _ => ?_))) (fun _ => ?_)
  · rw [value_patch2flushStream]
    obtain ⟨p, n, r, ret, heq⟩ := patch2flushStream_slot env h rawCcplexPtyIdx ch
    rw [heq]
    exact feedVirtiosoByte_files hsave (hs.copy p n r h.parser.outerInEscape) ch
  · exact feedVirtiosoByte_files hsave hs ch

theorem feed_files (ch : Byte) : Leads (logCall wd) (h.Filed wd dir) (feedNvidiaOuterOrVirtiosoRaw env h ch)
    (fun r => r.1.Filed wd dir) := by
  unfold feedNvidiaOuterOrVirtiosoRaw
  split
  · exact feedCarrier_files hsave hs ch
  · refine .ite (fun _ => ?_) (fun _ => .ite (fun _ => .pure fun w hw => hw) (fun _ => .ite (fun _ => ?_) (fun _ => .pure fun w hw => hw)))
    · refine .ite (fun _ => .ite (fun _ => ?_) (fun _ => .pure fun w hw => hw)) (fun _ => .ite (fun _ => .pure fun w hw => hw) (fun _ => ?_))
      · exact feedVirtiosoByte_files (h := h.setOuterEscape false) hsave
          ⟨hs.counts, hs.capacity, hs.slots, hs.current, hs.record, hs.autopilot⟩ _
      · split
        · exact .pure fun w hw => hw
        · exact .pure fun w hw => hw
    · exact feedCarrier_files hsave hs ch

/-- Up to a byte that is not received. -/
theorem ttyInputHandler_files (bytes : Bytes) : Leads (logCall wd) (h.Filed wd dir) (ttyInputHandler env h bytes)
    (fun r => r.1.Filed wd dir) := by
  induction bytes generalizing h with
  | nil => exact .pure fun w hw => hw
  | cons ch rest ih =>
    refine .bind (feed_files hsave hs ch) (.ite (fun _ => .pure fun w hw => hw) (fun hret => ?_))
    rw [value_feed] at hret ⊢
    exact ih (hs.receive (.inl (not_lt.mp hret))).tick

end Byte

end Run

section Start
variable {wd : List Bytes} {env : Env} {dir : Bytes} (hsave : env.saveOutputPath = some dir) (hopen : env.OpensBuiltins)
include hsave hopen

theorem builtin_files {h : State} {i : Nat} (hclock : h.clock = 0) (hi : i < 3) {name : Bytes}
    (hname : ((h.table.tags i).name).getD [] = name) : Leads (logCall wd) (Filed 0 i (slotPath wd dir h) h.log)
    (createPtyAtIndex env h i name false) (fun r => Filed 0 (i + 1) (slotPath wd dir r.1) r.1.log) := by
  obtain ⟨hmaster, hslave⟩ := hopen i hi
  have hcap : ¬ ptyCapacity ≤ i := by
    simp only [ptyCapacity, virtiosoMaxPtyCount]
    omega
  have hok : (value (createPtyAtIndex env h i name false)).2 = true := by
    rw [value_createPtyAtIndex]
    simp [Host.createPtyAtIndex, Env.now, hclock, hcap, hmaster, hslave]
  refine (createPtyAtIndex_files hsave (Nat.zero_le i) hname false).imp fun w hw => ?_
  rwa [if_pos hok] at hw

theorem start_files : Leads (logCall wd) (fun w => w = World.empty) (start env) (fun h => h.Filed wd dir) := by
  have hclock : ∀ h i name, h.clock = 0 → (value (createPtyAtIndex env h i name false)).1.clock = 0 := by
    intro h i name hzero
    obtain ⟨p, out, ok, heq, -⟩ := createPtyAtIndex_slot env h i name false
    rw [value_createPtyAtIndex, heq]
    exact hzero
  have htable : ∀ h i name, (value (createPtyAtIndex env h i name false)).1.table = h.table := by
    intro h i name
    rw [value_createPtyAtIndex, createPtyAtIndex_table]
  unfold start
  dsimp only
  refine .bind (.pre ?_ (builtin_files hsave hopen (i := 0) rfl (by decide) rfl)) ?_
  · rintro w rfl
    exact .empty _
  refine .bind (builtin_files hsave hopen (i := 1) (hclock _ _ _ rfl) (by decide) ?_) ?_
  · rw [htable]
    rfl
  refine .bind (builtin_files hsave hopen (i := 2) (hclock _ _ _ (hclock _ _ _ rfl)) (by decide) ?_) ?_
  · rw [htable, htable]
    rfl
  refine .pure fun w hw => ?_
  rw [State.Filed, htable, htable, htable]
  exact hw.mono (Nat.zero_le 3) (Nat.le_refl 3)

/-- After any bytes, also behind a byte that ends the thread. -/
theorem run_files (bytes : Bytes) :
    State.Filed wd dir (Host.ttyInputHandler env (Host.start env) bytes).1 (logWorld wd env bytes) := by
  have hrun : Leads (logCall wd) (fun w => w = World.empty) (run env bytes) (fun r => r.1.Filed wd dir) := by
    refine .bind (start_files hsave hopen) (ttyInputHandler_files hsave ?_ bytes)
    rw [value_start]
    exact start_sound env
  have hlast := hrun World.empty rfl
  rwa [value_run] at hlast

end Start

end Traced

section Exact
variable {wd : List Bytes} {env : Env} {dir : Bytes} (hsave : env.saveOutputPath = some dir) (hopen : env.OpensBuiltins)
  {h : State} {bytes : Bytes} {running : Bool} (hrun : ttyInputHandler env (start env) bytes = (h, running))
include hsave hopen hrun

theorem reached_files : h.Filed wd dir (logWorld wd env bytes) := by
  have hlast : State.Filed wd dir (ttyInputHandler env (start env) bytes).1 (logWorld wd env bytes) :=
    Traced.run_files hsave hopen bytes
  rwa [hrun] at hlast

/-- Nothing is written to the path of no slot. -/
theorem logFile_eq_nil {p : List Bytes} (hp : ∀ i < h.table.numProc, slotPath wd dir h i ≠ some p) :
    logFile wd env bytes p = [] := by
  have hf : h.Filed wd dir (logWorld wd env bytes) := reached_files hsave hopen hrun
  refine List.map_eq_nil_iff.mpr (List.eq_nil_iff_forall_not_mem.mpr fun x hx => ?_)
  have hlt := hf.used p x hx
  exact hp x.1 hlt ((hf.path x.1 hlt).symm.trans (hf.owned p x hx))

/-- The log file of a slot is what the slot has logged exactly if every other slot on the same
path has logged nothing. -/
theorem logFile_eq_iff {i : Nat} {p : List Bytes} (hi : i < h.table.numProc) (hp : slotPath wd dir h i = some p) :
    logFile wd env bytes p = h.log i ↔
      ∀ j < h.table.numProc, j ≠ i → slotPath wd dir h j = some p → h.log j = [] := by
  have hf : h.Filed wd dir (logWorld wd env bytes) := reached_files hsave hopen hrun
  have hpi : (logWorld wd env bytes).path i = some p := (hf.path i hi).trans hp
  rw [logFile, ← hf.output i, hf.owned.content_eq_iff hpi]
  constructor
  · intro hother j hj hne hpj
    rw [← hf.output j]
    exact hother j hne ((hf.path j hj).trans hpj)
  · intro hother j hne hpj
    by_cases hj : j < h.table.numProc
    · rw [hf.output j]
      exact hother j hj hne ((hf.path j hj).symm.trans hpj)
    · -- a slot that is not in use has written nothing
      simp only [World.output, hpj, List.map_eq_nil_iff, List.filter_eq_nil_iff]
      intro x hx
      have hused := hf.used p x hx
      rw [decide_eq_true_eq]
      omega

variable (hlogs : ∀ i < h.table.numProc, (h.ptyData i).logFd = true)
include hlogs

/-- Every file is the log of its slot exactly if slots on one path have logged nothing. -/
theorem logFiles_eq_iff :
    (∀ i < h.table.numProc, logFile wd env bytes (h.table.entryLog wd dir i) = h.log i) ↔
      ∀ i < h.table.numProc, ∀ j < h.table.numProc, j ≠ i →
        h.table.entryLog wd dir j = h.table.entryLog wd dir i → h.log j = [] := by
  have hpath : ∀ i < h.table.numProc, slotPath wd dir h i = some (h.table.entryLog wd dir i) :=
    fun i hi => if_pos (hlogs i hi)
  have hslot : ∀ i < h.table.numProc, logFile wd env bytes (h.table.entryLog wd dir i) = h.log i ↔
      ∀ j < h.table.numProc, j ≠ i → h.table.entryLog wd dir j = h.table.entryLog wd dir i → h.log j = [] := by
    intro i hi
    rw [logFile_eq_iff hsave hopen hrun hi (hpath i hi)]
    constructor
    · intro hother j hj hne hsame
      exact hother j hj hne (by rw [hpath j hj, hsame])
    · intro hother j hj hne hsame
      exact hother j hj hne (Option.some.inj ((hpath j hj).symm.trans hsame))
  constructor
  · intro hall i hi
    exact (hslot i hi).mp (hall i hi)
  · intro hall i hi
    exact (hslot i hi).mpr (hall i hi)

theorem logFile_of_apart (hapart : h.table.LogsApart wd dir) {i : Nat} (hi : i < h.table.numProc) :
    logFile wd env bytes (h.table.entryLog wd dir i) = h.log i := by
  refine (logFiles_eq_iff hsave hopen hrun hlogs).mpr ?_ i hi
  intro i hi j hj hne hsame
  exact absurd (hapart j hj i hi hsame) hne

end Exact

end VirtiosoMux.Host
