import VirtiosoMux.Host.Carrier
import VirtiosoMux.Host.Traced

/-! # Indices into the tables of the host

`tags`, `pty_data`, `seen_n` and `seen_r` have `VIRTIOSO_MAX_PTY_COUNT` entries. Every access that
the functions of the receiving path record is below that bound in every reachable state, and no
recorded call writes to `autopilot_control`.
-/
namespace VirtiosoMux.Host
open Recorded

def Event.written : Event → Option Nat
  | .writeLog i _ | .writePty i _ => some i
  | _ => none

/-- The access is in bounds, and it is no write to `autopilot_control`. -/
structure Event.Safe (e : Event) : Prop where
  bounded : e.index < virtiosoMaxPtyCount
  autopilot : e.written ≠ some autopilotControlPtyIdx

def Event.Lookup : Event → Prop
  | .tag i | .inputEnabled i => i < virtiosoMaxPtyCount
  | _ => False

theorem Event.Lookup.safe {e : Event} (he : e.Lookup) : e.Safe := by
  cases e with
  | tag i => exact ⟨he, by simp [Event.written]⟩
  | inputEnabled i => exact ⟨he, by simp [Event.written]⟩
  | _ => exact he.elim

namespace Traced

theorem readAt_tag {i : Nat} (hi : i < virtiosoMaxPtyCount) (tags : Nat → Tag) : Each Event.Lookup (readAt .tag tags i) :=
  .readAt hi tags

theorem writeAt_tag {i : Nat} (hi : i < virtiosoMaxPtyCount) (tags : Nat → Tag) (tag : Tag) :
    Each Event.Lookup (writeAt .tag tags i tag) :=
  .writeAt hi tags tag

theorem writeAt_inputEnabled {i : Nat} (hi : i < virtiosoMaxPtyCount) (flags : Nat → Bool) (flag : Bool) :
    Each Event.Lookup (writeAt .inputEnabled flags i flag) :=
  .writeAt hi flags flag

/-! ### The slots -/

section Slot
variable {env : Env} {h : State} {i : Nat}

/-- An access without a write needs a bounded index only. -/
theorem safe_access {e : Event} (hi : e.index < virtiosoMaxPtyCount) (hw : e.written = none) : e.Safe :=
  ⟨hi, by rw [hw]; simp⟩

def ArraySite (site : Nat → Event) : Prop := ∀ i, (site i).index = i ∧ (site i).written = none

theorem readAt_safe {site : Nat → Event} {α : Type} (hi : i < virtiosoMaxPtyCount) (array : Nat → α)
    (hsite : ArraySite site := by exact fun _ => ⟨rfl, rfl⟩) : Each Event.Safe (readAt site array i) :=
  .readAt (safe_access ((hsite i).1.trans_lt hi) (hsite i).2) array

theorem writeAt_safe {site : Nat → Event} {α : Type} (hi : i < virtiosoMaxPtyCount) (array : Nat → α) (x : α)
    (hsite : ArraySite site := by exact fun _ => ⟨rfl, rfl⟩) : Each Event.Safe (writeAt site array i x) :=
  .writeAt (safe_access ((hsite i).1.trans_lt hi) (hsite i).2) array x

theorem createPtyAtIndex_safe (name : Bytes) (startThread : Bool) :
    Each Event.Safe (createPtyAtIndex env h i name startThread) := by
  unfold createPtyAtIndex
  split
  · exact .pure _
  · rename_i hcap
    have hi : i < virtiosoMaxPtyCount := Nat.lt_of_not_le hcap
    have hrecord : ∀ g : State, Each Event.Safe (emitPtySessionRecord env g i name) := fun g =>
      .bind (readAt_safe hi _) (.bind (readAt_safe hi _) (.pure _))
    refine .bind (.record (safe_access hi rfl)) ?_
    split
    · exact .pure _
    · refine .bind (.record (safe_access hi rfl)) (.bind (writeAt_safe hi _ _) ?_)
      split
      · exact .pure _
      · refine .bind (hrecord _) ?_
        split
        · exact .pure _
        · exact .pure _

section Write
variable (hi : i < virtiosoMaxPtyCount) (hauto : i ≠ autopilotControlPtyIdx) (ch : Byte)
include hi

theorem setSeen_safe (n r : Bool) : Each Event.Safe (setSeen h i n r) :=
  .bind (writeAt_safe hi _ _) (.bind (writeAt_safe hi _ _) (.pure _))

include hauto

theorem toMaster_safe (io : FlushIo) (pty : ThreadData) : Each Event.Safe (toMaster io h i pty ch) := by
  unfold toMaster
  refine .bind (.record ⟨hi, fun hw => hauto (Option.some.inj hw)⟩) ?_
  cases io.pty with
  | ok => exact .bind (writeAt_safe hi _ _) (.pure _)
  | again => exact .bind (writeAt_safe hi _ _) (.pure _)
  | error => exact .bind (writeAt_safe hi _ _) (.pure _)

theorem flushStream_safe (io : FlushIo) : Each Event.Safe (flushStream env io h i ch) := by
  have hlog : ∀ bytes, Each Event.Safe (record (.writeLog i bytes)) :=
    fun bytes => .record ⟨hi, fun hw => hauto (Option.some.inj hw)⟩
  unfold flushStream
  refine .bind (readAt_safe hi _) ?_
  refine .ite (fun _ => .ite (fun _ => .pure _) (fun _ => ?_)) (fun _ => toMaster_safe hi hauto ch io _)
  refine .bind (hlog _) (.ite (fun _ => ?_) (fun _ => ?_))
  · exact .bind (hlog _) (toMaster_safe hi hauto ch io _)
  · exact .bind (writeAt_safe hi _ _) (.pure _)

theorem patched_safe : Each Event.Safe (patched env h i ch) := by
  unfold patched
  refine .bind (readAt_safe hi _) (.bind (readAt_safe hi _) ?_)
  split
  · exact setSeen_safe hi _ _
  split
  · exact setSeen_safe hi _ _
  split
  · exact .bind (flushStream_safe hi hauto _ _) (setSeen_safe hi _ _)
  split
  · exact .bind (flushStream_safe hi hauto _ _) (setSeen_safe hi _ _)
  · exact .pure _

theorem patch2flushStream_safe : Each Event.Safe (patch2flushStream env h i ch) := by
  unfold patch2flushStream
  refine .bind (.record (safe_access hi rfl)) (.bind (.record (safe_access hi rfl)) (.bind (.record (safe_access hi rfl)) ?_))
  split
  · exact flushStream_safe hi hauto ch _
  · refine .bind (patched_safe hi hauto ch) (.bind (flushStream_safe hi hauto ch _) ?_)
    split
    · exact .pure _
    · refine .bind (readAt_safe hi _) (.bind (readAt_safe hi _) ?_)
      split
      · exact .bind (setSeen_safe hi _ _) (.pure _)
      · exact .pure _

end Write

end Slot

/-! ### The table functions -/

theorem findFrom_lookup {t : Table} {streamId : Byte} {n i : Nat} (hi : i + n ≤ virtiosoMaxPtyCount) :
    Each Event.Lookup (findFrom t streamId n i) := by
  induction n generalizing i with
  | zero => exact .pure _
  | succ n ih =>
    refine .bind (readAt_tag (show i < virtiosoMaxPtyCount by omega) _) (.ite (fun _ => .pure _) (fun _ => ?_))
    exact ih (by omega)

theorem find_lookup {t : Table} (hcap : t.numProc ≤ virtiosoMaxPtyCount) (streamId : Byte) :
    Each Event.Lookup (findVirtiosoPtyIdxByStreamId t streamId) :=
  findFrom_lookup (by omega)

theorem duplicateFrom_lookup {s : RegistryScan} {v : Byte} {name : Bytes} {n i : Nat} (hi : i + n ≤ virtiosoMaxPtyCount) :
    Each Event.Lookup (duplicateFrom s v name n i) := by
  induction n generalizing i with
  | zero => exact .pure _
  | succ n ih =>
    refine .bind (readAt_tag (show i < virtiosoMaxPtyCount by omega) _) (.ite (fun _ => .pure _) (fun _ => ?_))
    exact ih (by omega)

section Registry
variable {s : RegistryScan} (hs : s.count ≤ virtiosoMaxPtyCount)
include hs

/-- The duplicates are searched first, then a full table refuses the entry. -/
theorem appendVirtiosoStream_lookup (streamId : Int) (name : Bytes) :
    Each Event.Lookup (appendVirtiosoStream s streamId name) := by
  unfold appendVirtiosoStream
  split
  · exact .pure _
  split
  · exact .pure _
  refine .bind (duplicateFrom_lookup (by omega)) ?_
  split
  · exact .pure _
  split
  · exact .pure _
  · exact .bind (writeAt_tag (show s.count < virtiosoMaxPtyCount by omega) _ _) (.pure _)

theorem addEntry_lookup (e : Entry) : Each Event.Lookup (addEntry s e) := by
  unfold addEntry
  refine .bind (appendVirtiosoStream_lookup hs e.streamId e.name) ?_
  rw [value_appendVirtiosoStream]
  cases happ : Host.appendVirtiosoStream s e.streamId e.name with
  | none => exact .pure _
  | some s' =>
    dsimp only
    split
    · rename_i hlt
      have hcount : s.count < virtiosoMaxPtyCount := by
        have hadd : s.addEntry e = some { s' with inputEnabled := Function.update s'.inputEnabled s.count e.inputEnabled } := by
          simp only [RegistryScan.addEntry, happ, if_pos hlt]
        rcases addEntry_cases hadd with ⟨-, heq⟩ | ⟨-, -, hfull, -, -⟩
        · rw [← heq] at hlt
          exact absurd hlt (Nat.lt_irrefl _)
        · omega
      exact .bind (writeAt_inputEnabled hcount _ _) (.pure _)
    · exact .pure _

end Registry

theorem addEntries_lookup {s : RegistryScan} (hs : s.count ≤ virtiosoMaxPtyCount) (entries : List (Option Entry)) :
    Each Event.Lookup (addEntries s entries) := by
  induction entries generalizing s with
  | nil => exact .pure _
  | cons e rest ih =>
    cases e with
    | none => exact .pure _
    | some e =>
      refine .bind (addEntry_lookup hs e) ?_
      rw [value_addEntry]
      cases hadd : s.addEntry e with
      | none => exact .pure _
      | some s' =>
        refine ih ?_
        rcases addEntry_cases hadd with ⟨-, rfl⟩ | ⟨-, -, hfull, -, rfl⟩
        · exact hs
        · simp only
          omega

theorem clearFrom_lookup {n i : Nat} (hi : i + n ≤ virtiosoMaxPtyCount) (tags : Nat → Tag) :
    Each Event.Lookup (clearFrom n i tags) := by
  induction n generalizing i tags with
  | zero => exact .pure _
  | succ n ih => exact .bind (writeAt_tag (show i < virtiosoMaxPtyCount by omega) _ _) (ih (by omega) _)

theorem rejectRegistry_lookup {h : State} {builtinCount streamCount : Nat} (hle : builtinCount ≤ streamCount)
    (hmax : streamCount ≤ virtiosoMaxPtyCount) : Each Event.Lookup (rejectRegistry h builtinCount streamCount) :=
  .bind (clearFrom_lookup (by omega) _) (.pure _)

theorem createRegistryPtys_safe {env : Env} {remaining k : Nat} {h : State} (hk : k + remaining ≤ virtiosoMaxPtyCount) :
    Each Event.Safe (createRegistryPtys env remaining k h) := by
  induction remaining generalizing k h with
  | zero => exact .pure _
  | succ remaining ih =>
    have hlt : k < virtiosoMaxPtyCount := by omega
    refine .bind (readAt_safe hlt _) (.bind (readAt_safe hlt _)
      (.bind (createPtyAtIndex_safe _ _) ?_))
    split
    · exact ih (by omega)
    · exact .pure _

section Records
variable {env : Env} {h : State} (hcap : h.table.numProc ≤ virtiosoMaxPtyCount)
include hcap

theorem applyVirtiosoRegistryJson_safe (json : Bytes) : Each Event.Safe (applyVirtiosoRegistryJson env h json) := by
  unfold applyVirtiosoRegistryJson
  dsimp only
  split
  · exact .pure _
  · rename_i entries _
    refine .bind ((addEntries_lookup hcap entries).imp fun _ he => he.safe) ?_
    rw [value_addEntries]
    have hgrow := addEntries_count ⟨h.table.tags, h.table.inputEnabled, h.table.numProc⟩ entries
    have hcount := scan_count_le h.table hcap entries
    rw [Table.scan] at hcount
    dsimp only at hgrow
    split
    · exact .bind ((rejectRegistry_lookup hgrow hcount).imp fun _ he => he.safe) (.pure _)
    · refine .bind (createRegistryPtys_safe (by omega)) ?_
      split
      · exact .pure _
      · exact .bind ((rejectRegistry_lookup hgrow hcount).imp fun _ he => he.safe) (.pure _)

theorem applyVirtiosoStreamConnected_safe (streamId : Byte) (name : Bytes) :
    Each Event.Safe (applyVirtiosoStreamConnected env h streamId name) := by
  unfold applyVirtiosoStreamConnected
  refine .bind ((find_lookup hcap streamId).imp fun _ he => he.safe) ?_
  split
  · exact .pure _
  split
  · exact .pure _
  dsimp only
  split
  · exact .pure _
  · rename_i hroom _
    have hlt : h.table.numProc < virtiosoMaxPtyCount := Nat.lt_of_not_le hroom
    refine .bind (writeAt_safe hlt _ _) (.bind (writeAt_safe hlt _ _)
      (.bind (createPtyAtIndex_safe _ _) ?_))
    split
    · exact .pure _
    · exact .bind (writeAt_safe hlt _ _) (.pure _)

theorem finishRegistry_safe : Each Event.Safe (finishRegistry env h) := by
  unfold finishRegistry
  split
  · exact .pure _
  · refine Each.bind (applyVirtiosoRegistryJson_safe ?_ _) ?_
    · exact hcap
    · split
      · exact .pure _
      · exact .pure _

theorem finishAnnounce_safe : Each Event.Safe (finishAnnounce env h) := by
  unfold finishAnnounce
  split
  · split
    · exact .bind (applyVirtiosoStreamConnected_safe hcap _ _) (.pure _)
    · exact .pure _
  · exact .pure _

end Records

section Byte
variable {env : Env} {h : State} (hs : h.Sound)
include hs

/-- Payload goes to the current stream or to the default slot. -/
theorem feedVirtiosoByte_safe (ch : Byte) : Each Event.Safe (feedVirtiosoByte env h ch) := by
  have hcap := hs.capacity
  have hcurrent : ∀ (g : State) i, h.parser.curRxStream = some i → Each Event.Safe (patch2flushStream env g i ch) := by
    intro g i hcur
    obtain ⟨h3, hlt⟩ := hs.current i hcur
    exact patch2flushStream_safe (by omega) (by simp only [autopilotControlPtyIdx]; omega) ch
  unfold feedVirtiosoByte
  split
  · exact .pure _
  · exact .pure _
  · exact .pure _
  · dsimp only
    split
    · exact finishRegistry_safe hcap
    · exact .pure _
  · exact .pure _
  · exact .pure _
  · dsimp only
    split
    · exact .bind (finishAnnounce_safe hcap) (.pure _)
    · exact .pure _
  · split
    · dsimp only
      split
      · exact .pure _
      split
      · split
        · rename_i i hcur
          exact hcurrent _ i hcur
        · exact .pure _
      split
      · exact .pure _
      · exact .bind ((find_lookup hcap ch).imp fun _ he => he.safe) (.pure _)
    split
    · exact .pure _
    · split
      · split
        · exact patch2flushStream_safe (by decide) (by decide) ch
        · exact .pure _
      · rename_i i hcur
        exact hcurrent _ i hcur

theorem feedCarrier_safe (ch : Byte) : Each Event.Safe (feedCarrier env h ch) := by
  unfold feedCarrier
  split
  · refine .bind (patch2flushStream_safe (by decide) (by decide) ch) ?_
    split
    · exact .pure _
    · rw [value_patch2flushStream]
      obtain ⟨p, n, r, ret, heq⟩ := patch2flushStream_slot env h rawCcplexPtyIdx ch
      rw [heq]
      exact feedVirtiosoByte_safe (hs.copy p n r h.parser.outerInEscape) ch
  · exact feedVirtiosoByte_safe hs ch

theorem feed_safe (ch : Byte) : Each Event.Safe (feedNvidiaOuterOrVirtiosoRaw env h ch) := by
  unfold feedNvidiaOuterOrVirtiosoRaw
  split
  · exact feedCarrier_safe hs ch
  · split
    · dsimp only
      split
      · split
        · exact feedVirtiosoByte_safe (h := h.setOuterEscape false)
            ⟨hs.counts, hs.capacity, hs.slots, hs.current, hs.record, hs.autopilot⟩ _
        · exact .pure _
      split
      · exact .pure _
      · split
        · exact .pure _
        · exact .pure _
    split
    · exact .pure _
    split
    · exact feedCarrier_safe hs ch
    · exact .pure _

end Byte

end Traced

/-! ### Every run -/

/-- The byte completes a registry that is refused, which ends the thread. -/
def RejectsRegistry (env : Env) (h : State) (ch : Byte) : Prop :=
  (receivedRegistry env h ch).isSome = true ∧ (feedNvidiaOuterOrVirtiosoRaw env h ch).2 < 0

section Run
variable {env : Env} {h : State}

/-- Also a refused registry leaves the slot of `autopilot_control` as it is. -/
theorem State.Sound.autopilot_kept (hs : h.Sound) (ch : Byte) :
    (feedNvidiaOuterOrVirtiosoRaw env h ch).1.ptyData autopilotControlPtyIdx = h.ptyData autopilotControlPtyIdx := by
  cases hh : handed env h ch with
  | none =>
    rcases feed_unhanded hh with ⟨p, n, r, heq⟩ | ⟨e, tag, cur, esc, heq, -⟩
    · rw [heq]
      exact Function.update_of_ne (show autopilotControlPtyIdx ≠ rawCcplexPtyIdx by decide) p h.ptyData
    · rw [heq]
  | some res =>
    obtain ⟨g, b⟩ := res
    have hg := hs.handedState hh
    have hb := hg.slots.builtin
    rw [feed_handed hh, feedVirtiosoByte_slots env g b (by simp only [autopilotControlPtyIdx]; omega)
      (hg.target_ne (by decide) (by decide))]
    obtain ⟨p, n, r, e, rfl⟩ := handed_state hh
    exact Function.update_of_ne (show autopilotControlPtyIdx ≠ rawCcplexPtyIdx by decide) p h.ptyData

/-- The state is sound after every byte up to a refused registry. The accesses that the next byte
records are in bounds, none of them writes to `autopilot_control`, and without the record it is
received as by the demuxer. -/
theorem demuxer_invariant {bytes : Bytes} (hrun : ttyInputHandler env (start env) bytes = (h, true)) :
    h.Sound ∧ ∀ ch, value (Traced.feedNvidiaOuterOrVirtiosoRaw env h ch) = feedNvidiaOuterOrVirtiosoRaw env h ch ∧
      (∀ e ∈ events (Traced.feedNvidiaOuterOrVirtiosoRaw env h ch),
        e.index < virtiosoMaxPtyCount ∧ e.written ≠ some autopilotControlPtyIdx) ∧
      ((feedNvidiaOuterOrVirtiosoRaw env h ch).1.ptyData autopilotControlPtyIdx).written = [] ∧
      ((feedNvidiaOuterOrVirtiosoRaw env h ch).1.ptyData autopilotControlPtyIdx).log = [] ∧
      (¬ RejectsRegistry env h ch → (feedNvidiaOuterOrVirtiosoRaw env h ch).1.Sound) := by
  have hs := reached_sound hrun
  refine ⟨hs, ?_⟩
  intro ch
  refine ⟨Traced.value_feed env h ch, ?_, ?_, ?_, ?_⟩
  · intro e he
    have hsafe := Traced.feed_safe hs ch e he
    exact ⟨hsafe.bounded, hsafe.autopilot⟩
  · rw [hs.autopilot_kept ch]
    exact hs.autopilot.2
  · rw [hs.autopilot_kept ch]
    exact hs.autopilot.1
  · intro hrej
    refine hs.receive ?_
    by_cases hret : 0 ≤ (feedNvidiaOuterOrVirtiosoRaw env h ch).2
    · exact .inl hret
    · right
      rw [← Option.not_isSome_iff_eq_none]
      intro hreg
      exact hrej ⟨hreg, by omega⟩

end Run

/-- A run that selects an unknown stream, and a byte of payload behind it: the byte is copied to
`raw_ccplex` and goes to the default slot. -/
theorem demuxer_invariant_unknownStream :
    ∃ h, ttyInputHandler quietEnv (start quietEnv) [0xfe, 0x07, 0x41, 0x42] = (h, true) ∧ h.Sound ∧
      .writeLog virtiosoDefaultPtyIdx [0x43] ∈ events (Traced.feedNvidiaOuterOrVirtiosoRaw quietEnv h 0x43) ∧
      ∀ e ∈ events (Traced.feedNvidiaOuterOrVirtiosoRaw quietEnv h 0x43),
        e.index < virtiosoMaxPtyCount ∧ e.written ≠ some autopilotControlPtyIdx := by
  have hrun : ttyInputHandler quietEnv (start quietEnv) [0xfe, 0x07, 0x41, 0x42] =
      ((ttyInputHandler quietEnv (start quietEnv) [0xfe, 0x07, 0x41, 0x42]).1, true) := rfl
  obtain ⟨hs, hbyte⟩ := demuxer_invariant hrun
  exact ⟨_, hrun, hs, by decide, (hbyte 0x43).2.1⟩

end VirtiosoMux.Host
