import VirtiosoMux.Host.Steps
import Mathlib.Data.Finset.Card
import Mathlib.Data.Finset.Image

/-! # The stream table

Slots 0, 1 and 2 are built in and carry the value zero. The announcements of
`virtioso-muxd` only ever append, so an identifier keeps the slot and the name of its
first announcement. With the reserved identifiers excluded the table cannot fill up.
-/
namespace VirtiosoMux.Host

def Table.connect (t : Table) (id : Byte) (name : Bytes) : Table :=
  if (findVirtiosoPtyIdxByStreamId t id).isSome ∨ ptyCapacity ≤ t.numProc then t
  else { t with
    tags := Function.update t.tags t.numProc ⟨some (cString (name.take 255)), id⟩
    inputEnabled := Function.update t.inputEnabled t.numProc false
    numProc := t.numProc + 1
    ptyMaxCount := t.numProc + 1 }

/-- Only the built-in slots carry the value zero; the others carry distinct
identifiers that an escape can select. -/
structure Table.Clean (t : Table) : Prop where
  builtin : 3 ≤ t.numProc
  zero : ∀ i < 3, (t.tags i).value = 0
  selectable : ∀ i, 3 ≤ i → i < t.numProc → ¬ Reserved (t.tags i).value
  distinct : ∀ i j, 3 ≤ i → i < t.numProc → 3 ≤ j → j < t.numProc → (t.tags i).value = (t.tags j).value → i = j

/-- 253 identifiers are not reserved. -/
theorem Table.Clean.numProc_le {t : Table} (hc : t.Clean) : t.numProc ≤ 256 := by
  let free : Finset Nat := ((Finset.range 256).erase 0).erase 0xfd |>.erase 0xfe
  have hcard : free.card = 253 := by decide +kernel
  have hmaps : ∀ k ∈ Finset.range (t.numProc - 3), (t.tags (k + 3)).value.toNat ∈ free := by
    intro k hk
    have hlt : k + 3 < t.numProc := by simp only [Finset.mem_range] at hk; omega
    obtain ⟨h0, h1, h2⟩ := not_reserved_iff.mp (hc.selectable (k + 3) (by omega) hlt)
    simp only [free, Finset.mem_erase, Finset.mem_range]
    refine ⟨fun h => h2 (UInt8.toNat_inj.mp h), fun h => h1 (UInt8.toNat_inj.mp h),
      fun h => h0 (UInt8.toNat_inj.mp h), UInt8.toNat_lt _⟩
  have hinj : ∀ k ∈ Finset.range (t.numProc - 3), ∀ l ∈ Finset.range (t.numProc - 3),
      (t.tags (k + 3)).value.toNat = (t.tags (l + 3)).value.toNat → k = l := by
    intro k hk l hl heq
    simp only [Finset.mem_range] at hk hl
    have := hc.distinct (k + 3) (l + 3) (by omega) (by omega) (by omega) (by omega) (UInt8.toNat_inj.mp heq)
    omega
  have hle := Finset.card_le_card_of_injOn _ hmaps (fun k hk l hl => hinj k hk l hl)
  rw [Finset.card_range, hcard] at hle
  omega

theorem Table.Clean.find_builtin {t : Table} (hc : t.Clean) : findVirtiosoPtyIdxByStreamId t 0 = some 0 := by
  have hb := hc.builtin
  exact find_eq_some_iff.mpr ⟨by omega, hc.zero 0 (by omega), by simp⟩

/-- A selectable identifier is found at its own slot, never at a built-in one. -/
theorem Table.Clean.find_slot {t : Table} (hc : t.Clean) {i : Nat} (h3 : 3 ≤ i) (hi : i < t.numProc) :
    findVirtiosoPtyIdxByStreamId t (t.tags i).value = some i := by
  refine find_eq_some_iff.mpr ⟨hi, rfl, ?_⟩
  intro j hj hv
  by_cases hj3 : j < 3
  · rw [hc.zero j hj3] at hv
    exact (not_reserved_iff.mp (hc.selectable i h3 hi)).1 hv.symm
  · exact absurd (hc.distinct j i (by omega) (by omega) h3 hi hv) (by omega)

theorem Table.Clean.three_le_of_find {t : Table} (hc : t.Clean) {id : Byte} (hid : ¬ Reserved id) {i : Nat}
    (hf : findVirtiosoPtyIdxByStreamId t id = some i) : 3 ≤ i := by
  by_contra hlt
  have hz := hc.zero i (by omega)
  rw [(find_value hf).2] at hz
  exact (not_reserved_iff.mp hid).1 hz

/-- A new identifier gets the first free entry. -/
theorem connect_fresh {t : Table} {id : Byte} (hf : findVirtiosoPtyIdxByStreamId t id = none) (hroom : t.numProc < ptyCapacity)
    (name : Bytes) :
    t.connect id name = { t with
      tags := Function.update t.tags t.numProc ⟨some (cString (name.take 255)), id⟩
      inputEnabled := Function.update t.inputEnabled t.numProc false
      numProc := t.numProc + 1
      ptyMaxCount := t.numProc + 1 } := by
  simp [Table.connect, hf, hroom]

/-- Announcements are the only way the table of `virtioso-muxd` streams changes, and a
selectable identifier can always be added. -/
theorem Table.Clean.connect_new {t : Table} (hc : t.Clean) {id : Byte}
    (hf : findVirtiosoPtyIdxByStreamId t id = none) (name : Bytes) :
    t.connect id name = { t with
      tags := Function.update t.tags t.numProc ⟨some (cString (name.take 255)), id⟩
      inputEnabled := Function.update t.inputEnabled t.numProc false
      numProc := t.numProc + 1
      ptyMaxCount := t.numProc + 1 } := by
  have hn := hc.numProc_le
  apply connect_fresh hf
  simp only [ptyCapacity, virtiosoMaxPtyCount]
  omega

theorem connect_known {t : Table} {id : Byte} {i : Nat} (hf : findVirtiosoPtyIdxByStreamId t id = some i)
    (name : Bytes) : t.connect id name = t := by
  simp [Table.connect, hf]

structure Table.Slots (P : Tag → Prop) (t : Table) : Prop where
  builtin : 3 ≤ t.numProc
  zero : ∀ i < 3, (t.tags i).value = 0
  holds : ∀ i, 3 ≤ i → i < t.numProc → P (t.tags i)
  distinct : ∀ i j, 3 ≤ i → i < t.numProc → 3 ≤ j → j < t.numProc → (t.tags i).value = (t.tags j).value → i = j

theorem Table.Slots.clean {t : Table} (hs : t.Slots (fun tag => ¬ Reserved tag.value)) : t.Clean :=
  ⟨hs.builtin, hs.zero, hs.holds, hs.distinct⟩

theorem Table.Clean.slots {t : Table} (hc : t.Clean) : t.Slots (fun tag => ¬ Reserved tag.value) :=
  ⟨hc.builtin, hc.zero, hc.selectable, hc.distinct⟩

theorem initVirtiosoTags_slots (P : Tag → Prop) : initVirtiosoTags.Slots P := by
  refine ⟨Nat.le_refl 3, by decide, ?_, ?_⟩
  · intro i h3 hi
    exact absurd hi (by simp only [initVirtiosoTags]; omega)
  · intro i j h3 hi
    exact absurd hi (by simp only [initVirtiosoTags]; omega)

theorem initVirtiosoTags_clean : initVirtiosoTags.Clean := (initVirtiosoTags_slots _).clean

/-- Appending an entry with a new value. -/
theorem Table.Slots.add {P : Tag → Prop} {t t' : Table} (hs : t.Slots P) {tag : Tag} (htag : P tag)
    (hnew : ∀ i < t.numProc, (t.tags i).value ≠ tag.value)
    (htags : t'.tags = Function.update t.tags t.numProc tag) (hcount : t'.numProc = t.numProc + 1) : t'.Slots P := by
  have hb := hs.builtin
  refine ⟨by omega, ?_, ?_, ?_⟩
  · intro i hi
    have hne : i ≠ t.numProc := by omega
    rw [htags, Function.update_of_ne hne]
    exact hs.zero i hi
  · intro i h3 hi
    rw [htags]
    by_cases hne : i = t.numProc
    · subst hne; simpa using htag
    · rw [Function.update_of_ne hne]
      exact hs.holds i h3 (by omega)
  · intro i j h3i hi h3j hj hv
    rw [htags] at hv
    by_cases hni : i = t.numProc <;> by_cases hnj : j = t.numProc
    · omega
    · subst hni
      rw [Function.update_self, Function.update_of_ne hnj] at hv
      exact absurd hv.symm (hnew j (by omega))
    · subst hnj
      rw [Function.update_self, Function.update_of_ne hni] at hv
      exact absurd hv (hnew i (by omega))
    · rw [Function.update_of_ne hni, Function.update_of_ne hnj] at hv
      exact hs.distinct i j h3i (by omega) h3j (by omega) hv

/-- Appending a new selectable identifier. -/
theorem Table.Clean.add {t t' : Table} (hc : t.Clean) {id : Byte} (hid : ¬ Reserved id)
    (hnew : ∀ i < t.numProc, (t.tags i).value ≠ id) {name : Option Bytes}
    (htags : t'.tags = Function.update t.tags t.numProc ⟨name, id⟩) (hcount : t'.numProc = t.numProc + 1) :
    t'.Clean :=
  (hc.slots.add hid hnew htags hcount).clean

theorem Table.Clean.connect {t : Table} (hc : t.Clean) {id : Byte} (hid : id = 0 ∨ ¬ Reserved id) (name : Bytes) :
    (t.connect id name).Clean := by
  cases hf : findVirtiosoPtyIdxByStreamId t id with
  | some i => rw [connect_known hf]; exact hc
  | none =>
    have hid : ¬ Reserved id := by
      rcases hid with rfl | hid
      · rw [hc.find_builtin] at hf; cases hf
      · exact hid
    rw [hc.connect_new hf]
    exact hc.add hid (find_eq_none_iff.mp hf) rfl rfl

structure Table.Extends (t t' : Table) : Prop where
  numProc : t.numProc ≤ t'.numProc
  tags : ∀ i < t.numProc, t'.tags i = t.tags i

theorem Table.Extends.refl (t : Table) : t.Extends t := ⟨le_rfl, fun _ _ => rfl⟩

theorem Table.Extends.trans {t₁ t₂ t₃ : Table} (a : t₁.Extends t₂) (b : t₂.Extends t₃) : t₁.Extends t₃ :=
  ⟨a.numProc.trans b.numProc, fun i hi => (b.tags i (hi.trans_le a.numProc)).trans (a.tags i hi)⟩

theorem Table.Extends.find {t t' : Table} (hx : t.Extends t') {id : Byte} {i : Nat}
    (hf : findVirtiosoPtyIdxByStreamId t id = some i) : findVirtiosoPtyIdxByStreamId t' id = some i := by
  obtain ⟨hi, hv, hfirst⟩ := find_eq_some_iff.mp hf
  refine find_eq_some_iff.mpr ⟨hi.trans_le hx.numProc, ?_, ?_⟩
  · rw [hx.tags i hi]; exact hv
  · intro j hj
    rw [hx.tags j (hj.trans hi)]
    exact hfirst j hj

theorem extends_connect (t : Table) (id : Byte) (name : Bytes) : t.Extends (t.connect id name) := by
  unfold Table.connect
  split
  · exact Table.Extends.refl t
  · exact ⟨Nat.le_succ _, fun i hi => Function.update_of_ne (by omega) _ _⟩

/-- The identifier just announced is found, at its old slot or at the new one. -/
theorem Table.Clean.find_connect_self {t : Table} (hc : t.Clean) (id : Byte) (name : Bytes) :
    findVirtiosoPtyIdxByStreamId (t.connect id name) id =
      some ((findVirtiosoPtyIdxByStreamId t id).getD t.numProc) := by
  cases hf : findVirtiosoPtyIdxByStreamId t id with
  | some i => exact (extends_connect t id name).find hf
  | none =>
    have hnew := find_eq_none_iff.mp hf
    rw [hc.connect_new hf]
    refine find_eq_some_iff.mpr ⟨Nat.lt_succ_self _, by simp, ?_⟩
    intro j hj
    simp only [Option.getD_none] at hj
    simpa [Function.update_of_ne (Nat.ne_of_lt hj)] using hnew j hj

theorem Table.Clean.find_connect_of_ne {t : Table} (hc : t.Clean) {id id' : Byte} (hne : id' ≠ id) (name : Bytes) :
    findVirtiosoPtyIdxByStreamId (t.connect id name) id' = findVirtiosoPtyIdxByStreamId t id' := by
  cases hf : findVirtiosoPtyIdxByStreamId t id' with
  | some i => exact (extends_connect t id name).find hf
  | none =>
    cases hid : findVirtiosoPtyIdxByStreamId t id with
    | some i => rw [connect_known hid, hf]
    | none =>
      have hold := find_eq_none_iff.mp hf
      rw [hc.connect_new hid]
      refine find_eq_none_iff.mpr ?_
      intro i hi
      by_cases hn : i = t.numProc
      · subst hn; simpa using hne.symm
      · simpa [Function.update_of_ne hn] using hold i (by simp only at hi; omega)

def Table.slotName (t : Table) (id : Byte) : Option (Option Bytes) :=
  (findVirtiosoPtyIdxByStreamId t id).map (fun i => (t.tags i).name)

/-- An announcement registers its name only if the identifier is new. -/
theorem Table.Clean.slotName_connect {t : Table} (hc : t.Clean) (id : Byte) (name : Bytes) (id' : Byte) :
    (t.connect id name).slotName id' =
      (t.slotName id').or (if id = id' then some (some (cString (name.take 255))) else none) := by
  have hx := extends_connect t id name
  cases hf : findVirtiosoPtyIdxByStreamId t id' with
  | some i => simp [Table.slotName, hx.find hf, hf, hx.tags i (find_value hf).1]
  | none =>
    by_cases heq : id = id'
    · subst heq
      have hself := hc.find_connect_self id name
      rw [Table.slotName, hself, hf, hc.connect_new hf]
      simp [Table.slotName, hf]
    · simp [Table.slotName, hc.find_connect_of_ne (Ne.symm heq), hf, heq]

variable {env : Env} (he : env.Healthy)
include he

/-- An announcement is ignored, or the table gets an entry and the entry a PTY with an empty log. -/
theorem applyVirtiosoStreamConnected_opens (h : State) (id : Byte) (name : Bytes) :
    (applyVirtiosoStreamConnected env h id name = h ∧ h.table.connect id name = h.table) ∨
    ∃ device out, applyVirtiosoStreamConnected env h id name = { h with
        table := h.table.connect id name
        ptyData := Function.update h.ptyData h.table.numProc ⟨true, device, 0, [], []⟩
        stdout := out } ∧
      (h.table.connect id name).numProc = h.table.numProc + 1 ∧
      (h.table.connect id name).ptyMaxCount = h.table.numProc + 1 := by
  by_cases hskip : (findVirtiosoPtyIdxByStreamId h.table id).isSome = true ∨ ptyCapacity ≤ h.table.numProc
  · left
    refine ⟨?_, by simp [Table.connect, hskip]⟩
    rcases hskip with hs | hs <;> simp [applyVirtiosoStreamConnected, hs]
  · right
    have hdup := he.xstrndup h.clock (cString (name.take 255)).length
    simp only [not_or, Option.not_isSome_iff_eq_none] at hskip
    obtain ⟨hf, hcap⟩ := hskip
    have htable := connect_fresh hf (Nat.not_le.mp hcap) name
    obtain ⟨device, out, hcreate⟩ := createPtyAtIndex_healthy he { h with table := h.table.connect id name }
      (i := h.table.numProc) (by omega) (cString (name.take 255)) false
    rw [htable] at hcreate ⊢
    refine ⟨device, out, ?_, rfl, rfl⟩
    simp only [applyVirtiosoStreamConnected, hf, Option.isSome_none, Bool.false_eq_true, if_neg hcap, if_false, Env.now, hdup,
      Bool.not_true, hcreate, if_true]

/-- Announcing a stream changes the table and opens an empty log; no byte is logged. -/
theorem applyVirtiosoStreamConnected_healthy {h : State} (hr : h.Ready) (id : Byte) (name : Bytes) :
    (applyVirtiosoStreamConnected env h id name).table = h.table.connect id name ∧
    (applyVirtiosoStreamConnected env h id name).parser = h.parser ∧
    (applyVirtiosoStreamConnected env h id name).Ready ∧
    (∀ i, (applyVirtiosoStreamConnected env h id name).log i = h.log i) ∧
    (applyVirtiosoStreamConnected env h id name).downlinkAckCount = h.downlinkAckCount ∧
    (applyVirtiosoStreamConnected env h id name).virtiosoRegistryJson = h.virtiosoRegistryJson := by
  rcases applyVirtiosoStreamConnected_opens he h id name with ⟨hsame, htab⟩ | ⟨device, out, heq, hcount, hmax⟩
  · rw [hsame, htab]
    exact ⟨rfl, rfl, hr, fun _ => rfl, rfl, rfl⟩
  · have hlog : ∀ i, (applyVirtiosoStreamConnected env h id name).log i = h.log i := by
      intro i
      rw [heq]
      by_cases hi : i = h.table.numProc
      · subst hi
        simpa [State.log] using (hr.unused _ le_rfl).symm
      · simp [State.log, Function.update_of_ne hi]
    refine ⟨by rw [heq], by rw [heq], ⟨?_, ?_, ?_, ?_⟩, hlog, by rw [heq], by rw [heq]⟩
    · rw [heq]
      simp only [hcount, hmax]
    · have := hr.builtin
      rw [heq]
      simp only [hcount]
      omega
    · intro i hi
      rw [heq] at hi ⊢
      by_cases hn : i = h.table.numProc
      · subst hn; simp
      · simp only [Function.update_of_ne hn]
        exact hr.logFd i (by simp only [hcount] at hi; omega)
    · intro i hi
      rw [hlog]
      rw [heq] at hi
      exact hr.unused i (by simp only [hcount] at hi; omega)

end VirtiosoMux.Host
