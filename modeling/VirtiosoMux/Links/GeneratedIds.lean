import Mathlib
import VirtiosoMux.Generator.Assignment
import VirtiosoMux.Camkes.Mux
import VirtiosoMux.Host.Demux

/-! # Generated identifiers

The generator counts upwards and skips the three reserved values, with no upper end. The
protocol ends at `0xfc`, and the Mux and the host demuxer refuse what does not fit in a byte.
-/
namespace VirtiosoMux.Links
open Generator Json Camkes Host

def listedIds (streams : List Stream) : List Int := (streams.map Stream.streamId).filter (fun id => decide (id ≠ -1))

/-- The registry reader gives up at an entry with this identifier, whatever the table holds. -/
def HostRefuses (id : Int) : Prop := ∀ scan name, appendVirtiosoStream scan id name = none

structure IdsValid (a : Assembly) (streams : List Stream) : Prop where
  entries : List.Forall₂ (fun (i : Instance) (s : Stream) =>
    s.component = i.componentName ∧ (s.streamId = -1 ↔ a.consoleInterfaces i.componentType = [])) a.instances streams
  ascending : (listedIds streams).Pairwise (· < ·)
  range : ∀ id ∈ listedIds streams, 0x01 ≤ id ∧ id ≤ 0xfc
  accepted : ∀ id ∈ listedIds streams, consoleMuxValidStreamId id = true ∧ ¬ HostRefuses id

/-! ### The counter -/

theorem nextStreamId_le (n : Nat) : n ≤ nextStreamId n := by
  fun_induction nextStreamId n with
  | case1 n _ ih => exact Nat.le_of_succ_le ih
  | case2 n _ => exact Nat.le_refl n

theorem nextStreamId_not_reserved (n : Nat) : nextStreamId n ∉ reservedStreamIds := by
  fun_induction nextStreamId n with
  | case1 n _ ih => exact ih
  | case2 n h => exact h

section Assigned
variable (a : Assembly)

theorem assigned_entries (next : Nat) (instances : List Instance) :
    List.Forall₂ (fun (i : Instance) (s : Stream) =>
      s.component = i.componentName ∧ (s.streamId = -1 ↔ a.consoleInterfaces i.componentType = []))
      instances (assignedFrom a next instances) := by
  induction instances generalizing next with
  | nil => exact .nil
  | cons i rest ih =>
    rw [assignedFrom]
    split
    · rename_i hcons
      have hne : a.consoleInterfaces i.componentType ≠ [] := by simpa [Assembly.hasConsole] using hcons
      refine .cons ⟨rfl, ?_⟩ (ih _)
      simp only [streamOf, hne, iff_false]
      omega
    · rename_i hcons
      have hnil : a.consoleInterfaces i.componentType = [] := by simpa [Assembly.hasConsole] using hcons
      refine .cons ⟨rfl, ?_⟩ (ih _)
      simp [streamOf, hnil]

theorem listedIds_console (id : Nat) (source : Text) (i : Instance) (streams : List Stream) :
    listedIds (streamOf a id source i :: streams) = (id : Int) :: listedIds streams := by
  have hpos : ((id : Int) ≠ -1) := by omega
  simp [listedIds, streamOf, hpos]

theorem listedIds_none (source : Text) (i : Instance) (streams : List Stream) :
    listedIds (streamOf a (-1) source i :: streams) = listedIds streams := by
  simp [listedIds, streamOf]

/-- The identifiers ascend from the next one to try, and none is reserved. -/
theorem listedIds_assigned (next : Nat) (instances : List Instance) :
    (listedIds (assignedFrom a next instances)).Pairwise (· < ·) ∧
    (∀ id ∈ listedIds (assignedFrom a next instances), (next : Int) ≤ id ∧ id ≠ 0xfd ∧ id ≠ 0xfe) ∧
    (listedIds (assignedFrom a next instances)).length = consoleCount a instances := by
  induction instances generalizing next with
  | nil => simp [assignedFrom, listedIds, consoleCount]
  | cons i rest ih =>
    rw [assignedFrom]
    split
    · rename_i hcons
      obtain ⟨hasc, hids, hlen⟩ := ih (nextStreamId next + 1)
      have hle := nextStreamId_le next
      have hres := nextStreamId_not_reserved next
      simp only [reservedStreamIds, List.mem_cons, List.not_mem_nil, or_false, not_or] at hres
      rw [listedIds_console]
      refine ⟨?_, ?_, ?_⟩
      · rw [List.pairwise_cons]
        refine ⟨fun id hid => ?_, hasc⟩
        have := (hids id hid).1
        omega
      · intro id hid
        rcases List.mem_cons.mp hid with rfl | hid
        · omega
        · have := hids id hid
          omega
      · simp [hlen, consoleCount, hcons]
    · rename_i hcons
      rw [listedIds_none]
      have hcount : consoleCount a (i :: rest) = consoleCount a rest := by simp [consoleCount, hcons]
      rw [hcount]
      exact ih next

end Assigned

/-- Ascending numbers are no more than the set they are taken from has. -/
theorem ascending_length_le {ids : List Int} (hasc : ids.Pairwise (· < ·)) {s : Finset Int} (hs : ∀ id ∈ ids, id ∈ s) :
    ids.length ≤ s.card := by
  have hnodup : ids.Nodup := hasc.imp ne_of_lt
  rw [← List.toFinset_card_of_nodup hnodup]
  apply Finset.card_le_card
  intro id hid
  exact hs id (List.mem_toFinset.mp hid)

/-! ### What the readers refuse -/

theorem not_hostRefuses {id : Int} (h1 : 0x01 ≤ id) (h2 : id ≤ 0xfc) : ¬ HostRefuses id := by
  intro h
  have hempty := h ⟨fun _ => Tag.cleared, fun _ => false, 0⟩ []
  have hneg : ¬ id < 0 := by omega
  have hrange : ¬ (id ≤ 0 ∨ id > 0xff ∨ id = 0xfe ∨ id = 0xfd) := by omega
  simp [appendVirtiosoStream, hneg, hrange, virtiosoMaxPtyCount] at hempty

theorem hostRefuses_of_gt {id : Int} (h : 0xff < id) : HostRefuses id := by
  intro scan name
  have hneg : ¬ id < 0 := by omega
  have hrange : id ≤ 0 ∨ id > 0xff ∨ id = 0xfe ∨ id = 0xfd := by omega
  simp only [appendVirtiosoStream, if_neg hneg, if_pos hrange]

theorem mux_accepts {id : Int} (h1 : 0x01 ≤ id) (h2 : id ≤ 0xfc) : consoleMuxValidStreamId id = true := by
  simp only [consoleMuxValidStreamId, Bool.and_eq_true, decide_eq_true_eq]
  omega

/-! ### How large a composition may be -/

/-- A registry keeps what it promises if and only if the composition has at most 252
instances with a console. -/
theorem generated_ids_valid_iff {a : Assembly} {streams : List Stream} (h : componentInstances a = .ok streams) :
    IdsValid a streams ↔ consoleCount a a.instances ≤ 252 := by
  obtain ⟨rfl, -⟩ := componentInstances_streams h
  obtain ⟨hasc, -, hlen⟩ := listedIds_assigned a 1 a.instances
  constructor
  · intro hvalid
    have hle := ascending_length_le hasc (s := Finset.Icc 1 252) fun id hid => Finset.mem_Icc.mpr (hvalid.range id hid)
    rw [hlen] at hle
    simpa using hle
  · intro hcount
    have hrange : ∀ id ∈ listedIds (assignedFrom a 1 a.instances), 0x01 ≤ id ∧ id ≤ 0xfc := by
      intro id hid
      obtain ⟨hmem, hne⟩ := List.mem_filter.mp hid
      obtain ⟨s, hs, rfl⟩ := List.mem_map.mp hmem
      rw [assignedFrom_eq a (n := 0) (by omega)] at hs
      have hge := assigned_streamId_ge hs
      obtain ⟨-, -, -, -, -, -, hbound⟩ := mem_assigned hs
      have := hbound (by simp at hne; omega)
      omega
    refine ⟨assigned_entries a 1 a.instances, hasc, hrange, ?_⟩
    intro id hid
    obtain ⟨h1, h2⟩ := hrange id hid
    exact ⟨mux_accepts h1 h2, not_hostRefuses h1 h2⟩

/-- With one more than the identifiers of a byte, one of them is refused by both readers. -/
theorem listedIds_refused {a : Assembly} {instances : List Instance} (hcount : 253 < consoleCount a instances) :
    ∃ id ∈ listedIds (assignedFrom a 1 instances), 0xff < id := by
  obtain ⟨hasc, hids, hlen⟩ := listedIds_assigned a 1 instances
  by_contra hno
  have hle := ascending_length_le hasc (s := (Finset.Icc 1 255).erase 253 |>.erase 254) (by
    intro id hid
    have hlow := hids id hid
    have hhigh : ¬ 0xff < id := fun hgt => hno ⟨id, hid, hgt⟩
    simp only [Finset.mem_erase, Finset.mem_Icc]
    omega)
  rw [hlen] at hle
  have hcard : ((Finset.Icc (1 : Int) 255).erase 253 |>.erase 254).card = 253 := by decide +kernel
  omega

def writersOnly (n : Nat) : Assembly where
  componentTypes _ := some [⟨.putChar, ⟨codes "console_out", by decide⟩⟩]
  instances := (List.range n).map fun k => ⟨⟨codes "Writer", by decide⟩, ⟨List.replicate (k + 1) 0x63, by
    simp [isIdent, isIdentStart, isIdentRest, List.replicate_succ]⟩⟩
  connections := []

theorem writersOnly_console (n : Nat) : consoleCount (writersOnly n) (writersOnly n).instances = n := by
  have hall : ∀ i ∈ (writersOnly n).instances, (writersOnly n).hasConsole i = true := fun _ _ => rfl
  rw [consoleCount, List.countP_eq_length.mpr hall]
  simp [writersOnly]

theorem writersOnly_accepted {n : Nat} (hn : n ≠ 0) :
    componentInstances (writersOnly n) = .ok (assignedFrom (writersOnly n) 1 (writersOnly n).instances) := by
  apply componentInstances_accepted
  · simpa [writersOnly] using hn
  · simp only [writersOnly, List.map_map]
    apply List.Nodup.map _ List.nodup_range
    intro j k hjk
    have hlen := congrArg (fun i : Ident => i.text.length) hjk
    simpa using hlen

theorem generated_ids_of_three : IdsValid (writersOnly 3) (assignedFrom (writersOnly 3) 1 (writersOnly 3).instances) :=
  (generated_ids_valid_iff (writersOnly_accepted (by decide))).mpr (by rw [writersOnly_console]; decide)

/-- The 254th instance with a console gets an identifier above `0xff`. -/
theorem generated_ids_overflow : ∃ streams, componentInstances (writersOnly 254) = .ok streams ∧
    ¬ IdsValid (writersOnly 254) streams ∧ ∃ id ∈ listedIds streams, consoleMuxValidStreamId id = false ∧ HostRefuses id := by
  have hcount : 253 < consoleCount (writersOnly 254) (writersOnly 254).instances := by
    rw [writersOnly_console]
    decide
  obtain ⟨id, hid, hgt⟩ := listedIds_refused hcount
  refine ⟨_, writersOnly_accepted (by decide), ?_, id, hid, ?_, hostRefuses_of_gt hgt⟩
  · intro hvalid
    have := (hvalid.range id hid).2
    omega
  · simp only [consoleMuxValidStreamId, Bool.and_eq_false_iff, decide_eq_false_iff_not]
    omega

end VirtiosoMux.Links
