import Mathlib.Data.Finset.Basic
import VirtiosoMux.Library.Runs
import VirtiosoMux.Muxd.IdPool

/-! # Histories of the identifier pool

A history is a sequence of `alloc` and `free` calls together with the set of
identifiers handed out and not yet given back. The pool knows this set only through
its table `used`, which also holds the three reserved entries.
-/
namespace VirtiosoMux.Muxd
open Machine

inductive PoolCall
  | alloc
  | free (id : Byte)

structure PoolHistory where
  pool : IdPool
  held : Finset Byte

def PoolHistory.start : PoolHistory := ⟨.new, ∅⟩

/-- A zero returned by `alloc` is not an identifier and is not held. -/
def poolStep (s : PoolHistory) : PoolCall → Option PoolHistory
  | .alloc => s.pool.alloc.map fun r => ⟨r.2, if r.1 = 0 then s.held else insert r.1 s.held⟩
  | .free id => some ⟨s.pool.free id, s.held.erase id⟩

def freesHeld (s : PoolHistory) (call : PoolCall) : Prop :=
  ∀ id, call = .free id → id ∈ s.held ∨ id = 0

structure PoolHistory.Tracked (s : PoolHistory) : Prop where
  next : s.pool.next ≠ 0
  used : ∀ id, s.pool.used id = true ↔ Reserved id ∨ id ∈ s.held
  held : ∀ id ∈ s.held, ¬ Reserved id

theorem PoolHistory.start_tracked : start.Tracked := by
  constructor
  · exact IdPool.new_sound.next
  · intro id
    simp [start, IdPool.new, Reserved, or_assoc]
  · intro id h
    cases h

theorem PoolHistory.Tracked.unused {s : PoolHistory} (h : s.Tracked) {id : Byte} (hu : s.pool.used id = false) :
    ¬ Reserved id ∧ id ∉ s.held := by
  rw [← not_or, ← h.used id, hu]
  exact Bool.false_ne_true

theorem reserved_zero : Reserved 0 := .inl rfl

/-- All identifiers are in use exactly when every identifier that can be held is held. -/
theorem PoolHistory.Tracked.full_iff {s : PoolHistory} (h : s.Tracked) :
    (∀ id, id ≠ 0 → s.pool.used id = true) ↔ ∀ id, ¬ Reserved id → id ∈ s.held := by
  constructor
  · intro hall id hr
    have hne : id ≠ 0 := fun h0 => hr (h0 ▸ reserved_zero)
    exact ((h.used id).mp (hall id hne)).resolve_left hr
  · intro hall id _
    apply (h.used id).mpr
    by_cases hr : Reserved id
    · exact .inl hr
    · exact .inr (hall id hr)

/-- What one `alloc` returns and leaves, in terms of the held identifiers. -/
theorem PoolHistory.Tracked.alloc {s : PoolHistory} (h : s.Tracked) :
    (∃ id, ¬ Reserved id ∧ id ∉ s.held ∧
      s.pool.alloc = some (id, ⟨advance id, Function.update s.pool.used id true⟩)) ∨
    ((∀ id, ¬ Reserved id → id ∈ s.held) ∧ s.pool.alloc = some (0, s.pool)) := by
  rcases alloc_spec h.next with ⟨id, hf, he⟩ | ⟨hall, he⟩
  · obtain ⟨hr, hh⟩ := h.unused hf.unused
    exact .inl ⟨id, hr, hh, he⟩
  · exact .inr ⟨h.full_iff.mp hall, he⟩

theorem PoolHistory.Tracked.hold {s : PoolHistory} (h : s.Tracked) {id : Byte} (hr : ¬ Reserved id) :
    PoolHistory.Tracked ⟨⟨advance id, Function.update s.pool.used id true⟩, insert id s.held⟩ := by
  constructor
  · exact advance_ne_zero fun h0 => hr (h0 ▸ reserved_zero)
  · intro b
    by_cases hb : b = id
    · subst hb
      simp
    · simp [h.used b, hb]
  · intro b hb
    rcases Finset.mem_insert.mp hb with rfl | hb
    · exact hr
    · exact h.held b hb

theorem PoolHistory.Tracked.free {s : PoolHistory} (h : s.Tracked) {id : Byte} (hid : id ∈ s.held ∨ id = 0) :
    PoolHistory.Tracked ⟨s.pool.free id, s.held.erase id⟩ := by
  rcases hid with hid | rfl
  · have hr := h.held id hid
    have hfree : s.pool.free id = { s.pool with used := Function.update s.pool.used id false } :=
      if_pos (not_reserved_iff.mp hr)
    constructor
    · rw [hfree]
      exact h.next
    · intro b
      rw [hfree]
      by_cases hb : b = id
      · subst hb
        simp [hr]
      · simp [h.used b, hb]
    · intro b hb
      exact h.held b (Finset.mem_of_mem_erase hb)
  · -- the daemon's connections that never had an identifier give back zero
    have hzero : (0 : Byte) ∉ s.held := fun h0 => h.held 0 h0 reserved_zero
    have hfree : s.pool.free 0 = s.pool := if_neg fun hne => hne.1 rfl
    rw [hfree, Finset.erase_eq_of_notMem hzero]
    exact h

theorem PoolHistory.Tracked.step {s t : PoolHistory} {call : PoolCall} (h : s.Tracked) (hok : freesHeld s call)
    (hs : poolStep s call = some t) : t.Tracked := by
  cases call with
  | alloc =>
    rcases h.alloc with ⟨id, hr, -, he⟩ | ⟨-, he⟩
    · have hne : id ≠ 0 := fun h0 => hr (h0 ▸ reserved_zero)
      simp only [poolStep, he, Option.map_some, if_neg hne, Option.some.injEq] at hs
      exact hs ▸ h.hold hr
    · simp only [poolStep, he, Option.map_some, if_pos, Option.some.injEq] at hs
      exact hs ▸ h
  | free id =>
    simp only [poolStep, Option.some.injEq] at hs
    exact hs ▸ h.free (hok id rfl)

theorem pool_tracked {calls : List PoolCall} {s : PoolHistory} (hr : Runs poolStep freesHeld .start calls s) :
    s.Tracked :=
  hr.invariant (fun _ _ _ h hok hs => h.step hok hs) PoolHistory.start_tracked

/-- After any history the next `alloc` returns: zero exactly when the 253 identifiers that
can be held are all held, and otherwise one of them that is not. -/
theorem pool_never_double_allocates {calls : List PoolCall} {s : PoolHistory}
    (hr : Runs poolStep freesHeld .start calls s) :
    s.pool.next ≠ 0 ∧
    (∀ id, s.pool.used id = true ↔ Reserved id ∨ id ∈ s.held) ∧
    ∃ id p, s.pool.alloc = some (id, p) ∧
      (id = 0 ↔ ∀ b, ¬ Reserved b → b ∈ s.held) ∧
      (id ≠ 0 → ¬ Reserved id ∧ id ∉ s.held) := by
  have ht := pool_tracked hr
  refine ⟨ht.next, ht.used, ?_⟩
  rcases ht.alloc with ⟨id, hres, hheld, he⟩ | ⟨hall, he⟩
  · refine ⟨id, _, he, ?_, fun _ => ⟨hres, hheld⟩⟩
    constructor
    · rintro rfl
      exact absurd reserved_zero hres
    · intro hall
      exact absurd (hall id hres) hheld
  · exact ⟨0, _, he, ⟨fun _ => hall, fun _ => rfl⟩, fun h0 => absurd rfl h0⟩

theorem pool_history_realised : ∃ s, Runs poolStep freesHeld .start [.alloc, .alloc, .free 1, .free 0] s ∧
    s.held = {2} ∧ s.pool.next ≠ 0 := by
  have h₁ : Runs poolStep freesHeld .start ([] ++ [.alloc]) _ := .snoc (.refl _) (by simp [freesHeld]) rfl
  have h₂ : Runs poolStep freesHeld .start ([] ++ [.alloc] ++ [.alloc]) _ := .snoc h₁ (by simp [freesHeld]) rfl
  have h₃ := Runs.snoc (a := .free 1) h₂ (by rintro id ⟨⟩; exact .inl (by decide)) rfl
  have h₄ := Runs.snoc (a := .free 0) h₃ (by rintro id ⟨⟩; exact .inr rfl) rfl
  exact ⟨_, h₄, by decide, (pool_never_double_allocates h₄).1⟩

end VirtiosoMux.Muxd
