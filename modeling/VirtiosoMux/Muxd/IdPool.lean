import VirtiosoMux.Protocol.Codes

/-! # The identifier pool of `virtioso-muxd`

The cursor walks the 255 nonzero identifiers in circular order and stops at the first
one not in use. Which identifier that is, and that the walk ends, is determined by the
position of the cursor and the set of identifiers in use.
-/
namespace VirtiosoMux.Muxd

structure IdPool where
  next : Byte
  used : Byte → Bool

def IdPool.new : IdPool :=
  ⟨1, fun id => id == 0x00 || id == 0xfd || id == 0xfe⟩

/-- `wrapping_add(1)` with zero skipped. -/
def advance (next : Byte) : Byte := if next + 1 = 0 then 1 else next + 1

/-- The loop of `alloc`, which leaves by one of its two returns. `none` stands for a
loop still running after `fuel` rounds. -/
def allocLoop : Nat → Byte → IdPool → Option (Byte × IdPool)
  | 0, _, _ => none
  | fuel + 1, start, p =>
    let id := p.next
    let p := { p with next := advance p.next }
    if p.used id = false then some (id, { p with used := Function.update p.used id true })
    else if p.next = start then some (0, p)
    else allocLoop fuel start p

def IdPool.alloc (p : IdPool) : Option (Byte × IdPool) := allocLoop 256 p.next p

def IdPool.free (p : IdPool) (id : Byte) : IdPool :=
  if id ≠ 0x00 ∧ id ≠ 0xfd ∧ id ≠ 0xfe then { p with used := Function.update p.used id false } else p

theorem toNat_pos {b : Byte} (h : b ≠ 0) : 0 < b.toNat := by
  rcases Nat.eq_zero_or_pos b.toNat with h0 | h0
  · exact absurd (UInt8.toNat_inj.mp (h0.trans UInt8.toNat_zero.symm)) h
  · exact h0

theorem advance_toNat {n : Byte} (h : n ≠ 0) : (advance n).toNat = n.toNat % 255 + 1 := by
  have hpos := toNat_pos h
  have hlt := n.toNat_lt
  have hadd : (n + 1).toNat = (n.toNat + 1) % 256 := by simp [UInt8.toNat_add]
  unfold advance
  split
  · rename_i h0
    have : (n + 1).toNat = 0 := by rw [h0]; rfl
    have : (1 : Byte).toNat = 1 := rfl
    omega
  · rename_i h0
    have := toNat_pos h0
    omega

theorem advance_ne_zero {n : Byte} (h : n ≠ 0) : advance n ≠ 0 := by
  intro h0
  have := advance_toNat h
  rw [h0, UInt8.toNat_zero] at this
  omega

/-- The identifier `k` places after `n` in the circular order. -/
def candidate (n : Byte) : Nat → Byte
  | 0 => n
  | k + 1 => advance (candidate n k)

theorem candidate_ne_zero {n : Byte} (h : n ≠ 0) (k : Nat) : candidate n k ≠ 0 := by
  induction k with
  | zero => exact h
  | succ k ih => exact advance_ne_zero ih

theorem candidate_toNat {n : Byte} (h : n ≠ 0) (k : Nat) :
    (candidate n k).toNat = (n.toNat - 1 + k) % 255 + 1 := by
  have hpos := toNat_pos h
  have hlt := n.toNat_lt
  induction k with
  | zero => simp only [candidate]; omega
  | succ k ih =>
    rw [candidate, advance_toNat (candidate_ne_zero h k), ih]
    omega

/-- Every nonzero identifier is a candidate. -/
theorem exists_candidate {n : Byte} (h : n ≠ 0) {b : Byte} (hb : b ≠ 0) : ∃ k < 255, candidate n k = b := by
  have hpos := toNat_pos h
  have hbpos := toNat_pos hb
  have hlt := n.toNat_lt
  have hblt := b.toNat_lt
  refine ⟨(b.toNat + 255 - n.toNat) % 255, by omega, UInt8.toNat_inj.mp ?_⟩
  rw [candidate_toNat h]
  omega

/-- The loop from the `k`-th candidate on, when the earlier ones are in use. -/
theorem allocLoop_spec {start : Byte} (hs : start ≠ 0) (used : Byte → Bool) (fuel k : Nat) (hk : k < 255)
    (hfuel : 255 ≤ fuel + k) (hbefore : ∀ j < k, used (candidate start j) = true) :
    (∃ j < 255, used (candidate start j) = false ∧ (∀ i < j, used (candidate start i) = true) ∧
      allocLoop fuel start ⟨candidate start k, used⟩ =
        some (candidate start j, ⟨candidate start (j + 1), Function.update used (candidate start j) true⟩)) ∨
    ((∀ j < 255, used (candidate start j) = true) ∧
      allocLoop fuel start ⟨candidate start k, used⟩ = some (0, ⟨start, used⟩)) := by
  induction fuel generalizing k with
  | zero => omega
  | succ fuel ih =>
    have hunfold : allocLoop (fuel + 1) start ⟨candidate start k, used⟩ =
        if used (candidate start k) = false then
          some (candidate start k, ⟨candidate start (k + 1), Function.update used (candidate start k) true⟩)
        else if candidate start (k + 1) = start then some (0, ⟨candidate start (k + 1), used⟩)
        else allocLoop fuel start ⟨candidate start (k + 1), used⟩ := rfl
    rw [hunfold]
    by_cases hfree : used (candidate start k) = false
    · exact .inl ⟨k, hk, hfree, hbefore, if_pos hfree⟩
    · have hused : ∀ j < k + 1, used (candidate start j) = true := by
        intro j hj
        rcases Nat.lt_succ_iff_lt_or_eq.mp hj with hj | rfl
        · exact hbefore j hj
        · simpa using hfree
      rw [if_neg hfree]
      by_cases hwrap : candidate start (k + 1) = start
      · -- back at the start: the 255 candidates have all been visited
        have hlast : k = 254 := by
          have hn := candidate_toNat hs (k + 1)
          rw [hwrap] at hn
          have := toNat_pos hs
          have := start.toNat_lt
          omega
        subst hlast
        exact .inr ⟨hused, by rw [if_pos hwrap, hwrap]⟩
      · have hk' : k + 1 < 255 := by
          by_contra hge
          have hlast : k = 254 := by omega
          subst hlast
          refine hwrap (UInt8.toNat_inj.mp ?_)
          have : (candidate start (254 + 1)).toNat = (start.toNat - 1 + 255) % 255 + 1 := candidate_toNat hs 255
          have := toNat_pos hs
          have := start.toNat_lt
          omega
        rw [if_neg hwrap]
        exact ih (k + 1) hk' (by omega) hused

/-- `id` is the first identifier not in use at or after the cursor. -/
def IdPool.NextFree (p : IdPool) (id : Byte) : Prop :=
  ∃ j < 255, id = candidate p.next j ∧ p.used id = false ∧ ∀ i < j, p.used (candidate p.next i) = true

/-- `alloc` returns the first free identifier and moves the cursor behind it, or returns
zero and changes nothing when all identifiers are in use. -/
theorem alloc_spec {p : IdPool} (hp : p.next ≠ 0) :
    (∃ id, p.NextFree id ∧ p.alloc = some (id, ⟨advance id, Function.update p.used id true⟩)) ∨
    ((∀ b, b ≠ 0 → p.used b = true) ∧ p.alloc = some (0, p)) := by
  rcases allocLoop_spec hp p.used 256 0 (by omega) (by omega) (by simp) with ⟨j, hj, hfree, hb, he⟩ | ⟨hall, he⟩
  · exact .inl ⟨candidate p.next j, ⟨j, hj, rfl, hfree, hb⟩, he⟩
  · refine .inr ⟨?_, he⟩
    intro b hb
    obtain ⟨k, hk, rfl⟩ := exists_candidate hp hb
    exact hall k hk

theorem IdPool.NextFree.ne_zero {p : IdPool} (hp : p.next ≠ 0) {id : Byte} (h : p.NextFree id) : id ≠ 0 := by
  obtain ⟨j, -, rfl, -, -⟩ := h
  exact candidate_ne_zero hp j

theorem IdPool.NextFree.unused {p : IdPool} {id : Byte} (h : p.NextFree id) : p.used id = false := by
  obtain ⟨-, -, -, hu, -⟩ := h
  exact hu

theorem IdPool.NextFree.unique {p : IdPool} {a b : Byte} (ha : p.NextFree a) (hb : p.NextFree b) : a = b := by
  obtain ⟨i, -, rfl, hfi, hbi⟩ := ha
  obtain ⟨j, -, rfl, hfj, hbj⟩ := hb
  rcases Nat.lt_trichotomy i j with h | rfl | h
  · rw [hbj i h] at hfi; cases hfi
  · rfl
  · rw [hbi j h] at hfj; cases hfj

/-- Reserved identifiers are never handed out and the cursor is never zero. -/
structure IdPool.Sound (p : IdPool) : Prop where
  next : p.next ≠ 0
  zero : p.used 0x00 = true
  control : p.used 0xfd = true
  escape : p.used 0xfe = true

theorem IdPool.new_sound : IdPool.new.Sound := ⟨by decide, rfl, rfl, rfl⟩

theorem IdPool.Sound.not_reserved {p : IdPool} (hp : p.Sound) {id : Byte} (h : p.used id = false) : ¬ Reserved id := by
  rintro (rfl | rfl | rfl)
  · rw [hp.zero] at h; cases h
  · rw [hp.control] at h; cases h
  · rw [hp.escape] at h; cases h

theorem IdPool.Sound.alloc {p : IdPool} (hp : p.Sound) {id : Byte} {p' : IdPool} (h : p.alloc = some (id, p')) :
    p'.Sound := by
  rcases alloc_spec hp.next with ⟨id', hf, he⟩ | ⟨-, he⟩
  · rw [he] at h
    cases h
    obtain ⟨h0, h1, h2⟩ := not_reserved_iff.mp (hp.not_reserved hf.unused)
    refine ⟨advance_ne_zero (hf.ne_zero hp.next), ?_, ?_, ?_⟩
    · exact (Function.update_of_ne (Ne.symm h0) _ _).trans hp.zero
    · exact (Function.update_of_ne (Ne.symm h1) _ _).trans hp.control
    · exact (Function.update_of_ne (Ne.symm h2) _ _).trans hp.escape
  · rw [he] at h
    cases h
    exact hp

theorem IdPool.Sound.free {p : IdPool} (hp : p.Sound) (id : Byte) : (p.free id).Sound := by
  unfold IdPool.free
  split
  · rename_i h
    refine ⟨hp.next, ?_, ?_, ?_⟩
    · exact (Function.update_of_ne (Ne.symm h.1) _ _).trans hp.zero
    · exact (Function.update_of_ne (Ne.symm h.2.1) _ _).trans hp.control
    · exact (Function.update_of_ne (Ne.symm h.2.2) _ _).trans hp.escape
  · exact hp

end VirtiosoMux.Muxd
