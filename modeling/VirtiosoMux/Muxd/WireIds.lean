import VirtiosoMux.Muxd.Traces

/-! # Identifiers on the wire

The protocol's identifiers are 0x01 to 0xfc. The pool reserves 0x00, 0xfd and 0xfe, so
0xff is handed out when the cursor passes it, and a pool without a free identifier
answers zero to a task that goes on as if it had one.
-/
namespace VirtiosoMux.Muxd

def WireId (id : Byte) : Prop := 0x01 ≤ id ∧ id ≤ 0xfc
instance (id : Byte) : Decidable (WireId id) := inferInstanceAs (Decidable (_ ∧ _))

theorem wireId_iff {id : Byte} : WireId id ↔ 1 ≤ id.toNat ∧ id.toNat ≤ 252 := by
  simp only [WireId, UInt8.le_iff_toNat_le]
  exact Iff.rfl

/-- The cursor meets a free wire identifier before it meets a free 0xff. -/
def IdPool.LowFree (p : IdPool) : Prop :=
  (∃ id, p.next ≤ id ∧ WireId id ∧ p.used id = false) ∨
  (p.used 0xff = true ∧ ∃ id, WireId id ∧ p.used id = false)

/-- The number of places from the cursor to an identifier. -/
theorem candidate_index {n : Byte} (hn : n ≠ 0) {i : Nat} (hi : i < 255) {b : Byte} (hb : candidate n i = b) :
    (i = b.toNat - n.toNat ∧ n.toNat ≤ b.toNat) ∨ (i + n.toNat = b.toNat + 255 ∧ b.toNat < n.toNat) := by
  have h := candidate_toNat hn i
  rw [hb] at h
  have := toNat_pos hn
  have := n.toNat_lt
  have := b.toNat_lt
  omega

/-- What the search returns is a wire identifier exactly when one is met before 0xff. -/
theorem wireId_iff_lowFree {p : IdPool} (hp : p.Sound) {id : Byte} (h : p.NextFree id) : WireId id ↔ p.LowFree := by
  have hid0 := h.ne_zero hp.next
  obtain ⟨j, hj, hcand, hfree, hbefore⟩ := h
  have hn := toNat_pos hp.next
  have hnlt := p.next.toNat_lt
  have hff : (0xff : Byte).toNat = 255 := rfl
  -- an identifier met earlier than `id` is in use
  have earlier : ∀ b : Byte, b ≠ 0 → p.used b = false → ∃ k, candidate p.next k = b ∧ k < 255 ∧ j ≤ k := by
    intro b hb hu
    obtain ⟨k, hk, hkb⟩ := exists_candidate hp.next hb
    refine ⟨k, hkb, hk, ?_⟩
    by_contra hlt
    have hused := hbefore k (by omega)
    rw [hkb, hu] at hused
    cases hused
  have hjd := candidate_index hp.next hj hcand.symm
  constructor
  · intro hw
    have hwn := wireId_iff.mp hw
    by_cases hle : p.next ≤ id
    · exact .inl ⟨id, hle, hw, hfree⟩
    · -- the cursor has wrapped, so it passed 0xff
      refine .inr ⟨?_, id, hw, hfree⟩
      by_contra hu
      obtain ⟨k, hkb, hk, hjk⟩ := earlier 0xff (by decide) (by simpa using hu)
      have hkd := candidate_index hp.next hk hkb
      rw [UInt8.le_iff_toNat_le] at hle
      omega
  · intro hlow
    obtain ⟨h0, h1, h2⟩ := not_reserved_iff.mp (hp.not_reserved hfree)
    have hsplit : WireId id ∨ id = 0xff := by
      have hpos := toNat_pos hid0
      have hlt := id.toNat_lt
      have e1 : id.toNat ≠ 253 := fun e => h1 (UInt8.toNat_inj.mp e)
      have e2 : id.toNat ≠ 254 := fun e => h2 (UInt8.toNat_inj.mp e)
      by_cases hle : id.toNat ≤ 252
      · exact .inl (wireId_iff.mpr ⟨hpos, hle⟩)
      · exact .inr (UInt8.toNat_inj.mp (by rw [hff]; omega))
    rcases hsplit with hw | rfl
    · exact hw
    · rcases hlow with ⟨b, hle, hw, hu⟩ | ⟨hu, -⟩
      · have hwn := wireId_iff.mp hw
        obtain ⟨k, hkb, hk, hjk⟩ := earlier b (by rintro rfl; exact absurd hw (by decide)) hu
        have hkd := candidate_index hp.next hk hkb
        rw [UInt8.le_iff_toNat_le] at hle
        omega
      · rw [hu] at hfree
        cases hfree

/-- `alloc` returns a wire identifier if and only if the pool meets the condition. -/
theorem alloc_wireId_iff {p p' : IdPool} (hp : p.Sound) {id : Byte} (h : p.alloc = some (id, p')) :
    WireId id ↔ p.LowFree := by
  rcases alloc_spec hp.next with ⟨id', hf, he⟩ | ⟨hall, he⟩
  · rw [he] at h
    cases h
    exact wireId_iff_lowFree hp hf
  · rw [he] at h
    cases h
    constructor
    · intro hw
      exact absurd hw (by decide)
    · have hno : ∀ b, WireId b → p.used b ≠ false := by
        intro b hw hu
        rw [hall b (by rintro rfl; exact absurd hw (by decide))] at hu
        cases hu
      rintro (⟨b, -, hw, hu⟩ | ⟨-, b, hw, hu⟩) <;> exact absurd hu (hno b hw)

def allocsLow (s : Daemon) (a : Action) : Prop := ∀ c, a = .alloc c → s.pool.LowFree

/-- Where every `alloc` meets the condition, every frame sent carries a wire identifier. -/
theorem wire_ids_valid {as : List Action} {s : Daemon} (hr : RunsTo allocsLow as s) :
    ∀ p ∈ s.channel, WireId p.2.id := by
  have hgood : IdsGood WireId s := by
    refine ids_good ?_ hr
    intro s c id pool hp hok h
    exact (alloc_wireId_iff hp h).mpr (hok c rfl)
  exact hgood.sent

/-- Two clients, the second of which enrolls while the first one is there. -/
theorem wire_ids_valid_two : ∃ as s, RunsTo allocsLow as s ∧
    s.channel = [(0, .connected 1 [0x61]), (1, .connected 2 [0x62])] ∧ ∀ p ∈ s.channel, WireId p.2.id := by
  have hfree : IdPool.new.LowFree := .inl ⟨1, by decide, by decide, rfl⟩
  have hnext : IdPool.LowFree ⟨2, Function.update IdPool.new.used 1 true⟩ := .inl ⟨2, by decide, by decide, rfl⟩
  have h₁ : RunsTo allocsLow [.enroll 0 [0x61], .enroll 1 [0x62]] _ :=
    Machine.runs_of_foldlM (by simp [allocsLow]) rfl
  have h₂ := Machine.Runs.snoc (a := .alloc 0) h₁ (fun _ _ => hfree) rfl
  have h₃ := Machine.Runs.snoc (a := .alloc 1) h₂ (fun _ _ => hnext) rfl
  have h₄ := h₃.trans (show Machine.Runs step allocsLow _ [.reply 0 true, .send 0, .reply 1 true, .send 1] _ from
    Machine.runs_of_foldlM (by simp [allocsLow]) rfl)
  exact ⟨_, _, h₄, rfl, wire_ids_valid h₄⟩

/-- After 252 passing clients the cursor stands before the reserved identifiers, and the
next client is announced on 0xff. -/
theorem wire_id_ff : ∃ s, RunsTo anyStep (passings 0 252 ++ announcing 252 [0x61]) s ∧
    ¬ ∀ p ∈ s.channel, WireId p.2.id := by
  obtain ⟨task, hkeep, hruns⟩ := passings_runs 252 (s := Daemon.start) (c := 0) (fun _ _ => rfl) IdPool.new_sound
    (by decide +kernel)
  have hnext : candidate Daemon.start.pool.next 252 = 0xfd := by decide +kernel
  rw [hnext] at hruns
  have halloc : IdPool.alloc ⟨0xfd, Daemon.start.pool.used⟩ =
      some (0xff, ⟨1, Function.update Daemon.start.pool.used 0xff true⟩) := rfl
  refine ⟨_, hruns.trans (announcing_runs (hkeep 252 (by omega)) (by decide) rfl (by simp [Daemon.start, channelCapacity]) halloc), ?_⟩
  intro h
  exact absurd (h (252, .connected 0xff (fromUtf8Lossy [0x61])) (by simp)) (by decide)

end VirtiosoMux.Muxd
