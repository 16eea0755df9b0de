import VirtiosoMux.Muxd.System

/-! # Who holds an identifier

An identifier is held from the `alloc` of a task to its `free`. Held identifiers are in
use in the pool, so a nonzero identifier has one holder. What `alloc` can return is all
that can ever be held or sent, whichever way the tasks interleave.
-/
namespace VirtiosoMux.Muxd

def Task.holds : Task → Option Byte
  | .allocated _ id => some id
  | .refused id => some id
  | .accepted _ id => some id
  | .reading _ id => some id
  | .sending _ id _ => some id
  | .closing _ id => some id
  | .releasing id => some id
  | _ => none

theorem Sends.holds {t next failed : Task} {f : Frame} (h : Sends t f next failed) :
    t.holds = some f.id ∧ next.holds = some f.id ∧ failed.holds = some f.id := by
  cases h <;> exact ⟨rfl, rfl, rfl⟩

theorem setTask_task (s : Daemon) (c : Nat) (t : Task) (c' : Nat) :
    (s.setTask c t).task c' = if c' = c then t else s.task c' := by
  by_cases h : c' = c
  · subst h; simp [Daemon.setTask]
  · simp [Daemon.setTask, h]

@[simp] theorem setTask_bytesRead (s : Daemon) (c : Nat) (t : Task) : (s.setTask c t).bytesRead = s.bytesRead := rfl

structure IdsGood (Good : Byte → Prop) (s : Daemon) : Prop where
  sound : s.pool.Sound
  held : ∀ c id, (s.task c).holds = some id → Good id
  sent : ∀ p ∈ s.channel, Good p.2.id

theorem IdsGood.start (Good : Byte → Prop) : IdsGood Good Daemon.start :=
  ⟨IdPool.new_sound, by simp [Daemon.start, Task.holds], by simp [Daemon.start]⟩

/-- Steps that hand out no identifier. -/
theorem IdsGood.keep {Good : Byte → Prop} {s s' : Daemon} (h : IdsGood Good s) {c : Nat} {t : Task}
    (hpool : s'.pool.Sound) (htask : s'.task = (s.setTask c t).task)
    (ht : ∀ id, t.holds = some id → (s.task c).holds = some id)
    (hch : ∀ p ∈ s'.channel, p ∈ s.channel ∨ (s.task c).holds = some p.2.id) : IdsGood Good s' := by
  refine ⟨hpool, ?_, ?_⟩
  · intro c' id hid
    rw [htask, setTask_task] at hid
    split at hid
    · exact h.held c id (ht id hid)
    · exact h.held c' id hid
  · intro p hp
    rcases hch p hp with hp | hp
    · exact h.sent p hp
    · exact h.held c _ hp

/-- If every permitted `alloc` returns a good identifier, all identifiers stay good. -/
theorem IdsGood.step {Good : Byte → Prop} {s s' : Daemon} {a : Action} (h : IdsGood Good s)
    (halloc : ∀ c id pool, a = .alloc c → s.pool.alloc = some (id, pool) → Good id)
    (hs : step s a = some s') : IdsGood Good s' := by
  cases step_cases hs with
  | enroll ht _ => exact h.keep h.sound rfl (by simp [Task.holds]) (fun p hp => .inl hp)
  | abandon ht => exact h.keep h.sound rfl (by simp [Task.holds]) (fun p hp => .inl hp)
  | @alloc c name id pool ht hp =>
    refine ⟨h.sound.alloc hp, ?_, h.sent⟩
    intro c' id' hid
    change ((s.setTask c (.allocated name id)).task c').holds = some id' at hid
    rw [setTask_task] at hid
    split at hid
    · cases hid
      exact halloc c _ pool rfl hp
    · exact h.held c' id' hid
  | accept ht => exact h.keep h.sound rfl (by simp [Task.holds, ht]) (fun p hp => .inl hp)
  | refuse ht => exact h.keep h.sound rfl (by simp [Task.holds, ht]) (fun p hp => .inl hp)
  | read ht _ => exact h.keep h.sound rfl (by simp [Task.holds, ht]) (fun p hp => .inl hp)
  | hangup ht => exact h.keep h.sound rfl (by simp [Task.holds, ht]) (fun p hp => .inl hp)
  | sent ht hf _ _ =>
    obtain ⟨h₁, h₂, -⟩ := hf.holds
    subst ht
    refine h.keep h.sound rfl (by rw [h₁, h₂]; exact fun _ h => h) ?_
    intro p hp
    rcases List.mem_append.mp hp with hp | hp
    · exact .inl hp
    · rw [List.mem_singleton.mp hp]
      exact .inr h₁
  | unsent ht hf _ =>
    obtain ⟨h₁, -, h₂⟩ := hf.holds
    subst ht
    exact h.keep h.sound rfl (by rw [h₁, h₂]; exact fun _ h => h) (fun p hp => .inl hp)
  | free ht => exact h.keep (h.sound.free _) rfl (by simp [Task.holds]) (fun p hp => .inl hp)
  | recv => exact ⟨h.sound, h.held, h.sent⟩
  | sinkWrite => exact ⟨h.sound, h.held, h.sent⟩
  | sinkFail => exact ⟨h.sound, h.held, h.sent⟩

theorem ids_good {Good : Byte → Prop} {ok : Daemon → Action → Prop}
    (halloc : ∀ s c id pool, s.pool.Sound → ok s (.alloc c) → s.pool.alloc = some (id, pool) → Good id)
    {as : List Action} {s : Daemon} (hr : RunsTo ok as s) : IdsGood Good s := by
  refine hr.invariant (fun s a s' h hok hs => h.step ?_ hs) (IdsGood.start Good)
  rintro c id pool rfl hp
  exact halloc s c id pool h.sound hok hp

/-- `alloc` returns zero or an identifier that an escape can select. -/
theorem alloc_selectable {p p' : IdPool} (hp : p.Sound) {id : Byte} (h : p.alloc = some (id, p')) :
    id = 0 ∨ ¬ Reserved id := by
  rcases alloc_spec hp.next with ⟨id', hf, he⟩ | ⟨-, he⟩
  · rw [he] at h
    cases h
    exact .inr (hp.not_reserved hf.unused)
  · rw [he] at h
    cases h
    exact .inl rfl

/-! ### One holder for each nonzero identifier -/

structure Owned (s : Daemon) : Prop where
  sound : s.pool.Sound
  used : ∀ c id, (s.task c).holds = some id → id ≠ 0 → s.pool.used id = true
  unique : ∀ c c' id, id ≠ 0 → (s.task c).holds = some id → (s.task c').holds = some id → c = c'

theorem Owned.start : Owned Daemon.start :=
  ⟨IdPool.new_sound, by simp [Daemon.start, Task.holds], by simp [Daemon.start, Task.holds]⟩

theorem Owned.keep {s s' : Daemon} (h : Owned s) {c : Nat} {t : Task} (hpool : s'.pool = s.pool)
    (htask : s'.task = (s.setTask c t).task) (ht : ∀ id, t.holds = some id → (s.task c).holds = some id) :
    Owned s' := by
  have hold : ∀ c' id, (s'.task c').holds = some id → (s.task c').holds = some id := by
    intro c' id hid
    rw [htask, setTask_task] at hid
    split at hid
    · rename_i hc
      exact hc ▸ ht id hid
    · exact hid
  refine ⟨hpool ▸ h.sound, ?_, ?_⟩
  · intro c' id hid hne
    rw [hpool]
    exact h.used c' id (hold c' id hid) hne
  · intro c₁ c₂ id hne h₁ h₂
    exact h.unique c₁ c₂ id hne (hold _ _ h₁) (hold _ _ h₂)

/-- The identifier `alloc` hands out was not in use, so nobody held it. -/
theorem Owned.alloc {s : Daemon} (h : Owned s) {c : Nat} {name : Bytes} {id : Byte} {pool : IdPool}
    (hp : s.pool.alloc = some (id, pool)) : Owned { s.setTask c (.allocated name id) with pool := pool } := by
  have hpool : id ≠ 0 → s.pool.used id = false ∧ pool.used = Function.update s.pool.used id true := by
    intro hne
    rcases alloc_spec h.sound.next with ⟨id', hf, he⟩ | ⟨-, he⟩
    · rw [he] at hp
      cases hp
      exact ⟨hf.unused, rfl⟩
    · rw [he] at hp
      cases hp
      exact absurd rfl hne
  have hzero : id = 0 → pool = s.pool := by
    intro h0
    rcases alloc_spec h.sound.next with ⟨id', hf, he⟩ | ⟨-, he⟩
    · rw [he] at hp
      cases hp
      exact absurd h0 (hf.ne_zero h.sound.next)
    · rw [he] at hp
      cases hp
      rfl
  have hkeeps : ∀ b, s.pool.used b = true → pool.used b = true := by
    intro b hb
    by_cases h0 : id = 0
    · rw [hzero h0]; exact hb
    · rw [(hpool h0).2]
      by_cases hbi : b = id
      · rw [hbi]; simp
      · simpa [Function.update_of_ne hbi] using hb
  have hfresh : ∀ c', (s.task c').holds = some id → id = 0 := by
    intro c' hc'
    by_contra hne
    rw [h.used c' id hc' hne] at hpool
    exact absurd (hpool hne).1 (by simp)
  refine ⟨h.sound.alloc hp, ?_, ?_⟩
  · intro c' id' hid hne
    change ((s.setTask c (.allocated name id)).task c').holds = some id' at hid
    rw [setTask_task] at hid
    split at hid
    · cases hid
      change pool.used id = true
      rw [(hpool hne).2]
      simp
    · exact hkeeps id' (h.used c' id' hid hne)
  · intro c₁ c₂ id' hne h₁ h₂
    change ((s.setTask c (.allocated name id)).task c₁).holds = some id' at h₁
    change ((s.setTask c (.allocated name id)).task c₂).holds = some id' at h₂
    rw [setTask_task] at h₁ h₂
    split at h₁ <;> split at h₂
    · rename_i e₁ e₂
      exact e₁.trans e₂.symm
    · cases h₁
      exact absurd (hfresh c₂ h₂) hne
    · cases h₂
      exact absurd (hfresh c₁ h₁) hne
    · exact h.unique c₁ c₂ id' hne h₁ h₂

/-- A freed identifier had no holder but the task that frees it. -/
theorem Owned.free {s : Daemon} (h : Owned s) {c : Nat} {id : Byte} (ht : (s.task c).holds = some id) :
    Owned { s.setTask c .finished with pool := s.pool.free id } := by
  have hold : ∀ c' id', ((s.setTask c .finished).task c').holds = some id' → c' ≠ c ∧ (s.task c').holds = some id' := by
    intro c' id' hid
    rw [setTask_task] at hid
    split at hid
    · cases hid
    · rename_i hc
      exact ⟨hc, hid⟩
  refine ⟨h.sound.free id, ?_, ?_⟩
  · intro c' id' hheld hne
    obtain ⟨hc, hid⟩ := hold c' id' hheld
    have hother : id' ≠ id := fun heq => hc (h.unique c' c id' hne hid (heq ▸ ht))
    change (s.pool.free id).used id' = true
    unfold IdPool.free
    split
    · simpa [Function.update_of_ne hother] using h.used c' id' hid hne
    · exact h.used c' id' hid hne
  · intro c₁ c₂ id' hne h₁ h₂
    exact h.unique c₁ c₂ id' hne (hold _ _ h₁).2 (hold _ _ h₂).2

theorem Owned.step {s s' : Daemon} {a : Action} (h : Owned s) (hs : step s a = some s') : Owned s' := by
  cases step_cases hs with
  | enroll ht _ => exact h.keep rfl rfl (by simp [Task.holds])
  | abandon ht => exact h.keep rfl rfl (by simp [Task.holds])
  | alloc ht hp => exact h.alloc hp
  | accept ht => exact h.keep rfl rfl (by simp [Task.holds, ht])
  | refuse ht => exact h.keep rfl rfl (by simp [Task.holds, ht])
  | read ht _ => exact h.keep rfl rfl (by simp [Task.holds, ht])
  | hangup ht => exact h.keep rfl rfl (by simp [Task.holds, ht])
  | sent ht hf _ _ =>
    obtain ⟨h₁, h₂, -⟩ := hf.holds
    exact h.keep rfl rfl (by rw [ht, h₁, h₂]; exact fun _ h => h)
  | unsent ht hf _ =>
    obtain ⟨h₁, -, h₂⟩ := hf.holds
    exact h.keep rfl rfl (by rw [ht, h₁, h₂]; exact fun _ h => h)
  | free ht =>
    refine h.free ?_
    rcases ht with ht | ht <;> rw [ht] <;> rfl
  | recv => exact ⟨h.sound, h.used, h.unique⟩
  | sinkWrite => exact ⟨h.sound, h.used, h.unique⟩
  | sinkFail => exact ⟨h.sound, h.used, h.unique⟩

theorem owned {ok : Daemon → Action → Prop} {as : List Action} {s : Daemon} (hr : RunsTo ok as s) : Owned s :=
  hr.invariant (fun _ _ _ h _ hs => h.step hs) Owned.start

end VirtiosoMux.Muxd
