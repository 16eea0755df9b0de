import VirtiosoMux.Muxd.Ownership

/-! # Session brackets in the frame channel

Seen through one identifier, the channel is a sequence of brackets: a CONNECTED record,
the data frames of one client, a DISCONNECTED record. The client of a closed bracket is
past its last send; the client of the open one is in its read loop, and while the sink
lives it is the only task there with this identifier.
-/
namespace VirtiosoMux.Muxd

structure Bracket where
  client : Nat
  name : Bytes
  chunks : List Bytes

def Bracket.opened (id : Byte) (b : Bracket) : List (Nat × Frame) :=
  (b.client, .connected id b.name) :: b.chunks.map (fun p => (b.client, .data id p))

def Bracket.closed (id : Byte) (b : Bracket) : List (Nat × Frame) :=
  b.opened id ++ [(b.client, .disconnected id b.name)]

def Frame.decoded : Frame → Bytes
  | .data id payload => framePayload (Frame.data id payload).encode
  | _ => []

@[simp] theorem decoded_data (id : Byte) (p : Bytes) : (Frame.data id p).decoded = p := by
  simp [Frame.decoded, Frame.encode, encodeDataFrame_eq, framePayload_frameBytes]

def decodedPayloads (frames : List (Nat × Frame)) : Bytes := frames.flatMap (fun p => p.2.decoded)

@[simp] theorem decoded_opened (id : Byte) (b : Bracket) : decodedPayloads (b.opened id) = b.chunks.flatten := by
  have hc : (Frame.connected id b.name).decoded = [] := rfl
  simp [decodedPayloads, Bracket.opened, hc, List.flatMap_map, List.flatMap_id']

def Daemon.framesOf (s : Daemon) (id : Byte) : List (Nat × Frame) := s.channel.filter (fun p => p.2.id == id)

theorem framesOf_append {s s' : Daemon} {c : Nat} {f : Frame} (h : s'.channel = s.channel ++ [(c, f)]) (id : Byte) :
    s'.framesOf id = s.framesOf id ++ (if f.id = id then [(c, f)] else []) := by
  by_cases hid : f.id = id <;> simp [Daemon.framesOf, h, hid]

/-! ### The invariant -/

def Task.Done : Task → Prop
  | .releasing _ => True
  | .finished => True
  | _ => False

def Task.Fresh : Task → Prop
  | .enrolling => True
  | .named _ => True
  | .allocated _ _ => True
  | .refused _ => True
  | .accepted _ _ => True
  | _ => False

def Task.active : Task → Option (Bytes × Byte)
  | .reading name id => some (name, id)
  | .sending name id _ => some (name, id)
  | .closing name id => some (name, id)
  | _ => none

/-- Where the client of an open bracket stands, with the bytes it has read but not sent.
Once the sink is gone a chunk can be lost and the task still runs to its end. -/
inductive Pending (name : Bytes) (id : Byte) : Bool → Task → Bytes → Prop
  | reading (r : Bool) : Pending name id r (.reading name id) []
  | sending (r : Bool) (chunk : Bytes) (h : chunk.length ≤ maxRead) :
      Pending name id r (.sending name id chunk) chunk
  | closing (r : Bool) : Pending name id r (.closing name id) []
  | lost (rest : Bytes) (h : rest.length ≤ maxRead) (t : Task)
      (ht : t = .closing name id ∨ t = .releasing id ∨ t = .finished) : Pending name id false t rest

theorem Pending.sinkFail {name : Bytes} {id : Byte} {r : Bool} {t : Task} {rest : Bytes}
    (h : Pending name id r t rest) : Pending name id false t rest := by
  cases h with
  | reading => exact .reading _
  | sending _ _ hlen => exact .sending _ _ hlen
  | closing => exact .closing _
  | lost _ hlen _ ht => exact .lost _ hlen _ ht

/-- The channel and the tasks as one identifier sees them. -/
structure Brackets (s : Daemon) (id : Byte) (closed : List Bracket) (cur : Option Bracket) : Prop where
  frames : s.framesOf id = closed.flatMap (Bracket.closed id) ++ cur.toList.flatMap (Bracket.opened id)
  closed : ∀ b ∈ closed, b.chunks.flatten = s.bytesRead b.client ∧ (s.task b.client).Done
  current : ∀ b, cur = some b → ∃ rest, s.bytesRead b.client = b.chunks.flatten ++ rest ∧
    Pending b.name id s.receiving (s.task b.client) rest
  single : s.receiving = true → ∀ c name, (s.task c).active = some (name, id) → ∃ b, cur = some b ∧ b.client = c

/-- A step of task `c` that sends no frame on `id` keeps the brackets if it keeps the
tasks's place in them. -/
theorem Brackets.keep {s s' : Daemon} {id : Byte} {closed : List Bracket} {cur : Option Bracket}
    (h : Brackets s id closed cur) {c : Nat} {t : Task}
    (hframes : s'.framesOf id = s.framesOf id) (hrec : s'.receiving = s.receiving)
    (htask : s'.task = (s.setTask c t).task) (hread : ∀ c', c' ≠ c → s'.bytesRead c' = s.bytesRead c')
    (hdone : (s.task c).Done → t.Done ∧ s'.bytesRead c = s.bytesRead c)
    (hpend : ∀ name rest, Pending name id s.receiving (s.task c) rest →
      ∃ more, s'.bytesRead c = s.bytesRead c ++ more ∧ Pending name id s.receiving t (rest ++ more))
    (hact : s.receiving = true → ∀ name, t.active = some (name, id) → (s.task c).active = some (name, id)) :
    Brackets s' id closed cur := by
  refine ⟨hframes.trans h.frames, ?_, ?_, ?_⟩
  · intro b hb
    obtain ⟨hpay, hd⟩ := h.closed b hb
    rw [htask, setTask_task]
    by_cases hc : b.client = c
    · obtain ⟨hd', hr⟩ := hdone (hc ▸ hd)
      rw [if_pos hc, hpay, hc, hr]
      exact ⟨rfl, hd'⟩
    · rw [if_neg hc, hread _ hc]
      exact ⟨hpay, hd⟩
  · intro b hb
    obtain ⟨rest, hr, hp⟩ := h.current b hb
    rw [htask, setTask_task, hrec]
    by_cases hc : b.client = c
    · obtain ⟨more, hm, hp'⟩ := hpend b.name rest (hc ▸ hp)
      refine ⟨rest ++ more, ?_, by rwa [if_pos hc]⟩
      rw [hc] at hr ⊢
      rw [hm, hr, List.append_assoc]
    · exact ⟨rest, by rw [hread _ hc, hr], by rwa [if_neg hc]⟩
  · intro hr c' name ha
    rw [hrec] at hr
    rw [htask, setTask_task] at ha
    split at ha
    · rename_i hc
      subst hc
      exact h.single hr c' name (hact hr name ha)
    · exact h.single hr c' name ha

/-- A step that concerns no task; the sink may have died in it. -/
theorem Brackets.sink {s s' : Daemon} {id : Byte} {closed : List Bracket} {cur : Option Bracket}
    (h : Brackets s id closed cur) (hch : s'.channel = s.channel) (htask : s'.task = s.task)
    (hread : s'.bytesRead = s.bytesRead) (hrec : s'.receiving = s.receiving ∨ s'.receiving = false) :
    Brackets s' id closed cur := by
  refine ⟨by rw [Daemon.framesOf, hch]; exact h.frames, by rw [htask, hread]; exact h.closed, ?_, ?_⟩
  · intro b hb
    obtain ⟨rest, hr, hp⟩ := h.current b hb
    refine ⟨rest, by rw [hread, hr], ?_⟩
    rw [htask]
    rcases hrec with hrec | hrec
    · rwa [hrec]
    · rw [hrec]
      exact hp.sinkFail
  · intro hr
    rcases hrec with hrec | hrec
    · rw [htask]
      exact h.single (hrec ▸ hr)
    · rw [hrec] at hr
      cases hr

structure SessionInv (s : Daemon) : Prop where
  owned : Owned s
  fresh : ∀ c, (s.task c).Fresh → s.bytesRead c = []
  brackets : ∀ id, id ≠ 0 → ∃ closed cur, Brackets s id closed cur

theorem SessionInv.start : SessionInv Daemon.start :=
  ⟨Owned.start, fun _ _ => rfl, fun _ _ => ⟨[], none, rfl, by simp, by simp, by simp [Daemon.start, Task.active]⟩⟩

/-- A step of task `c` that sends nothing. -/
theorem SessionInv.keep {s s' : Daemon} (h : SessionInv s) (ho : Owned s') {c : Nat} {t : Task}
    (hch : s'.channel = s.channel) (hrec : s'.receiving = s.receiving)
    (htask : s'.task = (s.setTask c t).task) (hread : ∀ c', c' ≠ c → s'.bytesRead c' = s.bytesRead c')
    (hfresh : t.Fresh → s'.bytesRead c = [])
    (hdone : (s.task c).Done → t.Done ∧ s'.bytesRead c = s.bytesRead c)
    (hpend : ∀ id name rest, Pending name id s.receiving (s.task c) rest →
      ∃ more, s'.bytesRead c = s.bytesRead c ++ more ∧ Pending name id s.receiving t (rest ++ more))
    (hact : s.receiving = true → ∀ id name, t.active = some (name, id) → (s.task c).active = some (name, id)) :
    SessionInv s' := by
  refine ⟨ho, ?_, ?_⟩
  · intro c' hf
    rw [htask, setTask_task] at hf
    split at hf
    · rename_i hc
      rw [hc]
      exact hfresh hf
    · rename_i hc
      rw [hread c' hc]
      exact h.fresh c' hf
  · intro id hid
    obtain ⟨closed, cur, hb⟩ := h.brackets id hid
    have hframes : s'.framesOf id = s.framesOf id := by rw [Daemon.framesOf, hch]; rfl
    exact ⟨closed, cur, hb.keep hframes hrec htask hread hdone (hpend id) (fun hr => hact hr id)⟩

theorem Task.Fresh.not_done {t : Task} (h : t.Fresh) : ¬ t.Done := by
  intro hd
  cases t <;> first | exact h | exact hd

theorem Task.Fresh.not_pending {t : Task} (h : t.Fresh) {name rest : Bytes} {id : Byte} {r : Bool} :
    ¬ Pending name id r t rest := by
  intro hp
  cases hp with
  | reading => exact h
  | sending => exact h
  | closing => exact h
  | lost _ _ _ ht => rcases ht with rfl | rfl | rfl <;> exact h

/-- A step of a task before its read loop. -/
theorem SessionInv.keepFresh {s s' : Daemon} (h : SessionInv s) (ho : Owned s') {c : Nat} {t : Task}
    (hch : s'.channel = s.channel) (hrec : s'.receiving = s.receiving)
    (htask : s'.task = (s.setTask c t).task) (hread : s'.bytesRead = s.bytesRead)
    (hfresh : (s.task c).Fresh) (hact : t.active = none) : SessionInv s' := by
  refine h.keep ho hch hrec htask (fun _ _ => by rw [hread]) (fun _ => by rw [hread]; exact h.fresh c hfresh)
    (fun hd => absurd hd hfresh.not_done) (fun _ _ _ hp => absurd hp hfresh.not_pending) ?_
  intro _ id name ha
  rw [hact] at ha
  cases ha

/-! ### Sends -/

section Sent
variable {s s' : Daemon} {id : Byte} {closed : List Bracket} {cur : Option Bracket} {c : Nat} {name : Bytes}

/-- CONNECTED opens a bracket: the holder of the identifier is not in its read loop yet,
so no bracket was open. -/
theorem Brackets.open (h : Brackets s id closed cur) (hid : id ≠ 0) (hopen : s.receiving = true)
    (ho : Owned s) (hread : s.bytesRead c = []) (ht : s.task c = .accepted name id)
    (hs' : s' = { s.setTask c (.reading name id) with channel := s.channel ++ [(c, .connected id name)] }) :
    Brackets s' id closed (some ⟨c, name, []⟩) := by
  have holder : ∀ c' name', (s.task c').active = some (name', id) → c' = c := by
    intro c' name' ha
    have hh : (s.task c').holds = some id := by
      cases ht' : s.task c' <;> simp_all [Task.active, Task.holds]
    exact ho.unique c' c id hid hh (by rw [ht]; rfl)
  have hnone : cur = none := by
    cases hcur : cur with
    | none => rfl
    | some b =>
      obtain ⟨rest, -, hp⟩ := h.current b hcur
      have ha : (s.task b.client).active = some (b.name, id) := by
        rw [hopen] at hp
        generalize s.task b.client = t at hp
        cases hp <;> rfl
      have hc := holder b.client b.name ha
      rw [hc, ht] at ha
      cases ha
  subst hnone hs'
  refine ⟨?_, ?_, ?_, ?_⟩
  · rw [framesOf_append (s := s) rfl id, h.frames]
    simp [Frame.id, Bracket.opened]
  · intro b hb
    obtain ⟨hpay, hd⟩ := h.closed b hb
    have hc : b.client ≠ c := by
      intro hc
      rw [hc, ht] at hd
      exact hd
    refine ⟨hpay, ?_⟩
    change ((s.setTask c _).task b.client).Done
    rwa [setTask_task, if_neg hc]
  · intro b hb
    cases hb
    refine ⟨[], by simpa using hread, ?_⟩
    change Pending name id s.receiving ((s.setTask c _).task c) []
    rw [setTask_task, if_pos rfl]
    exact .reading _
  · intro _ c' name' ha
    refine ⟨_, rfl, ?_⟩
    change ((s.setTask c _).task c').active = _ at ha
    rw [setTask_task] at ha
    split at ha
    · rename_i hc
      exact hc.symm
    · exact (holder c' name' ha).symm

/-- The open bracket of a task in its read loop is its own. -/
theorem Brackets.own (h : Brackets s id closed cur) (hopen : s.receiving = true)
    (ha : (s.task c).active = some (name, id)) : ∃ b rest, cur = some b ∧ b.client = c ∧
      s.bytesRead c = b.chunks.flatten ++ rest ∧ Pending b.name id true (s.task c) rest := by
  obtain ⟨b, hb, hc⟩ := h.single hopen c name ha
  obtain ⟨rest, hr, hp⟩ := h.current b hb
  rw [hopen] at hp
  exact ⟨b, rest, hb, hc, hc ▸ hr, hc ▸ hp⟩

/-- A data frame carries the chunk that was read last. -/
theorem Brackets.extend (h : Brackets s id closed cur) (hopen : s.receiving = true) {chunk : Bytes}
    (ht : s.task c = .sending name id chunk)
    (hs' : s' = { s.setTask c (.reading name id) with channel := s.channel ++ [(c, .data id chunk)] }) :
    ∃ cur', Brackets s' id closed cur' := by
  obtain ⟨b, rest, rfl, rfl, hr, hp⟩ := h.own hopen (show (s.task c).active = some (name, id) by rw [ht]; rfl)
  have hrest : rest = chunk ∧ b.name = name := by
    rw [ht] at hp
    cases hp with
    | sending => exact ⟨rfl, rfl⟩
  obtain ⟨rfl, rfl⟩ := hrest
  subst hs'
  refine ⟨some { b with chunks := b.chunks ++ [rest] }, ?_, ?_, ?_, ?_⟩
  · rw [framesOf_append (s := s) rfl id, h.frames]
    simp [Frame.id, Bracket.opened]
  · intro b' hb'
    obtain ⟨hpay, hd⟩ := h.closed b' hb'
    have hc : b'.client ≠ b.client := by
      intro hc
      rw [hc, ht] at hd
      exact hd
    refine ⟨hpay, ?_⟩
    change ((s.setTask b.client _).task b'.client).Done
    rwa [setTask_task, if_neg hc]
  · intro b' hb'
    cases hb'
    refine ⟨[], by simpa using hr, ?_⟩
    change Pending b.name id s.receiving ((s.setTask b.client _).task b.client) []
    rw [setTask_task, if_pos rfl]
    exact .reading _
  · intro _ c' name' ha
    change ((s.setTask b.client _).task c').active = _ at ha
    rw [setTask_task] at ha
    split at ha
    · rename_i hc
      exact ⟨_, rfl, hc.symm⟩
    · obtain ⟨b', hb', hc'⟩ := h.single hopen c' name' ha
      cases hb'
      exact ⟨_, rfl, hc'⟩

/-- DISCONNECTED closes the bracket: everything read has been sent. -/
theorem Brackets.close (h : Brackets s id closed cur) (hopen : s.receiving = true)
    (ht : s.task c = .closing name id)
    (hs' : s' = { s.setTask c (.releasing id) with channel := s.channel ++ [(c, .disconnected id name)] }) :
    ∃ closed', Brackets s' id closed' none := by
  obtain ⟨b, rest, rfl, rfl, hr, hp⟩ := h.own hopen (show (s.task c).active = some (name, id) by rw [ht]; rfl)
  have hrest : rest = [] ∧ b.name = name := by
    rw [ht] at hp
    cases hp with
    | closing => exact ⟨rfl, rfl⟩
  obtain ⟨rfl, rfl⟩ := hrest
  subst hs'
  refine ⟨closed ++ [b], ?_, ?_, by simp, ?_⟩
  · rw [framesOf_append (s := s) rfl id, h.frames]
    simp [Frame.id, Bracket.closed]
  · intro b' hb'
    change _ ∧ ((s.setTask b.client _).task b'.client).Done
    rw [setTask_task]
    rcases List.mem_append.mp hb' with hb' | hb'
    · obtain ⟨hpay, hd⟩ := h.closed b' hb'
      have hc : b'.client ≠ b.client := by
        intro hc
        rw [hc, ht] at hd
        exact hd
      rw [if_neg hc]
      exact ⟨hpay, hd⟩
    · rw [List.mem_singleton.mp hb', if_pos rfl]
      exact ⟨by simpa using hr.symm, trivial⟩
  · intro _ c' name' ha
    change ((s.setTask b.client _).task c').active = _ at ha
    rw [setTask_task] at ha
    split at ha
    · cases ha
    · rename_i hne
      obtain ⟨b', hb', hc'⟩ := h.single hopen c' name' ha
      cases hb'
      exact absurd hc'.symm hne

/-- Frames on another identifier do not show. -/
theorem Brackets.other (h : Brackets s id closed cur) {t next failed : Task} {f : Frame} (ht : s.task c = t)
    (hf : Sends t f next failed) (hne : f.id ≠ id)
    (hs' : s' = { s.setTask c next with channel := s.channel ++ [(c, f)] }) : Brackets s' id closed cur := by
  subst hs' ht
  refine h.keep ?_ rfl rfl (fun _ _ => rfl) ?_ ?_ ?_
  · rw [framesOf_append (s := s) rfl id, if_neg hne, List.append_nil]
  · generalize s.task c = t at hf
    intro hd
    cases hf <;> cases hd
  · generalize s.task c = t at hf
    generalize s.receiving = r
    intro name rest hp
    cases hf <;> cases hp <;> simp_all [Frame.id]
  · generalize s.task c = t at hf
    intro _ name ha
    cases hf <;> simp_all [Task.active, Frame.id]

end Sent

theorem SessionInv.sent {s s' : Daemon} (h : SessionInv s) (ho : Owned s') {c : Nat} {t next failed : Task}
    {f : Frame} (ht : s.task c = t) (hf : Sends t f next failed) (hopen : s.receiving = true)
    (hs' : s' = { s.setTask c next with channel := s.channel ++ [(c, f)] }) : SessionInv s' := by
  have hnf : ¬ next.Fresh := by cases hf <;> exact fun h => h
  refine ⟨ho, ?_, ?_⟩
  · intro c' hfr
    subst hs'
    change ((s.setTask c next).task c').Fresh at hfr
    rw [setTask_task] at hfr
    split at hfr
    · exact absurd hfr hnf
    · exact h.fresh c' hfr
  · intro id hid
    obtain ⟨closed, cur, hb⟩ := h.brackets id hid
    by_cases hne : f.id = id
    · cases hf with
      | connected name id' =>
        cases hne
        exact ⟨closed, _, hb.open hid hopen h.owned (h.fresh c (by rw [ht]; trivial)) ht hs'⟩
      | data name id' chunk =>
        cases hne
        exact ⟨closed, hb.extend hopen ht hs'⟩
      | disconnected name id' =>
        cases hne
        obtain ⟨closed', hb'⟩ := hb.close hopen ht hs'
        exact ⟨closed', none, hb'⟩
    · exact ⟨closed, cur, hb.other ht hf hne hs'⟩

/-- A failed send drops the frame; with it goes at most the chunk that was read last. -/
theorem SessionInv.unsent {s : Daemon} (h : SessionInv s) {c : Nat} {t next failed : Task} {f : Frame}
    (ho : Owned (s.setTask c failed)) (ht : s.task c = t) (hf : Sends t f next failed)
    (hclosed : s.receiving = false) : SessionInv (s.setTask c failed) := by
  subst ht
  refine h.keep ho rfl rfl rfl (fun _ _ => rfl) ?_ ?_ ?_ (by simp [hclosed])
  · generalize s.task c = t at hf
    intro hfr
    cases hf <;> cases hfr
  · generalize s.task c = t at hf
    intro hd
    cases hf <;> cases hd
  · rw [hclosed]
    generalize s.task c = t at hf
    intro id name rest hp
    refine ⟨[], by simp, ?_⟩
    rw [List.append_nil]
    cases hf with
    | connected name' id' => exact absurd hp (Task.Fresh.not_pending (t := .accepted name' id') trivial)
    | data =>
      cases hp with
      | sending _ _ hlen => exact .lost _ hlen _ (.inl rfl)
      | lost _ _ _ ht => simp at ht
    | disconnected =>
      cases hp with
      | closing => exact .lost _ (by simp) _ (.inr (.inl rfl))
      | lost _ hlen _ ht =>
        cases ht with
        | inl ht => cases ht; exact .lost _ hlen _ (.inr (.inl rfl))
        | inr ht => simp at ht

theorem SessionInv.step {s s' : Daemon} {a : Action} (h : SessionInv s) (hs : step s a = some s') :
    SessionInv s' := by
  have ho := h.owned.step hs
  cases step_cases hs with
  | enroll ht _ => exact h.keepFresh ho rfl rfl rfl rfl (by rw [ht]; trivial) rfl
  | abandon ht => exact h.keepFresh ho rfl rfl rfl rfl (by rw [ht]; trivial) rfl
  | alloc ht _ => exact h.keepFresh ho rfl rfl rfl rfl (by rw [ht]; trivial) rfl
  | accept ht => exact h.keepFresh ho rfl rfl rfl rfl (by rw [ht]; trivial) rfl
  | refuse ht => exact h.keepFresh ho rfl rfl rfl rfl (by rw [ht]; trivial) rfl
  | read ht hlen =>
    refine h.keep ho rfl rfl rfl (fun c' hc => Function.update_of_ne hc _ _) (fun hf => hf.elim) ?_ ?_ ?_ <;> rw [ht]
    · exact fun hd => hd.elim
    · intro id name rest hp
      generalize s.receiving = r at hp
      cases hp with
      | reading => exact ⟨_, Function.update_self _ _ _, .sending _ _ hlen.2⟩
      | lost _ _ _ ht' => simp at ht'
    · simp [Task.active]
  | hangup ht =>
    refine h.keep ho rfl rfl rfl (fun _ _ => rfl) (fun hf => hf.elim) ?_ ?_ ?_ <;> rw [ht]
    · exact fun hd => hd.elim
    · intro id name rest hp
      generalize s.receiving = r at hp
      cases hp with
      | reading => exact ⟨[], by simp, .closing _⟩
      | lost _ _ _ ht' => simp at ht'
    · simp [Task.active]
  | sent ht hf hopen _ => exact h.sent ho ht hf hopen rfl
  | unsent ht hf hclosed => exact h.unsent ho ht hf hclosed
  | free ht =>
    rcases ht with ht | ht
    · exact h.keepFresh ho rfl rfl rfl rfl (by rw [ht]; trivial) rfl
    · refine h.keep ho rfl rfl rfl (fun _ _ => rfl) (fun hf => hf.elim) (fun _ => ⟨trivial, rfl⟩) ?_ ?_ <;> rw [ht]
      · intro id name rest hp
        generalize s.receiving = r at hp
        refine ⟨[], by simp, ?_⟩
        cases hp with
        | lost _ hlen _ _ => simpa using Pending.lost _ hlen _ (.inr (.inr rfl))
      · simp [Task.active]
  | recv => exact ⟨ho, h.fresh, fun id hid => (h.brackets id hid).imp fun _ => .imp fun _ hb =>
      hb.sink rfl rfl rfl (.inl rfl)⟩
  | sinkWrite => exact ⟨ho, h.fresh, fun id hid => (h.brackets id hid).imp fun _ => .imp fun _ hb =>
      hb.sink rfl rfl rfl (.inl rfl)⟩
  | sinkFail => exact ⟨ho, h.fresh, fun id hid => (h.brackets id hid).imp fun _ => .imp fun _ hb =>
      hb.sink rfl rfl rfl (.inr rfl)⟩

/-! ### The sink -/

structure Drained (s : Daemon) : Prop where
  received : s.received ≤ s.channel.length
  bytes : s.sink ++ s.unwritten = (s.channel.take s.received).flatMap (fun p => p.2.encode)

theorem Drained.keep {s s' : Daemon} (h : Drained s) (hch : s.channel <+: s'.channel) (hr : s'.received = s.received)
    (hs : s'.sink = s.sink) (hu : s'.unwritten = s.unwritten) : Drained s' := by
  refine ⟨hr ▸ h.received.trans hch.length_le, ?_⟩
  obtain ⟨more, hm⟩ := hch
  rw [hs, hu, hr, ← hm, List.take_append_of_le_length h.received]
  exact h.bytes

theorem Drained.step {s s' : Daemon} {a : Action} (h : Drained s) (hs : step s a = some s') : Drained s' := by
  cases step_cases hs with
  | sent => exact h.keep (List.prefix_append _ _) rfl rfl rfl
  | recv hopen hidle hf =>
    obtain ⟨hlt, hget⟩ := List.getElem?_eq_some_iff.mp hf
    refine ⟨hlt, ?_⟩
    have hb := h.bytes
    rw [hidle, List.append_nil] at hb
    change s.sink ++ _ = (s.channel.take (s.received + 1)).flatMap _
    rw [hb, List.take_succ_eq_append_getElem hlt, hget]
    simp
  | sinkWrite =>
    refine ⟨h.received, ?_⟩
    rw [← h.bytes]
    simp
  | _ => exact h.keep (List.prefix_refl _) rfl rfl rfl

theorem drained {ok : Daemon → Action → Prop} {as : List Action} {s : Daemon} (hr : RunsTo ok as s) : Drained s :=
  hr.invariant (fun _ _ _ h _ hs => h.step hs) ⟨Nat.le_refl 0, rfl⟩

theorem Drained.prefix_channel {s : Daemon} (h : Drained s) : s.sink <+: s.channel.flatMap (fun p => p.2.encode) := by
  refine (List.prefix_append s.sink s.unwritten).trans ?_
  rw [h.bytes]
  conv_rhs => rw [← List.take_append_drop s.received s.channel]
  rw [List.flatMap_append]
  exact List.prefix_append _ _

/-! ### Bracketing -/

/-- Brackets whose payloads are exactly what their clients have read, the open one included. -/
def ExactlyBracketed (s : Daemon) (id : Byte) : Prop :=
  ∃ (closed : List Bracket) (cur : Option Bracket),
    s.framesOf id = closed.flatMap (Bracket.closed id) ++ cur.toList.flatMap (Bracket.opened id) ∧
    ∀ b ∈ closed ++ cur.toList, decodedPayloads (b.opened id) = s.bytesRead b.client

/-- Closed brackets hold exactly what their clients have read. The open one lacks at most
one chunk, whose send is pending or has failed because the sink is gone. -/
def Bracketed (s : Daemon) (id : Byte) : Prop :=
  ∃ (closed : List Bracket) (cur : Option Bracket),
    s.framesOf id = closed.flatMap (Bracket.closed id) ++ cur.toList.flatMap (Bracket.opened id) ∧
    (∀ b ∈ closed, decodedPayloads (b.opened id) = s.bytesRead b.client) ∧
    ∀ b, cur = some b → ∃ rest, s.bytesRead b.client = decodedPayloads (b.opened id) ++ rest ∧
      rest.length ≤ maxRead ∧ (rest = [] ∨ s.task b.client = .sending b.name id rest ∨ s.receiving = false)

theorem Brackets.bracketed {s : Daemon} {id : Byte} {closed : List Bracket} {cur : Option Bracket}
    (h : Brackets s id closed cur) : Bracketed s id := by
  refine ⟨closed, cur, h.frames, ?_, ?_⟩
  · intro b hb
    rw [decoded_opened]
    exact (h.closed b hb).1
  · intro b hb
    obtain ⟨rest, hr, hp⟩ := h.current b hb
    refine ⟨rest, by rw [decoded_opened]; exact hr, ?_⟩
    generalize s.task b.client = t at hp
    generalize s.receiving = r at hp
    cases hp with
    | reading => exact ⟨by simp, .inl rfl⟩
    | sending _ _ hlen => exact ⟨hlen, .inr (.inl rfl)⟩
    | closing => exact ⟨by simp, .inl rfl⟩
    | lost _ hlen _ _ => exact ⟨hlen, .inr (.inr rfl)⟩

/-- In every interleaving of the tasks, each nonzero identifier is used in brackets, has at
most one holder, and the sink receives a prefix of the channel's bytes. -/
theorem sessions_bracketed {as : List Action} {s : Daemon} (hr : RunsTo anyStep as s) :
    (∀ id, id ≠ 0 → Bracketed s id) ∧
    (∀ c c' id, id ≠ 0 → (s.task c).holds = some id → (s.task c').holds = some id → c = c') ∧
    s.sink <+: s.channel.flatMap (fun p => p.2.encode) := by
  have hinv : SessionInv s := hr.invariant (fun _ _ _ h _ hs => h.step hs) SessionInv.start
  refine ⟨?_, hinv.owned.unique, (drained hr).prefix_channel⟩
  intro id hid
  obtain ⟨closed, cur, hb⟩ := hinv.brackets id hid
  exact hb.bracketed

def oneSession : List Action :=
  [.enroll 0 [0x61], .alloc 0, .reply 0 true, .send 0, .recv, .sinkWrite 7, .read 0 [0xfe, 0x41], .send 0, .recv,
   .sinkWrite 3, .sinkWrite 4, .hangup 0, .send 0, .free 0]

theorem sessions_bracketed_oneSession : ∃ s, RunsTo anyStep oneSession s ∧ Bracketed s 1 ∧
    s.sink <+: s.channel.flatMap (fun p => p.2.encode) := by
  obtain ⟨s, hs⟩ : ∃ s, oneSession.foldlM step Daemon.start = some s := ⟨_, rfl⟩
  have hr : RunsTo anyStep oneSession s := Machine.runs_of_foldlM (fun _ _ _ => trivial) hs
  exact ⟨s, hr, (sessions_bracketed hr).1 1 (by decide), (sessions_bracketed hr).2.2⟩

/-- The sink dies after the announcement; what the client then sends is read and dropped. -/
def lostChunk : List Action :=
  [.enroll 0 [0x61], .alloc 0, .reply 0 true, .send 0, .recv, .sinkFail, .read 0 [0x41], .send 0, .send 0, .free 0]

theorem lostChunk_not_exact : ∃ s, RunsTo anyStep lostChunk s ∧ ¬ ExactlyBracketed s 1 := by
  obtain ⟨s, hs⟩ : ∃ s, lostChunk.foldlM step Daemon.start = some s := ⟨_, rfl⟩
  have hframes : s.framesOf 1 = [(0, .connected 1 [0x61])] := by
    cases hs
    rfl
  have hread : s.bytesRead 0 = [0x41] := by
    cases hs
    rfl
  refine ⟨s, Machine.runs_of_foldlM (fun _ _ _ => trivial) hs, ?_⟩
  rintro ⟨closed, cur, hf, hb⟩
  rw [hframes] at hf
  have hlen := congrArg List.length hf
  cases closed with
  | cons b rest => simp [Bracket.closed, Bracket.opened] at hlen
  | nil =>
    cases cur with
    | none => simp at hlen
    | some b =>
      have hb := hb b (by simp)
      simp only [List.flatMap_nil, List.nil_append, Option.toList_some, List.flatMap_cons, List.append_nil,
        Bracket.opened, List.cons.injEq, Prod.mk.injEq] at hf
      have hchunks : b.chunks = [] := List.map_eq_nil_iff.mp hf.2.symm
      rw [decoded_opened, hchunks, ← hf.1.1, hread] at hb
      cases hb

end VirtiosoMux.Muxd
