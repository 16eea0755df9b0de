import VirtiosoMux.Exec.Delivery
import VirtiosoMux.Muxd.Enrollment
import VirtiosoMux.Muxd.Sessions

/-! # From the commands to the frames of the daemon

Any number of `virtioso-mux-exec` processes run against one `virtioso-muxd`, each over its own
socket. A step is a step of one of the programs; a process may also be killed in any state.
-/
namespace VirtiosoMux.ExecUplink
open Muxd (Daemon Task Frame Bracket Sends)
open Exec (Client merged sentBy)

/-- Where a process stands: before the reply to its enrollment, with its command running, and gone. -/
inductive Process
  | enrolling
  | running
  | gone
deriving DecidableEq

/-- `socket` is what a client has written and its task has not read. -/
structure World where
  daemon : Daemon
  client : Nat → Client
  process : Nat → Process
  socket : Nat → Bytes

def World.start : World where
  daemon := Daemon.start
  client _ := Client.start
  process _ := .enrolling
  socket _ := []

/-! ### Steps -/

inductive Act
  | muxd (a : Muxd.Action)
  | exec (c : Nat) (a : Exec.Action)
  | kill (c : Nat)

/-- What the sockets allow the daemon: the name is the one of the command line, a reply fails behind a
process that is gone, a read takes what was written, and the end of the stream is behind the last byte of
a process that is gone. -/
def World.Allows (names : Nat → Bytes) (s : World) : Muxd.Action → Prop
  | .enroll c nameBuf => nameBuf = names c
  | .reply c ok => ok = true ↔ s.process c ≠ .gone
  | .read c chunk => chunk <+: s.socket c
  | .hangup c => s.socket c = [] ∧ s.process c = .gone
  | _ => True

instance (names : Nat → Bytes) (s : World) : (a : Muxd.Action) → Decidable (s.Allows names a)
  | .enroll c nameBuf => inferInstanceAs (Decidable (nameBuf = names c))
  | .reply c ok => inferInstanceAs (Decidable (ok = true ↔ s.process c ≠ .gone))
  | .read c chunk => inferInstanceAs (Decidable (chunk <+: s.socket c))
  | .hangup c => inferInstanceAs (Decidable (s.socket c = [] ∧ s.process c = .gone))
  | .abandon _ | .alloc _ | .send _ | .free _ | .recv | .sinkWrite _ | .sinkFail => .isTrue trivial

def World.Writable (s : World) (c : Nat) : Exec.Action → Prop
  | .write _ => s.daemon.task c ≠ .finished
  | .writeFail => s.daemon.task c = .finished
  | _ => True

instance (s : World) (c : Nat) : (a : Exec.Action) → Decidable (s.Writable c a)
  | .write _ => inferInstanceAs (Decidable (s.daemon.task c ≠ .finished))
  | .writeFail => inferInstanceAs (Decidable (s.daemon.task c = .finished))
  | .read _ _ | .eof _ | .send _ | .childExit _ | .recv | .closed | .collect | .exited | .timeout => .isTrue trivial

/-- A client rejects the identifier 0 and starts its command otherwise. -/
def World.told (s : World) : Muxd.Action → Nat → Process
  | .reply c true =>
    match s.daemon.task c with
    | .allocated _ id => Function.update s.process c (if id = 0 then .gone else .running)
    | _ => s.process
  | _ => s.process

def World.taken (s : World) : Muxd.Action → Nat → Bytes
  | .read c chunk => Function.update s.socket c ((s.socket c).drop chunk.length)
  | _ => s.socket

def processOf (k : Client) : Process :=
  match k.drain with
  | .returned _ => .gone
  | _ => .running

def World.setClient (s : World) (c : Nat) (k : Client) : World :=
  { s with
    client := Function.update s.client c k
    process := Function.update s.process c (processOf k)
    socket := Function.update s.socket c (s.socket c ++ k.conn.drop (s.client c).conn.length) }

def step (names : Nat → Bytes) (s : World) : Act → Option World
  | .muxd a =>
    if s.Allows names a then
      (Muxd.step s.daemon a).map (fun d => { s with daemon := d, process := s.told a, socket := s.taken a })
    else none
  | .exec c a =>
    if s.process c = .running ∧ s.Writable c a then (Exec.step (s.client c) a).map (s.setClient c) else none
  | .kill c => some { s with process := Function.update s.process c .gone }

abbrev RunsTo (names : Nat → Bytes) (as : List Act) (s : World) : Prop :=
  Machine.Runs (step names) (fun _ _ => True) World.start as s

inductive Stepped (names : Nat → Bytes) (s : World) : Act → World → Prop
  | muxd {a : Muxd.Action} {d : Daemon} (ha : s.Allows names a) (hs : Muxd.step s.daemon a = some d) :
      Stepped names s (.muxd a) { s with daemon := d, process := s.told a, socket := s.taken a }
  | exec {c : Nat} {a : Exec.Action} {k : Client} (hp : s.process c = .running) (hw : s.Writable c a)
      (hs : Exec.step (s.client c) a = some k) : Stepped names s (.exec c a) (s.setClient c k)
  | kill {c : Nat} : Stepped names s (.kill c) { s with process := Function.update s.process c .gone }

theorem step_cases {names : Nat → Bytes} {s s' : World} {a : Act} (h : step names s a = some s') :
    Stepped names s a s' := by
  cases a with
  | muxd a =>
    simp only [step] at h
    split at h
    · rename_i ha
      obtain ⟨d, hs, rfl⟩ := Option.map_eq_some_iff.mp h
      exact .muxd ha hs
    · cases h
  | exec c a =>
    simp only [step] at h
    split at h
    · rename_i hp
      obtain ⟨k, hs, rfl⟩ := Option.map_eq_some_iff.mp h
      exact .exec hp.1 hp.2 hs
    · cases h
  | kill c =>
    cases h
    exact .kill

/-! ### What the sockets keep -/

def World.Ended (s : World) (c : Nat) : Prop := s.process c = .gone ∧ s.socket c = []

theorem told_gone {names : Nat → Bytes} {s : World} {a : Muxd.Action} (ha : s.Allows names a) {c : Nat}
    (hc : s.process c = .gone) : s.told a c = .gone := by
  unfold World.told
  split
  · rename_i c'
    have hlive : c ≠ c' := by
      rintro rfl
      exact ha.mp rfl hc
    cases s.daemon.task c' <;> first | exact hc | exact (Function.update_of_ne hlive _ _).trans hc
  · exact hc

theorem taken_nil {s : World} {c : Nat} (hc : s.socket c = []) (a : Muxd.Action) : s.taken a c = [] := by
  unfold World.taken
  split
  · rename_i c' chunk
    by_cases heq : c = c'
    · subst heq
      rw [Function.update_self, hc, List.drop_nil]
    · rw [Function.update_of_ne heq, hc]
  · exact hc

theorem World.Ended.step {names : Nat → Bytes} {s s' : World} {a : Act} {c : Nat} (h : s.Ended c)
    (hs : step names s a = some s') : s'.Ended c := by
  cases step_cases hs with
  | muxd ha _ => exact ⟨told_gone ha h.1, taken_nil h.2 _⟩
  | @exec c' _ k hp _ _ =>
    have hne : c ≠ c' := by
      rintro rfl
      rw [h.1] at hp
      cases hp
    exact ⟨(Function.update_of_ne hne _ _).trans h.1, (Function.update_of_ne hne _ _).trans h.2⟩
  | @kill c' =>
    refine ⟨?_, h.2⟩
    change Function.update s.process c' .gone c = .gone
    by_cases heq : c = c'
    · rw [heq, Function.update_self]
    · rw [Function.update_of_ne heq, h.1]

/-! ### What one step of the daemon does to a client -/

/-- Only a read adds to what a task has read, and it adds something. -/
theorem muxd_reads {d d' : Daemon} {a : Muxd.Action} (h : Muxd.step d a = some d') :
    (∃ c chunk, a = .read c chunk ∧ d'.bytesRead = Function.update d.bytesRead c (d.bytesRead c ++ chunk)) ∨
      ((∀ c chunk, a ≠ .read c chunk) ∧ d'.bytesRead = d.bytesRead) := by
  cases Muxd.step_cases h with
  | read => exact .inl ⟨_, _, rfl, rfl⟩
  | _ => exact .inr ⟨fun _ _ => Muxd.Action.noConfusion, rfl⟩

/-- A task that has returned stays so. -/
theorem muxd_finished {d d' : Daemon} {a : Muxd.Action} (h : Muxd.step d a = some d') {c : Nat}
    (hc : d.task c = .finished) : d'.task c = .finished := by
  have hset : ∀ {c' : Nat} {t t' : Task}, d.task c' = t → t ≠ .finished → (d.setTask c' t').task c = .finished := by
    intro c' t t' ht hne
    rw [Muxd.setTask_task, if_neg, hc]
    rintro rfl
    exact hne (ht.symm.trans hc)
  cases Muxd.step_cases h with
  | enroll ht => exact hset ht (by simp)
  | abandon ht => exact hset ht (by simp)
  | alloc ht => exact hset ht (by simp)
  | accept ht => exact hset ht (by simp)
  | refuse ht => exact hset ht (by simp)
  | read ht => exact hset ht (by simp)
  | hangup ht => exact hset ht (by simp)
  | sent ht hf => exact hset ht (by cases hf <;> simp)
  | unsent ht hf => exact hset ht (by cases hf <;> simp)
  | free ht => rcases ht with ht | ht <;> exact hset ht (by simp)
  | _ => exact hc

/-- A session is closed by its own task, behind its read loop and while the sink lives. -/
theorem muxd_closed {d d' : Daemon} {a : Muxd.Action} (h : Muxd.step d a = some d') {c : Nat} {id : Byte} {name : Bytes}
    (hmem : (c, Frame.disconnected id name) ∈ d'.channel) :
    (c, Frame.disconnected id name) ∈ d.channel ∨ (d.receiving = true ∧ d.task c = .closing name id) := by
  cases Muxd.step_cases h with
  | sent ht hf hopen =>
    rcases List.mem_append.mp hmem with hmem | hmem
    · exact .inl hmem
    · cases List.mem_singleton.mp hmem
      cases hf
      exact .inr ⟨hopen, ht⟩
  | _ => exact .inl hmem

/-- While the sink lives, a read loop ends only with the end of the stream. -/
theorem muxd_closing {d d' : Daemon} {a : Muxd.Action} (h : Muxd.step d a = some d') (hrec : d'.receiving = true) {c : Nat}
    {id : Byte} {name : Bytes} (hc : d'.task c = .closing name id) :
    d.receiving = true ∧ (d.task c = .closing name id ∨ a = .hangup c) := by
  have hset : ∀ {c' : Nat} {t : Task}, (d.setTask c' t).task c = .closing name id → t ≠ .closing name id →
      d.task c = .closing name id := by
    intro c' t ht hne
    rw [Muxd.setTask_task] at ht
    split at ht
    · exact absurd ht hne
    · exact ht
  cases Muxd.step_cases h with
  | enroll => exact ⟨hrec, .inl (hset hc (by simp))⟩
  | abandon => exact ⟨hrec, .inl (hset hc (by simp))⟩
  | alloc => exact ⟨hrec, .inl (hset hc (by simp))⟩
  | accept => exact ⟨hrec, .inl (hset hc (by simp))⟩
  | refuse => exact ⟨hrec, .inl (hset hc (by simp))⟩
  | read => exact ⟨hrec, .inl (hset hc (by simp))⟩
  | @hangup c' _ _ _ =>
    refine ⟨hrec, ?_⟩
    by_cases heq : c = c'
    · exact .inr (heq ▸ rfl)
    · rw [Muxd.setTask_task, if_neg heq] at hc
      exact .inl hc
  | sent _ hf => exact ⟨hrec, .inl (hset hc (by cases hf <;> simp))⟩
  | unsent _ _ hclosed => exact absurd (hclosed.symm.trans hrec) (by simp)
  | free => exact ⟨hrec, .inl (hset hc (by simp))⟩
  | sinkFail => cases hrec
  | _ => exact ⟨hrec, .inl hc⟩

/-! ### The system -/

structure Joined (s : World) : Prop where
  sessions : Muxd.SessionInv s.daemon
  clients : ∀ c, Exec.Sound (s.client c)
  conveyed : ∀ c, s.daemon.bytesRead c ++ s.socket c = (s.client c).conn
  written : ∀ c, (s.client c).conn <+: merged (s.client c).channel
  closing : s.daemon.receiving = true → ∀ c name id, s.daemon.task c = .closing name id → s.Ended c
  closed : ∀ c id name, (c, Frame.disconnected id name) ∈ s.daemon.channel → s.Ended c
  broken : ∀ c, (s.client c).broken = true → s.daemon.task c = .finished ∧
    ∀ id name, (c, Frame.disconnected id name) ∉ s.daemon.channel

theorem Joined.start : Joined World.start := by
  refine ⟨.start, fun _ => ⟨.start, .start, .start⟩, fun _ => rfl, fun _ => List.prefix_refl _, ?_, ?_, ?_⟩
  · exact fun _ _ _ _ h => absurd h (by simp [World.start, Daemon.start])
  · exact fun _ _ _ h => absurd h (by simp [World.start, Daemon.start])
  · exact fun _ h => absurd h (by simp [World.start, Client.start])

theorem Joined.muxd {names : Nat → Bytes} {s : World} {a : Muxd.Action} {d : Daemon} (h : Joined s)
    (ha : s.Allows names a) (hs : Muxd.step s.daemon a = some d) :
    Joined { s with daemon := d, process := s.told a, socket := s.taken a } := by
  have hended : ∀ c, s.Ended c → World.Ended { s with daemon := d, process := s.told a, socket := s.taken a } c :=
    fun c hc => ⟨told_gone ha hc.1, taken_nil hc.2 a⟩
  refine ⟨h.sessions.step hs, h.clients, ?_, h.written, ?_, ?_, ?_⟩
  · intro c
    change d.bytesRead c ++ s.taken a c = (s.client c).conn
    rw [← h.conveyed c]
    rcases muxd_reads hs with ⟨c', chunk, rfl, hread⟩ | ⟨hother, hread⟩
    · obtain ⟨rest, hrest⟩ : chunk <+: s.socket c' := ha
      rw [hread, World.taken]
      by_cases heq : c = c'
      · subst heq
        simp [← hrest]
      · rw [Function.update_of_ne heq, Function.update_of_ne heq]
    · rw [hread]
      cases a <;> first | rfl | exact absurd rfl (hother _ _)
  · intro hrec c name id hc
    obtain ⟨hrec', hc' | rfl⟩ := muxd_closing hs hrec hc
    · exact hended c (h.closing hrec' c name id hc')
    · exact hended c ⟨ha.2, ha.1⟩
  · intro c id name hmem
    rcases muxd_closed hs hmem with hmem | ⟨hrec, hc⟩
    · exact hended c (h.closed c id name hmem)
    · exact hended c (h.closing hrec c name id hc)
  · intro c hb
    obtain ⟨hfin, hnone⟩ := h.broken c hb
    refine ⟨muxd_finished hs hfin, fun id name hmem => ?_⟩
    rcases muxd_closed hs hmem with hmem | ⟨-, hc⟩
    · exact hnone id name hmem
    · rw [hfin] at hc
      cases hc

theorem setClient_client (s : World) (c c' : Nat) (k : Client) :
    (s.setClient c k).client c' = if c' = c then k else s.client c' := by
  simp [World.setClient, Function.update_apply]

/-- A write of a client goes to its socket; a client whose write has failed writes nothing more. -/
theorem Joined.exec {s : World} {c : Nat} {a : Exec.Action} {k : Client} (h : Joined s) (hp : s.process c = .running)
    (hw : s.Writable c a) (hs : Exec.step (s.client c) a = some k) : Joined (s.setClient c k) := by
  obtain ⟨hgrow, hwrote⟩ := Exec.step_grows hs
  have hsound := (h.clients c).step hs
  have hother : ∀ c', s.Ended c' → c' ≠ c := by
    rintro c' hc' rfl
    rw [hc'.1] at hp
    cases hp
  have hended : ∀ c', s.Ended c' → (s.setClient c k).Ended c' := by
    intro c' hc'
    have hne := hother c' hc'
    exact ⟨(Function.update_of_ne hne _ _).trans hc'.1, (Function.update_of_ne hne _ _).trans hc'.2⟩
  have hconn : (s.client c).conn <+: k.conn := by
    rcases hwrote with ⟨-, hpre, -⟩ | ⟨heq, -⟩
    · exact hpre
    · exact heq ▸ List.prefix_refl _
  refine ⟨h.sessions, ?_, ?_, ?_, ?_, ?_, ?_⟩
  · intro c'
    rw [setClient_client]
    split
    · exact hsound
    · exact h.clients c'
  · intro c'
    rw [setClient_client]
    change s.daemon.bytesRead c' ++ Function.update s.socket c _ c' = _
    split
    · rename_i heq
      subst heq
      rw [Function.update_self, ← List.append_assoc, h.conveyed c']
      exact List.prefix_iff_eq_append.mp hconn
    · rename_i heq
      rw [Function.update_of_ne heq, h.conveyed c']
  · intro c'
    rw [setClient_client]
    split
    · rcases hwrote with ⟨⟨count, rfl⟩, -, hb⟩ | ⟨heq, -⟩
      · refine hsound.conn_prefix (hb.trans ?_)
        by_contra hbroken
        exact hw (h.broken c (by simpa using hbroken)).1
      · rw [heq]
        exact (h.written c).trans (Exec.merged_prefix hgrow)
    · exact h.written c'
  · exact fun hrec c' name id hc' => hended c' (h.closing hrec c' name id hc')
  · exact fun c' id name hmem => hended c' (h.closed c' id name hmem)
  · intro c' hb
    rw [setClient_client] at hb
    split at hb
    · rename_i heq
      subst heq
      refine ⟨?_, fun id name hmem => hother c' (h.closed c' id name hmem) rfl⟩
      rcases hwrote with ⟨-, -, hkeep⟩ | ⟨-, hkeep | rfl⟩
      · exact (h.broken c' (hkeep.symm.trans hb)).1
      · exact (h.broken c' (hkeep.symm.trans hb)).1
      · exact hw
    · exact h.broken c' hb

theorem Joined.step {names : Nat → Bytes} {s s' : World} {a : Act} (h : Joined s) (hs : step names s a = some s') :
    Joined s' := by
  have hended : ∀ c, s.Ended c → s'.Ended c := fun c hc => hc.step hs
  cases step_cases hs with
  | muxd ha hd => exact h.muxd ha hd
  | exec hp hw hk => exact h.exec hp hw hk
  | kill =>
    exact ⟨h.sessions, h.clients, h.conveyed, h.written, fun hrec c name id hc => hended c (h.closing hrec c name id hc),
      fun c id name hmem => hended c (h.closed c id name hmem), h.broken⟩

/-! ### Names -/

def nameOf : Task → Option Bytes
  | .named name | .allocated name _ | .accepted name _ | .reading name _ | .sending name _ _ | .closing name _ => some name
  | _ => none

structure Named (names : Nat → Bytes) (d : Daemon) : Prop where
  task : ∀ c name, nameOf (d.task c) = some name → name = Muxd.fromUtf8Lossy (names c)
  channel : ∀ c id name, (c, Frame.connected id name) ∈ d.channel → name = Muxd.fromUtf8Lossy (names c)

theorem Named.keep {names : Nat → Bytes} {d d' : Daemon} (h : Named names d) {c : Nat} {t : Task}
    (htask : d'.task = (d.setTask c t).task) (ht : ∀ name, nameOf t = some name → name = Muxd.fromUtf8Lossy (names c))
    (hch : ∀ c' id name, (c', Frame.connected id name) ∈ d'.channel →
      (c', Frame.connected id name) ∈ d.channel ∨ (c' = c ∧ nameOf (d.task c) = some name)) : Named names d' := by
  constructor
  · intro c' name hname
    rw [htask, Muxd.setTask_task] at hname
    split at hname
    · rename_i heq
      rw [heq]
      exact ht name hname
    · exact h.task c' name hname
  · intro c' id name hmem
    rcases hch c' id name hmem with hmem | ⟨rfl, hname⟩
    · exact h.channel c' id name hmem
    · exact h.task c' name hname

theorem Named.step {names : Nat → Bytes} {s : World} {d : Daemon} {a : Muxd.Action} (h : Named names s.daemon)
    (ha : s.Allows names a) (hs : Muxd.step s.daemon a = some d) : Named names d := by
  have hkept : ∀ {c : Nat} {t t' : Task}, s.daemon.task c = t →
      (∀ name, nameOf t' = some name → nameOf t = some name) → ∀ name, nameOf t' = some name → name = Muxd.fromUtf8Lossy (names c) :=
    fun ht hsub name hname => h.task _ name (ht ▸ hsub name hname)
  cases Muxd.step_cases hs with
  | @enroll c nameBuf ht _ =>
    refine h.keep rfl ?_ (fun _ _ _ hmem => .inl hmem)
    intro name hname
    cases hname
    exact congrArg Muxd.fromUtf8Lossy ha
  | abandon ht => exact h.keep rfl (hkept ht (by simp [nameOf])) (fun _ _ _ hmem => .inl hmem)
  | alloc ht => exact h.keep rfl (hkept ht (by simp [nameOf])) (fun _ _ _ hmem => .inl hmem)
  | accept ht => exact h.keep rfl (hkept ht (by simp [nameOf])) (fun _ _ _ hmem => .inl hmem)
  | refuse ht => exact h.keep rfl (hkept ht (by simp [nameOf])) (fun _ _ _ hmem => .inl hmem)
  | read ht => exact h.keep rfl (hkept ht (by simp [nameOf])) (fun _ _ _ hmem => .inl hmem)
  | hangup ht => exact h.keep rfl (hkept ht (by simp [nameOf])) (fun _ _ _ hmem => .inl hmem)
  | sent ht hf =>
    refine h.keep rfl (hkept ht (by cases hf <;> simp [nameOf])) ?_
    intro c' id name hmem
    rcases List.mem_append.mp hmem with hmem | hmem
    · exact .inl hmem
    · cases List.mem_singleton.mp hmem
      cases hf
      exact .inr ⟨rfl, by rw [ht]; rfl⟩
  | unsent ht hf => exact h.keep rfl (hkept ht (by cases hf <;> simp [nameOf])) (fun _ _ _ hmem => .inl hmem)
  | free => exact h.keep rfl (by simp [nameOf]) (fun _ _ _ hmem => .inl hmem)
  | _ => exact ⟨h.task, h.channel⟩

theorem named {names : Nat → Bytes} {as : List Act} {s : World} (hr : RunsTo names as s) : Named names s.daemon := by
  have hstep : ∀ (s : World) (a : Act) (s' : World), Named names s.daemon → True → step names s a = some s' →
      Named names s'.daemon := by
    intro s a s' h _ hs
    cases step_cases hs with
    | muxd ha hd => exact h.step ha hd
    | _ => exact h
  exact hr.invariant hstep ⟨fun _ _ hname => absurd hname (by simp [World.start, Daemon.start, nameOf]),
    fun _ _ _ hmem => absurd hmem (by simp [World.start, Daemon.start])⟩

/-- What every step of the daemon keeps holds of the daemon here. -/
theorem daemon_invariant {Inv : Daemon → Prop} (hstep : ∀ d a d', Inv d → Muxd.step d a = some d' → Inv d')
    (hstart : Inv Daemon.start) {names : Nat → Bytes} {as : List Act} {s : World} (hr : RunsTo names as s) : Inv s.daemon := by
  have hall : ∀ (s : World) (a : Act) (s' : World), Inv s.daemon → True → step names s a = some s' → Inv s'.daemon := by
    intro s a s' h _ hs
    cases step_cases hs with
    | muxd _ hd => exact hstep _ _ _ h hd
    | _ => exact h
  exact hr.invariant hall hstart

/-! ### Sessions and commands -/

theorem joined {names : Nat → Bytes} {as : List Act} {s : World} (hr : RunsTo names as s) : Joined s :=
  hr.invariant (fun _ _ _ h _ hs => h.step hs) .start

/-- What a task has read is what its command printed, as far as it went. -/
theorem Joined.read_prefix {s : World} (h : Joined s) (c : Nat) :
    s.daemon.bytesRead c <+: merged (s.client c).channel := by
  refine (List.prefix_append _ (s.socket c)).trans ?_
  rw [h.conveyed c]
  exact h.written c

/-- Behind the end of the stream it is all of it, if the client was not killed before its return. -/
theorem Joined.read_all {s : World} (h : Joined s) {c : Nat} {id : Byte} {name : Bytes}
    (hmem : (c, Frame.disconnected id name) ∈ s.daemon.channel) {code : Int} (hd : (s.client c).drain = .returned code) :
    s.daemon.bytesRead c = merged (s.client c).channel ∧ ∃ e, (s.client c).exit = some e ∧ code = e.code := by
  have hbroken : (s.client c).broken = false := by
    by_contra hb
    exact (h.broken c (by simpa using hb)).2 id name hmem
  constructor
  · rw [← (h.clients c).returned hbroken hd, ← h.conveyed c, (h.closed c id name hmem).2, List.append_nil]
  · rcases (h.clients c).leaving.code code (by rw [hd]; rfl) with he | ⟨hb, -⟩
    · exact he
    · rw [hbroken] at hb
      cases hb

theorem mem_of_framesOf {d : Daemon} {x : Byte} {p : Nat × Frame} (h : p ∈ d.framesOf x) : p ∈ d.channel :=
  (List.mem_filter.mp h).1

/-- What the session of one bracket carries. -/
structure Carries (names : Nat → Bytes) (s : World) (b : Bracket) : Prop where
  name : Muxd.ValidUtf8 (names b.client) → b.name = names b.client
  front : b.chunks.flatten <+: merged (s.client b.client).channel

/-- What it carries once it is closed. -/
structure Closes (s : World) (b : Bracket) : Prop where
  gone : s.process b.client = .gone
  all : ∀ code, (s.client b.client).drain = .returned code →
    b.chunks.flatten = merged (s.client b.client).channel ∧
    (∃ e, (s.client b.client).exit = some e ∧ code = e.code) ∧
    ∀ p, (s.client b.client).forwarder p = .finished →
      sentBy p (s.client b.client).channel = (s.client b.client).bytesRead p

section Brackets
variable {names : Nat → Bytes} {s : World} (h : Joined s) (hn : Named names s.daemon) {id : Byte} {closed : List Bracket}
  {cur : Option Bracket} (hb : Muxd.Brackets s.daemon id closed cur) {b : Bracket}
include h hn hb

theorem bracket_carries (hmem : b ∈ closed ++ cur.toList) : Carries names s b := by
  have hopened : ∀ p ∈ b.opened id, p ∈ s.daemon.channel := by
    intro p hp
    apply mem_of_framesOf (x := id)
    rw [hb.frames]
    rcases List.mem_append.mp hmem with hmem | hmem
    · exact List.mem_append_left _ (List.mem_flatMap.mpr ⟨b, hmem, List.mem_append_left _ hp⟩)
    · exact List.mem_append_right _ (List.mem_flatMap.mpr ⟨b, hmem, hp⟩)
  constructor
  · intro hutf8
    rw [hn.channel b.client id b.name (hopened _ (List.mem_cons_self ..)), Muxd.fromUtf8Lossy_valid hutf8]
  · refine List.IsPrefix.trans ?_ (h.read_prefix b.client)
    rcases List.mem_append.mp hmem with hmem | hmem
    · exact (hb.closed b hmem).1 ▸ List.prefix_refl _
    · obtain ⟨rest, hread, -⟩ := hb.current b (Option.mem_toList.mp hmem)
      rw [hread]
      exact List.prefix_append _ _

omit hn in
theorem bracket_closes (hmem : b ∈ closed) : Closes s b := by
  have hclose : (b.client, Frame.disconnected id b.name) ∈ s.daemon.channel := by
    apply mem_of_framesOf (x := id)
    rw [hb.frames]
    exact List.mem_append_left _ (List.mem_flatMap.mpr ⟨b, hmem, by simp [Bracket.closed]⟩)
  refine ⟨(h.closed _ _ _ hclose).1, fun code hd => ?_⟩
  obtain ⟨hall, hcode⟩ := h.read_all hclose hd
  rw [(hb.closed b hmem).1]
  exact ⟨hall, hcode, fun p hf => (h.clients b.client).finished hf⟩

end Brackets

/-- Over every interleaving of the daemon, its clients and their commands, the channel of the daemon holds on each
identifier one session after the other. Each bears the name of a command line and carries a part from the front of
what that client's two pipes gave it. A closed session whose client came to its return carries all of it, with every
pipe that has ended to its last byte, and the code returned is that of the command. -/
theorem commands_carried {names : Nat → Bytes} {as : List Act} {s : World} (hr : RunsTo names as s) {id : Byte}
    (hid : id ≠ 0) : ∃ (closed : List Bracket) (cur : Option Bracket),
      s.daemon.framesOf id = closed.flatMap (Bracket.closed id) ++ cur.toList.flatMap (Bracket.opened id) ∧
      (∀ b ∈ closed ++ cur.toList, Carries names s b) ∧ ∀ b ∈ closed, Closes s b := by
  obtain ⟨closed, cur, hb⟩ := (joined hr).sessions.brackets id hid
  exact ⟨closed, cur, hb.frames, fun b hmem => bracket_carries (joined hr) (named hr) hb hmem,
    fun b hmem => bracket_closes (joined hr) hb hmem⟩

def oneCommand : List Act :=
  [.muxd (.enroll 0 [0x61]), .muxd (.alloc 0), .muxd (.reply 0 true), .muxd (.send 0), .exec 0 (.read .stdout [0x62]),
    .exec 0 (.send .stdout), .exec 0 .recv, .exec 0 (.write 1), .muxd (.read 0 [0x62]), .exec 0 (.eof .stdout), .muxd (.send 0),
    .exec 0 (.eof .stderr), .exec 0 .closed, .exec 0 (.childExit (.status (some 0))), .exec 0 .collect, .muxd (.hangup 0),
    .muxd (.send 0), .muxd (.free 0)]

theorem commands_carried_oneCommand : ∃ s, RunsTo (fun _ => [0x61]) oneCommand s ∧ (s.daemon.framesOf 1).length = 3 ∧
    ∃ (closed : List Bracket) (cur : Option Bracket),
      s.daemon.framesOf 1 = closed.flatMap (Bracket.closed 1) ++ cur.toList.flatMap (Bracket.opened 1) ∧
      ∀ b ∈ closed, s.process b.client = .gone := by
  obtain ⟨s, hs⟩ : ∃ s, oneCommand.foldlM (step fun _ => [0x61]) World.start = some s := ⟨_, rfl⟩
  have hr : RunsTo (fun _ => [0x61]) oneCommand s := Machine.runs_of_foldlM (fun _ _ _ => trivial) hs
  have hlen : (s.daemon.framesOf 1).length = 3 := by
    cases hs
    rfl
  obtain ⟨closed, cur, hframes, -, hclosed⟩ := commands_carried hr (show (1 : Byte) ≠ 0 by decide)
  exact ⟨s, hr, hlen, closed, cur, hframes, fun b hb => (hclosed b hb).gone⟩

end VirtiosoMux.ExecUplink
