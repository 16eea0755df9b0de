import Mathlib.Logic.Function.Basic
import VirtiosoMux.Library.Runs

/-! # Calls whose bodies run under one lock

Threads make calls. The body of a call takes the lock, puts its pieces on a line that all threads
share, and gives the lock back. If no body can return with the lock, the line is what the calls put
on it one after the other, and the lock always becomes free again.
-/
namespace VirtiosoMux.Locked
variable {τ κ β ι α : Type*}

/-- How a body goes on behind a piece: with the next one, by a return that gives the lock back, or by
one that does not. -/
inductive Next (β : Type*)
  | more (b : β)
  | release
  | leak

/-- `enter` is the body of a thread's call, `none` for a call that returns in front of the lock; `emit` is
one piece of a body, given the outcome of what it calls. -/
structure Calls (τ κ β ι α : Type*) where
  enter : τ → κ → Option β
  emit : β → ι → List α × Next β

/-- One call alone. Outcomes behind its return are ignored. -/
def Calls.run (C : Calls τ κ β ι α) : β → List ι → List α × Next β
  | b, [] => ([], .more b)
  | b, i :: is =>
    match C.emit b i with
    | (out, .more b') => (out ++ (C.run b' is).1, (C.run b' is).2)
    | (out, .release) => (out, .release)
    | (out, .leak) => (out, .leak)

theorem Calls.run_snoc (C : Calls τ κ β ι α) {b b' : β} {is : List ι} {out : List α} (h : C.run b is = (out, .more b')) (i : ι) :
    C.run b (is ++ [i]) = (out ++ (C.emit b' i).1, (C.emit b' i).2) := by
  induction is generalizing b out with
  | nil =>
    cases h
    rcases hi : C.emit b' i with ⟨o, n⟩
    cases n <;> simp [Calls.run, hi]
  | cons j is ih =>
    rcases hj : C.emit b j with ⟨o, n⟩
    cases n with
    | more b₁ =>
      simp only [Calls.run, hj, Prod.mk.injEq] at h
      obtain ⟨rfl, hn⟩ := h
      have hrest := ih (show C.run b₁ is = ((C.run b₁ is).1, .more b') from Prod.ext rfl hn)
      simp [Calls.run, hj, hrest]
    | release => simp [Calls.run, hj] at h
    | leak => simp [Calls.run, hj] at h

/-! ### The threads -/

inductive Thread (κ β : Type*)
  | idle
  | waiting (call : κ) (body : β)
  | inside (body : β)

/-- A call that has had the lock, with the outcomes that its body has got. -/
structure Turn (τ κ ι : Type*) where
  thread : τ
  call : κ
  outcomes : List ι

/-- `turns` are the calls that have returned from behind the lock and `turn` the one that is there; `made` are
the calls of a thread that have come to the lock. -/
structure Line (τ κ β ι α : Type*) where
  thread : τ → Thread κ β
  lock : Option τ
  turns : List (Turn τ κ ι)
  turn : Option (Turn τ κ ι)
  made : τ → List κ
  out : List α

def Line.start : Line τ κ β ι α where
  thread _ := .idle
  lock := none
  turns := []
  turn := none
  made _ := []
  out := []

inductive Action (τ κ ι : Type*)
  | call (t : τ) (c : κ)
  | acquire (t : τ)
  | emit (t : τ) (i : ι)

def Turn.snoc (e : Turn τ κ ι) (i : ι) : Turn τ κ ι := { e with outcomes := e.outcomes ++ [i] }

section Steps
variable [DecidableEq τ]

def Line.setThread (s : Line τ κ β ι α) (t : τ) (v : Thread κ β) : Line τ κ β ι α :=
  { s with thread := Function.update s.thread t v }

theorem setThread_thread (s : Line τ κ β ι α) (t t' : τ) (v : Thread κ β) :
    (s.setThread t v).thread t' = if t' = t then v else s.thread t' := by
  simp [Line.setThread, Function.update_apply]

def Line.emitted (s : Line τ κ β ι α) (t : τ) (i : ι) (out : List α) : Next β → Line τ κ β ι α
  | .more b => { s.setThread t (.inside b) with turn := s.turn.map (fun e => e.snoc i), out := s.out ++ out }
  | .release => { s.setThread t .idle with
      lock := none, turns := s.turns ++ (s.turn.map (fun e => e.snoc i)).toList, turn := none, out := s.out ++ out }
  | .leak => { s.setThread t .idle with
      turns := s.turns ++ (s.turn.map (fun e => e.snoc i)).toList, turn := none, out := s.out ++ out }

def step (C : Calls τ κ β ι α) (s : Line τ κ β ι α) : Action τ κ ι → Option (Line τ κ β ι α)
  | .call t c =>
    match s.thread t, C.enter t c with
    | .idle, some b => some { s.setThread t (.waiting c b) with made := Function.update s.made t (s.made t ++ [c]) }
    | .idle, none => some s
    | _, _ => none
  | .acquire t =>
    match s.thread t, s.lock with
    | .waiting c b, none => some { s.setThread t (.inside b) with lock := some t, turn := some ⟨t, c, []⟩ }
    | _, _ => none
  | .emit t i =>
    match s.thread t with
    | .inside b => some (s.emitted t i (C.emit b i).1 (C.emit b i).2)
    | _ => none

abbrev RunsTo (C : Calls τ κ β ι α) (as : List (Action τ κ ι)) (s : Line τ κ β ι α) : Prop :=
  Machine.Runs (step C) (fun _ _ => True) Line.start as s

inductive Stepped (C : Calls τ κ β ι α) (s : Line τ κ β ι α) : Action τ κ ι → Line τ κ β ι α → Prop
  | call {t : τ} {c : κ} {b : β} (ht : s.thread t = .idle) (hb : C.enter t c = some b) :
      Stepped C s (.call t c) { s.setThread t (.waiting c b) with made := Function.update s.made t (s.made t ++ [c]) }
  | refused {t : τ} {c : κ} : Stepped C s (.call t c) s
  | acquire {t : τ} {c : κ} {b : β} (ht : s.thread t = .waiting c b) (hfree : s.lock = none) :
      Stepped C s (.acquire t) { s.setThread t (.inside b) with lock := some t, turn := some ⟨t, c, []⟩ }
  | emit {t : τ} {i : ι} {b : β} (ht : s.thread t = .inside b) :
      Stepped C s (.emit t i) (s.emitted t i (C.emit b i).1 (C.emit b i).2)

theorem step_cases {C : Calls τ κ β ι α} {s s' : Line τ κ β ι α} {a : Action τ κ ι} (h : step C s a = some s') :
    Stepped C s a s' := by
  cases a with
  | call t c =>
    simp only [step] at h
    split at h
    · rename_i b ht hb
      cases h
      exact .call ht hb
    · cases h
      exact .refused
    · cases h
  | acquire t =>
    simp only [step] at h
    split at h
    · rename_i c b ht hfree
      cases h
      exact .acquire ht hfree
    · cases h
  | emit t i =>
    simp only [step] at h
    split at h
    · rename_i b ht
      cases h
      exact .emit ht
    · cases h

end Steps

/-! ### Bodies that give the lock back -/

/-- `P` holds of every body on its way and rules out a return with the lock; `m` falls with every piece. -/
structure Releases (C : Calls τ κ β ι α) (P : β → Prop) (m : β → Nat) : Prop where
  enter : ∀ t c b, C.enter t c = some b → P b
  more : ∀ b i b', P b → (C.emit b i).2 = .more b' → P b' ∧ m b' < m b
  keep : ∀ b i, P b → (C.emit b i).2 ≠ .leak

def Turn.output (C : Calls τ κ β ι α) (e : Turn τ κ ι) : List α :=
  match C.enter e.thread e.call with
  | none => []
  | some b => (C.run b e.outcomes).1

def Turn.Returned (C : Calls τ κ β ι α) (e : Turn τ κ ι) : Prop :=
  ∃ b, C.enter e.thread e.call = some b ∧ (C.run b e.outcomes).2 = .release

def Thread.waits : Thread κ β → List κ
  | .waiting c _ => [c]
  | _ => []

def callsOf [DecidableEq τ] (t : τ) (turns : List (Turn τ κ ι)) : List κ :=
  (turns.filter (fun e => e.thread = t)).map Turn.call

section Invariant
variable [DecidableEq τ] {C : Calls τ κ β ι α} {P : β → Prop} {m : β → Nat}

structure Orderly (C : Calls τ κ β ι α) (P : β → Prop) (s : Line τ κ β ι α) : Prop where
  holder : ∀ t, s.lock = some t ↔ ∃ b, s.thread t = .inside b
  waiting : ∀ t c b, s.thread t = .waiting c b → C.enter t c = some b
  inside : ∀ t b, s.thread t = .inside b → P b ∧ ∃ e b₀ out, s.turn = some e ∧ e.thread = t ∧
    C.enter t e.call = some b₀ ∧ C.run b₀ e.outcomes = (out, .more b)
  free : s.lock = none → s.turn = none
  returned : ∀ e ∈ s.turns, e.Returned C
  out : s.out = (s.turns ++ s.turn.toList).flatMap (Turn.output C)
  made : ∀ t, s.made t = callsOf t (s.turns ++ s.turn.toList) ++ (s.thread t).waits

theorem Orderly.start : Orderly C P Line.start := by
  constructor
  · intro t
    constructor
    · intro h
      cases h
    · rintro ⟨b, h⟩
      cases h
  · exact fun _ _ _ h => by cases h
  · exact fun _ _ h => by cases h
  · exact fun _ => rfl
  · exact List.forall_mem_nil _
  · rfl
  · exact fun _ => rfl

theorem callsOf_append (t : τ) (xs ys : List (Turn τ κ ι)) : callsOf t (xs ++ ys) = callsOf t xs ++ callsOf t ys := by
  simp [callsOf]

theorem callsOf_one (t : τ) (e : Turn τ κ ι) : callsOf t [e] = if e.thread = t then [e.call] else [] := by
  by_cases h : e.thread = t <;> simp [callsOf, h]

variable {s : Line τ κ β ι α}

/-- Only one thread is behind the lock. -/
theorem Orderly.only (h : Orderly C P s) {t t' : τ} {b b' : β} (ht : s.thread t = .inside b)
    (ht' : s.thread t' = .inside b') : t' = t := by
  have hlock := (h.holder t).mpr ⟨b, ht⟩
  have hlock' := (h.holder t').mpr ⟨b', ht'⟩
  exact Option.some.inj (hlock'.symm.trans hlock)

theorem Orderly.call (h : Orderly C P s) {t : τ} {c : κ} {b : β} (ht : s.thread t = .idle) (hb : C.enter t c = some b) :
    Orderly C P { s.setThread t (.waiting c b) with made := Function.update s.made t (s.made t ++ [c]) } := by
  have hthread : ∀ t', (s.setThread t (.waiting c b)).thread t' = if t' = t then .waiting c b else s.thread t' :=
    fun t' => setThread_thread s t t' _
  constructor
  · intro t'
    change s.lock = some t' ↔ ∃ b', (s.setThread t (.waiting c b)).thread t' = .inside b'
    rw [h.holder t', hthread]
    by_cases heq : t' = t
    · simp [heq, ht]
    · simp [heq]
  · intro t' c' b' hw
    change (s.setThread t (.waiting c b)).thread t' = _ at hw
    rw [hthread] at hw
    split at hw
    · rename_i heq
      cases hw
      exact heq ▸ hb
    · exact h.waiting t' c' b' hw
  · intro t' b' hin
    change (s.setThread t (.waiting c b)).thread t' = _ at hin
    rw [hthread] at hin
    split at hin
    · cases hin
    · exact h.inside t' b' hin
  · exact h.free
  · exact h.returned
  · exact h.out
  · intro t'
    change Function.update s.made t _ t' = callsOf t' (s.turns ++ s.turn.toList) ++
      ((s.setThread t (.waiting c b)).thread t').waits
    rw [hthread]
    by_cases heq : t' = t
    · subst heq
      have hmade := h.made t'
      rw [ht] at hmade
      rw [Function.update_self, if_pos rfl, hmade]
      simp [Thread.waits]
    · rw [Function.update_of_ne heq, if_neg heq, h.made t']

theorem Orderly.acquire (h : Orderly C P s) (hr : Releases C P m) {t : τ} {c : κ} {b : β} (ht : s.thread t = .waiting c b)
    (hfree : s.lock = none) :
    Orderly C P { s.setThread t (.inside b) with lock := some t, turn := some ⟨t, c, []⟩ } := by
  have hthread : ∀ t', (s.setThread t (.inside b)).thread t' = if t' = t then .inside b else s.thread t' :=
    fun t' => setThread_thread s t t' _
  have henter := h.waiting t c b ht
  have hnone : ∀ t' b', s.thread t' ≠ .inside b' := by
    intro t' b' hin
    have hlock := (h.holder t').mpr ⟨b', hin⟩
    rw [hfree] at hlock
    cases hlock
  have hturn := h.free hfree
  constructor
  · intro t'
    change some t = some t' ↔ ∃ b', (s.setThread t (.inside b)).thread t' = .inside b'
    rw [hthread]
    by_cases heq : t' = t
    · simp [heq]
    · simp [heq, hnone t', Ne.symm heq]
  · intro t' c' b' hw
    change (s.setThread t (.inside b)).thread t' = _ at hw
    rw [hthread] at hw
    split at hw
    · cases hw
    · exact h.waiting t' c' b' hw
  · intro t' b' hin
    change (s.setThread t (.inside b)).thread t' = _ at hin
    rw [hthread] at hin
    split at hin
    · rename_i heq
      cases hin
      exact ⟨hr.enter t c b henter, ⟨t, c, []⟩, b, [], rfl, heq.symm, heq ▸ henter, rfl⟩
    · exact absurd hin (hnone t' b')
  · exact fun hlock => by cases hlock
  · exact h.returned
  · have hnew : Turn.output C ⟨t, c, ([] : List ι)⟩ = [] := by simp [Turn.output, henter, Calls.run]
    change s.out = (s.turns ++ [(⟨t, c, []⟩ : Turn τ κ ι)]).flatMap (Turn.output C)
    rw [List.flatMap_append, List.flatMap_singleton, hnew, h.out, hturn]
    simp
  · intro t'
    change s.made t' = callsOf t' (s.turns ++ [⟨t, c, []⟩]) ++ ((s.setThread t (.inside b)).thread t').waits
    have hmade := h.made t'
    rw [hturn, Option.toList_none, List.append_nil] at hmade
    rw [hthread, callsOf_append, callsOf_one, hmade]
    by_cases heq : t' = t
    · subst heq
      simp [ht, Thread.waits]
    · simp [heq, Ne.symm heq]

/-- The line behind a piece of the body that has the lock. -/
theorem Orderly.out_emit (h : Orderly C P s) {e : Turn τ κ ι} {b₀ b : β} {out : List α} (hturn : s.turn = some e)
    (henter : C.enter e.thread e.call = some b₀) (hrun : C.run b₀ e.outcomes = (out, .more b)) (i : ι) :
    s.out ++ (C.emit b i).1 = (s.turns ++ [e.snoc i]).flatMap (Turn.output C) := by
  have hold : e.output C = out := by simp [Turn.output, henter, hrun]
  have hnew : (e.snoc i).output C = out ++ (C.emit b i).1 := by
    simp [Turn.output, Turn.snoc, henter, C.run_snoc hrun i]
  rw [h.out, hturn]
  simp [hold, hnew]

theorem Orderly.made_emit (h : Orderly C P s) {e : Turn τ κ ι} (hturn : s.turn = some e) (i : ι) (t : τ) :
    s.made t = callsOf t (s.turns ++ [e.snoc i]) ++ (s.thread t).waits := by
  have hmade := h.made t
  rw [hturn, Option.toList_some, callsOf_append, callsOf_one] at hmade
  rw [callsOf_append, callsOf_one, hmade]
  rfl

/-- A thread that has the lock moves to a place where it waits for nothing. -/
theorem waits_emit {t : τ} {b : β} (ht : s.thread t = .inside b) {v : Thread κ β} (hv : v.waits = []) (t' : τ) :
    ((s.setThread t v).thread t').waits = (s.thread t').waits := by
  rw [setThread_thread]
  split
  · rename_i heq
    rw [hv, heq, ht]
    rfl
  · rfl

/-- A piece of the body that has the lock, with more to come. -/
theorem Orderly.more (h : Orderly C P s) (hr : Releases C P m) {t : τ} {i : ι} {b b' : β} (ht : s.thread t = .inside b)
    (hnext : (C.emit b i).2 = .more b') : Orderly C P (s.emitted t i (C.emit b i).1 (.more b')) := by
  obtain ⟨hP, e, b₀, out, hturn, rfl, henter, hrun⟩ := h.inside t b ht
  have hsnoc := C.run_snoc hrun i
  rw [hnext] at hsnoc
  have hthread : ∀ t', (s.setThread e.thread (.inside b')).thread t' = if t' = e.thread then .inside b' else s.thread t' :=
    fun t' => setThread_thread s e.thread t' _
  have hmap : s.turn.map (fun e => e.snoc i) = some (e.snoc i) := by rw [hturn, Option.map_some]
  constructor
  · intro t'
    change s.lock = some t' ↔ ∃ b, (s.setThread e.thread (.inside b')).thread t' = .inside b
    rw [h.holder t', hthread]
    by_cases heq : t' = e.thread
    · simp [heq, ht]
    · simp [heq]
  · intro t' c' b'' hw
    change (s.setThread e.thread (.inside b')).thread t' = _ at hw
    rw [hthread] at hw
    split at hw
    · cases hw
    · exact h.waiting t' c' b'' hw
  · intro t' b'' hin
    change (s.setThread e.thread (.inside b')).thread t' = _ at hin
    rw [hthread] at hin
    split at hin
    · rename_i heq
      cases hin
      exact ⟨(hr.more b i _ hP hnext).1, e.snoc i, b₀, _, hmap, heq.symm, heq ▸ henter, hsnoc⟩
    · rename_i heq
      exact absurd (h.only ht hin) heq
  · intro hlock
    have hheld := (h.holder e.thread).mpr ⟨b, ht⟩
    exact absurd (hheld.symm.trans hlock) (by simp)
  · exact h.returned
  · change s.out ++ _ = (s.turns ++ (s.turn.map (fun e => e.snoc i)).toList).flatMap (Turn.output C)
    rw [hmap]
    exact h.out_emit hturn henter hrun i
  · intro t'
    change s.made t' = callsOf t' (s.turns ++ (s.turn.map (fun e => e.snoc i)).toList) ++
      ((s.setThread e.thread (.inside b')).thread t').waits
    rw [hmap, waits_emit ht rfl]
    exact h.made_emit hturn i t'

/-- The last piece of the body that has the lock. -/
theorem Orderly.release (h : Orderly C P s) {t : τ} {i : ι} {b : β} (ht : s.thread t = .inside b)
    (hnext : (C.emit b i).2 = .release) : Orderly C P (s.emitted t i (C.emit b i).1 .release) := by
  obtain ⟨-, e, b₀, out, hturn, rfl, henter, hrun⟩ := h.inside t b ht
  have hsnoc := C.run_snoc hrun i
  rw [hnext] at hsnoc
  have hthread : ∀ t', (s.setThread e.thread .idle).thread t' = if t' = e.thread then .idle else s.thread t' :=
    fun t' => setThread_thread s e.thread t' _
  have hmap : s.turn.map (fun e => e.snoc i) = some (e.snoc i) := by rw [hturn, Option.map_some]
  constructor
  · intro t'
    change none = some t' ↔ ∃ b, (s.setThread e.thread .idle).thread t' = .inside b
    rw [hthread]
    by_cases heq : t' = e.thread
    · simp [heq]
    · simp only [heq, if_false, reduceCtorEq, false_iff, not_exists]
      exact fun b' hin => heq (h.only ht hin)
  · intro t' c' b' hw
    change (s.setThread e.thread .idle).thread t' = _ at hw
    rw [hthread] at hw
    split at hw
    · cases hw
    · exact h.waiting t' c' b' hw
  · intro t' b' hin
    change (s.setThread e.thread .idle).thread t' = _ at hin
    rw [hthread] at hin
    split at hin
    · cases hin
    · rename_i heq
      exact absurd (h.only ht hin) heq
  · exact fun _ => rfl
  · intro e' he'
    change e' ∈ s.turns ++ (s.turn.map (fun e => e.snoc i)).toList at he'
    rw [hmap] at he'
    rcases List.mem_append.mp he' with he' | he'
    · exact h.returned e' he'
    · rw [List.mem_singleton.mp he']
      exact ⟨b₀, henter, congrArg Prod.snd hsnoc⟩
  · change s.out ++ _ = (s.turns ++ (s.turn.map (fun e : Turn τ κ ι => e.snoc i)).toList ++ []).flatMap (Turn.output C)
    rw [hmap, List.append_nil]
    exact h.out_emit hturn henter hrun i
  · intro t'
    change s.made t' = callsOf t' (s.turns ++ (s.turn.map (fun e => e.snoc i)).toList ++ []) ++
      ((s.setThread e.thread .idle).thread t').waits
    rw [hmap, List.append_nil, waits_emit ht rfl]
    exact h.made_emit hturn i t'

theorem Orderly.step (h : Orderly C P s) (hr : Releases C P m) {s' : Line τ κ β ι α} {a : Action τ κ ι}
    (hs : step C s a = some s') : Orderly C P s' := by
  cases step_cases hs with
  | call ht hb => exact h.call ht hb
  | refused => exact h
  | acquire ht hfree => exact h.acquire hr ht hfree
  | @emit t i b ht =>
    rcases hnext : (C.emit b i).2 with b' | _ | _
    · exact h.more hr ht hnext
    · exact h.release ht hnext
    · exact absurd hnext (hr.keep b i (h.inside t b ht).1)

/-- On every run the line is the calls one after the other in the order of the lock, all but the last come to
their return, and each thread's calls in the order in which it made them. -/
theorem orderly (hr : Releases C P m) {as : List (Action τ κ ι)} {s : Line τ κ β ι α} (h : RunsTo C as s) :
    Orderly C P s :=
  h.invariant (fun _ _ _ h _ hs => h.step hr hs) .start

/-! ### The lock becomes free -/

/-- The thread with the lock gives it back by its own steps, whatever comes of its calls. -/
theorem Orderly.freed (h : Orderly C P s) (hr : Releases C P m) {t : τ} (ht : s.lock = some t) (outcomes : Nat → ι) :
    ∃ n s', Machine.Runs (Locked.step C) (fun _ _ => True) s ((List.range n).map fun k => .emit t (outcomes k)) s' ∧
      s'.lock = none := by
  obtain ⟨b, hin⟩ := (h.holder t).mp ht
  -- the body's measure falls with every piece
  induction hk : m b using Nat.strongRecOn generalizing s b outcomes with
  | ind k ih =>
    have hs : Locked.step C s (.emit t (outcomes 0)) = some (s.emitted t (outcomes 0) (C.emit b (outcomes 0)).1
        (C.emit b (outcomes 0)).2) := by simp [Locked.step, hin]
    have hone : Machine.Runs (Locked.step C) (fun _ _ => True) s [.emit t (outcomes 0)] _ := .snoc (.refl s) trivial hs
    have hnow := h.step hr hs
    rcases hnext : (C.emit b (outcomes 0)).2 with b' | _ | _
    · rw [hnext] at hone hnow
      have hlt := (hr.more b (outcomes 0) b' (h.inside t b hin).1 hnext).2
      have hin' : (s.emitted t (outcomes 0) (C.emit b (outcomes 0)).1 (.more b')).thread t = .inside b' :=
        (setThread_thread s t t _).trans (if_pos rfl)
      obtain ⟨n, s', hrun, hfree⟩ := ih (m b') (hk ▸ hlt) hnow ht (fun k => outcomes (k + 1)) b' hin' rfl
      refine ⟨n + 1, s', ?_, hfree⟩
      rw [List.range_succ_eq_map, List.map_cons, List.map_map]
      exact hone.trans hrun
    · rw [hnext] at hone
      exact ⟨1, _, hone, rfl⟩
    · exact absurd hnext (hr.keep b (outcomes 0) (h.inside t b hin).1)

end Invariant

end VirtiosoMux.Locked
