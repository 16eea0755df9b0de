import Mathlib.Control.Monad.Writer
import Mathlib.Logic.Function.Basic

/-! # Computations that record what they do

A computation in the writer monad records an event for each step that matters. Without the
record it is a plain function, and what is to hold of every event is derived along the binds.
Arrays are read and written through functions that record the index they use.
-/
namespace VirtiosoMux.Recorded
variable {ε α β : Type}

abbrev Recording (ε α : Type) := Writer (List ε) α

def value (m : Recording ε α) : α := (WriterT.run m : α × List ε).1
def events (m : Recording ε α) : List ε := (WriterT.run m : α × List ε).2

def record (e : ε) : Recording ε Unit := WriterT.mk ((), [e])

/-- `site` is the event of an access to this array. -/
def readAt (site : Nat → ε) (array : Nat → α) (i : Nat) : Recording ε α := do
  record (site i)
  pure (array i)

def writeAt (site : Nat → ε) (array : Nat → α) (i : Nat) (x : α) : Recording ε (Nat → α) := do
  record (site i)
  pure (Function.update array i x)

def Each (P : ε → Prop) (m : Recording ε α) : Prop := ∀ e ∈ events m, P e

/-! ### Values -/

@[simp] theorem value_pure (a : α) : value (pure a : Recording ε α) = a := rfl
@[simp] theorem value_bind (m : Recording ε α) (f : α → Recording ε β) : value (m >>= f) = value (f (value m)) := rfl
@[simp] theorem value_readAt (site : Nat → ε) (array : Nat → α) (i : Nat) : value (readAt site array i) = array i := rfl

@[simp] theorem value_writeAt (site : Nat → ε) (array : Nat → α) (i : Nat) (x : α) :
    value (writeAt site array i x) = Function.update array i x := rfl

@[simp] theorem value_ite (p : Prop) {_ : Decidable p} (m n : Recording ε α) :
    value (if p then m else n) = if p then value m else value n := apply_ite value p m n

/-! ### Events -/

@[simp] theorem events_bind (m : Recording ε α) (f : α → Recording ε β) :
    events (m >>= f) = events m ++ events (f (value m)) := rfl

section Each
variable {P : ε → Prop}

theorem Each.pure (a : α) : Each P (pure a : Recording ε α) := by
  intro e he
  cases he

theorem Each.bind {m : Recording ε α} {f : α → Recording ε β} (hm : Each P m) (hf : Each P (f (value m))) :
    Each P (m >>= f) := by
  intro e he
  rcases List.mem_append.mp he with he | he
  · exact hm e he
  · exact hf e he

theorem Each.ite {p : Prop} {_ : Decidable p} {m n : Recording ε α} (hm : p → Each P m) (hn : ¬ p → Each P n) :
    Each P (if p then m else n) := by
  split
  · exact hm ‹_›
  · exact hn ‹_›

theorem Each.record {e : ε} (he : P e) : Each P (record e) := by
  intro e' he'
  rw [List.mem_singleton.mp he']
  exact he

theorem Each.readAt {site : Nat → ε} {i : Nat} (hi : P (site i)) (array : Nat → α) : Each P (readAt site array i) :=
  (Each.record hi).bind (.pure _)

theorem Each.writeAt {site : Nat → ε} {i : Nat} (hi : P (site i)) (array : Nat → α) (x : α) :
    Each P (writeAt site array i x) :=
  (Each.record hi).bind (.pure _)

theorem Each.imp {Q : ε → Prop} {m : Recording ε α} (hm : Each P m) (himp : ∀ e, P e → Q e) : Each Q m :=
  fun e he => himp e (hm e he)

end Each

/-! ### Acting on a state

The events act on a state in their order. A computation leads from a condition on the state to a
condition on its value and the state behind it.
-/

section Leads
variable {σ : Type*} {act : σ → ε → σ} {P : σ → Prop} {R : α → σ → Prop} {Q : β → σ → Prop}

def Leads (act : σ → ε → σ) (P : σ → Prop) (m : Recording ε α) (R : α → σ → Prop) : Prop :=
  ∀ s, P s → R (value m) ((events m).foldl act s)

theorem Leads.pure {a : α} (h : ∀ s, P s → R a s) : Leads act P (pure a : Recording ε α) R := h

theorem Leads.bind {m : Recording ε α} {f : α → Recording ε β} (hm : Leads act P m R)
    (hf : Leads act (R (value m)) (f (value m)) Q) : Leads act P (m >>= f) Q := by
  intro s hs
  rw [events_bind, List.foldl_append]
  exact hf _ (hm s hs)

theorem Leads.ite {p : Prop} {_ : Decidable p} {m n : Recording ε α} (hm : p → Leads act P m R)
    (hn : ¬ p → Leads act P n R) : Leads act P (if p then m else n) R := by
  split
  · exact hm ‹_›
  · exact hn ‹_›

theorem Leads.record {e : ε} {S : Unit → σ → Prop} (h : ∀ s, P s → S () (act s e)) : Leads act P (record e) S := h

/-- Events that leave the state alone keep every condition on it. -/
theorem Leads.quiet {m : Recording ε α} (hm : Each (fun e => ∀ s, act s e = s) m) : Leads act P m (fun _ => P) := by
  intro s hs
  have hsame : (events m).foldl act s = s := by
    unfold Each at hm
    generalize events m = es at hm
    induction es with
    | nil => rfl
    | cons e es ih =>
      rw [List.foldl_cons, hm e List.mem_cons_self s]
      exact ih (fun e' he' => hm e' (List.mem_cons_of_mem _ he'))
  rw [hsame]
  exact hs

theorem Leads.pre {P' : σ → Prop} {m : Recording ε α} (hpre : ∀ s, P s → P' s) (hm : Leads act P' m R) : Leads act P m R :=
  fun s hs => hm s (hpre s hs)

theorem Leads.imp {m : Recording ε α} {S : α → σ → Prop} (hm : Leads act P m R) (himp : ∀ s, R (value m) s → S (value m) s) :
    Leads act P m S :=
  fun s hs => himp _ (hm s hs)

end Leads

end VirtiosoMux.Recorded
