import Mathlib.Data.List.Basic
import Mathlib.Logic.Function.Basic
import Mathlib.Tactic.Common

/-! # Files that several descriptors append to

A descriptor is opened on a path, and what it writes is appended to the file there. Two
descriptors may be open on one path, so each item of a file is kept with the descriptor that
wrote it. A file is the output of one descriptor exactly if no other one has written to it.
-/
namespace VirtiosoMux.Files
variable {Fd Path α : Type*}

structure World (Fd Path α : Type*) where
  path : Fd → Option Path
  file : Path → List (Fd × α)

namespace World

def empty : World Fd Path α := ⟨fun _ => none, fun _ => []⟩

def content (w : World Fd Path α) (p : Path) : List α := (w.file p).map Prod.snd

/-- Every item has been written by a descriptor that is open on its file. -/
def Owned (w : World Fd Path α) : Prop := ∀ p, ∀ x ∈ w.file p, w.path x.1 = some p

theorem owned_empty : (empty : World Fd Path α).Owned := by
  intro p x hx
  cases hx

section Outputs
variable [DecidableEq Fd] {w : World Fd Path α} {fd : Fd}

def opened (w : World Fd Path α) (fd : Fd) (path : Option Path) : World Fd Path α :=
  { w with path := Function.update w.path fd path }

def output (w : World Fd Path α) (fd : Fd) : List α :=
  match w.path fd with
  | none => []
  | some p => ((w.file p).filter (fun x => x.1 = fd)).map Prod.snd

/-- A descriptor that has written nothing is opened. -/
theorem Owned.opened (hw : w.Owned) (hnew : ∀ p, ∀ x ∈ w.file p, x.1 ≠ fd) (path : Option Path) :
    (w.opened fd path).Owned := by
  intro p x hx
  have hne : x.1 ≠ fd := hnew p x hx
  exact (Function.update_of_ne hne path w.path).trans (hw p x hx)

theorem output_opened_self (hnew : ∀ p, ∀ x ∈ w.file p, x.1 ≠ fd) (path : Option Path) :
    (w.opened fd path).output fd = [] := by
  unfold output World.opened
  simp only [Function.update_self]
  split
  · rfl
  · rename_i p
    rw [List.map_eq_nil_iff, List.filter_eq_nil_iff]
    intro x hx
    simpa using hnew p x hx

theorem output_opened_of_ne {fd' : Fd} (hne : fd' ≠ fd) (path : Option Path) :
    (w.opened fd path).output fd' = w.output fd' := by
  simp only [output, World.opened, Function.update_of_ne hne]

/-- A file holds the output of a descriptor exactly if the other descriptors that are open on it
have no output. -/
theorem Owned.content_eq_iff (hw : w.Owned) {p : Path} (hp : w.path fd = some p) :
    w.content p = w.output fd ↔ ∀ fd', fd' ≠ fd → w.path fd' = some p → w.output fd' = [] := by
  simp only [content, output, hp]
  constructor
  · intro heq fd' hne hfd'
    have hlen := congrArg List.length heq
    simp only [List.length_map] at hlen
    have hall := List.length_filter_eq_length_iff.mp hlen.symm
    simp only [hfd', List.map_eq_nil_iff, List.filter_eq_nil_iff]
    intro x hx
    have hx' : x.1 = fd := by simpa using hall x hx
    simpa [hx'] using hne.symm
  · intro hother
    have hself : (w.file p).filter (fun x => x.1 = fd) = w.file p := by
      rw [List.filter_eq_self]
      intro x hx
      by_contra hne
      have hne' : x.1 ≠ fd := by simpa using hne
      have hxp := hw p x hx
      have hnil := hother x.1 hne' hxp
      simp only [hxp, List.map_eq_nil_iff, List.filter_eq_nil_iff] at hnil
      exact hnil x hx (decide_eq_true rfl)
    rw [hself]

end Outputs

section Appends
variable [DecidableEq Path]

def appended (w : World Fd Path α) (fd : Fd) (data : List α) : World Fd Path α :=
  match w.path fd with
  | none => w
  | some p => { w with file := Function.update w.file p (w.file p ++ data.map (fun x => (fd, x))) }

variable {w : World Fd Path α} {fd : Fd}

@[simp] theorem appended_path (fd : Fd) (data : List α) : (w.appended fd data).path = w.path := by
  unfold appended
  split <;> rfl

theorem Owned.appended (hw : w.Owned) (data : List α) : (w.appended fd data).Owned := by
  intro p x hx
  rw [appended_path]
  unfold World.appended at hx
  cases hfd : w.path fd with
  | none =>
    rw [hfd] at hx
    exact hw p x hx
  | some q =>
    rw [hfd] at hx
    by_cases hp : p = q
    · subst hp
      simp only [Function.update_self, List.mem_append, List.mem_map] at hx
      rcases hx with hx | ⟨y, -, rfl⟩
      · exact hw p x hx
      · exact hfd
    · simp only [Function.update_of_ne hp] at hx
      exact hw p x hx

variable [DecidableEq Fd]

theorem output_appended_self {p : Path} (hp : w.path fd = some p) (data : List α) :
    (w.appended fd data).output fd = w.output fd ++ data := by
  have hkeep : (data.map (fun x => (fd, x))).filter (fun x => x.1 = fd) = data.map (fun x => (fd, x)) := by
    rw [List.filter_eq_self]
    intro x hx
    obtain ⟨y, -, rfl⟩ := List.mem_map.mp hx
    exact decide_eq_true rfl
  have hlist : (data.map (fun x => (fd, x))).map Prod.snd = data := by
    rw [List.map_map]
    exact List.map_id data
  simp only [output, World.appended, hp, Function.update_self, List.filter_append, List.map_append, hkeep, hlist]

/-- Another descriptor's output stays, also if it is open on the same file. -/
theorem output_appended_of_ne {fd' : Fd} (hne : fd' ≠ fd) (data : List α) :
    (w.appended fd data).output fd' = w.output fd' := by
  unfold output
  rw [appended_path]
  cases hfd' : w.path fd' with
  | none => rfl
  | some q =>
    unfold World.appended
    cases hfd : w.path fd with
    | none => rfl
    | some p =>
      by_cases hp : q = p
      · subst hp
        have hdrop : (data.map (fun x => (fd, x))).filter (fun x => x.1 = fd') = [] := by
          rw [List.filter_eq_nil_iff]
          intro x hx
          obtain ⟨y, -, rfl⟩ := List.mem_map.mp hx
          simpa using hne.symm
        simp only [Function.update_self, List.filter_append, hdrop, List.append_nil]
      · simp only [Function.update_of_ne hp]

end Appends

end World

end VirtiosoMux.Files
