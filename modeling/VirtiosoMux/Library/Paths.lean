import Mathlib.Data.List.Basic

/-! # Resolving path names

A path is cut at its separators and its components are followed one by one: an empty
component and a single dot stay, a double dot leaves the directory, any other component enters.
Symbolic links are not followed. The alphabet and its two special letters are parameters.
-/
namespace VirtiosoMux.Paths
variable {α : Type*} [DecidableEq α] (slash dot : α)

def enter (directory : List (List α)) (component : List α) : List (List α) :=
  if component = [] ∨ component = [dot] then directory
  else if component = [dot, dot] then directory.dropLast
  else directory ++ [component]

def walk (directory : List (List α)) (path : List α) : List (List α) :=
  (path.splitOn slash).foldl (enter dot) directory

/-- A path that starts with the separator is followed from the root. -/
def resolve (workingDirectory : List (List α)) (path : List α) : List (List α) :=
  walk slash dot (if path.head? = some slash then [] else workingDirectory) path

structure Plain (component : List α) : Prop where
  noSlash : slash ∉ component
  nonempty : component ≠ []
  notDot : component ≠ [dot]
  notDots : component ≠ [dot, dot]

variable {slash dot}

theorem walk_child {directory : List (List α)} {component : List α} (hc : Plain slash dot component)
    (path : List α) :
    walk slash dot directory (path ++ slash :: component) = walk slash dot directory path ++ [component] := by
  have hone : component.splitOn slash = [component] := List.splitOn_eq_singleton hc.noSlash
  have hsplit : (path ++ slash :: component).splitOn slash = path.splitOn slash ++ [component] := by
    rw [← hone]
    exact List.splitOnP_append_cons path component (by simp)
  simp only [walk, hsplit, List.foldl_append, List.foldl_cons, List.foldl_nil, enter]
  rw [if_neg (not_or.mpr ⟨hc.nonempty, hc.notDot⟩), if_neg hc.notDots]

/-- A plain component behind a directory names a child of that directory. -/
theorem resolve_child {path component : List α} (hpath : path ≠ []) (hc : Plain slash dot component)
    (workingDirectory : List (List α)) :
    resolve slash dot workingDirectory (path ++ slash :: component) =
      resolve slash dot workingDirectory path ++ [component] := by
  have hhead : (path ++ slash :: component).head? = path.head? := List.head?_append_of_ne_nil _ hpath
  rw [resolve, hhead]
  exact walk_child hc path

/-! ### Reduced paths

Components cancel where one is entered and left again. What remains climbs some levels and then
enters some directories.
-/

variable (dot)

structure Reduced (α : Type*) where
  climbs : Nat
  entered : List (List α)

def reduceStep (r : Reduced α) (component : List α) : Reduced α :=
  if component = [] ∨ component = [dot] then r
  else if component = [dot, dot] then
    if r.entered = [] then { r with climbs := r.climbs + 1 } else { r with entered := r.entered.dropLast }
  else { r with entered := r.entered ++ [component] }

def reduce (components : List (List α)) : Reduced α := components.foldl (reduceStep dot) ⟨0, []⟩

/-- Where a reduced path leads from a directory; the root is not left by climbing. -/
def Reduced.follow (r : Reduced α) (directory : List (List α)) : List (List α) :=
  directory.take (directory.length - r.climbs) ++ r.entered

theorem reduceStep_follow (r : Reduced α) (component : List α) (directory : List (List α)) :
    (reduceStep dot r component).follow directory = enter dot (r.follow directory) component := by
  unfold reduceStep enter
  split
  · rfl
  split
  · by_cases hnone : r.entered = []
    · have hclimb : directory.take (directory.length - (r.climbs + 1)) =
          (directory.take (directory.length - r.climbs)).dropLast := by
        rw [List.dropLast_eq_take, List.take_take, List.length_take]
        congr 1
        omega
      rw [if_pos hnone]
      simp only [Reduced.follow, hnone, List.append_nil, hclimb]
    · simp only [if_neg hnone, Reduced.follow, List.dropLast_append_of_ne_nil hnone]
  · simp only [Reduced.follow, List.append_assoc]

/-- Following the components is following what they reduce to. -/
theorem foldl_enter (components : List (List α)) (directory : List (List α)) :
    components.foldl (enter dot) directory = (reduce dot components).follow directory := by
  have hfold : ∀ r : Reduced α, components.foldl (enter dot) (r.follow directory) =
      (components.foldl (reduceStep dot) r).follow directory := by
    induction components with
    | nil => exact fun r => rfl
    | cons component rest ih =>
      intro r
      rw [List.foldl_cons, List.foldl_cons, ← reduceStep_follow, ih]
  have hstart : (⟨0, []⟩ : Reduced α).follow directory = directory := by simp [Reduced.follow]
  rw [reduce, ← hfold, hstart]

omit [DecidableEq α] in
/-- A path leads to a child of its start if it comes down again the way it has climbed, and then
enters the child. -/
theorem Reduced.follow_eq_child {r : Reduced α} {directory : List (List α)} {child : List α} :
    r.follow directory = directory ++ [child] ↔ r.entered = directory.drop (directory.length - r.climbs) ++ [child] := by
  have hcut := List.take_append_drop (directory.length - r.climbs) directory
  constructor
  · intro h
    rw [Reduced.follow] at h
    nth_rewrite 3 [← hcut] at h
    rw [List.append_assoc] at h
    exact List.append_cancel_left h
  · intro h
    rw [Reduced.follow, h, ← List.append_assoc, hcut]

end VirtiosoMux.Paths
