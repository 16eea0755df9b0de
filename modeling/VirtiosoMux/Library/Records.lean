import Mathlib.Data.List.Basic

/-! # Reading records from a stream in pieces

A reader appends what arrives to a buffer and takes complete records off its front. Each record is
handled by a step that may stop the reader; what has not been taken then stays in the buffer. How
the stream was cut into pieces does not matter.
-/
namespace VirtiosoMux.Records
variable {α σ : Type*}

/-- The first record of a buffer and what follows it. What arrives later does not change it. -/
structure Cutter (α : Type*) where
  next : List α → Option (List α × List α)
  split : ∀ {buffer record rest}, next buffer = some (record, rest) → buffer = record ++ rest
  nonempty : ∀ {buffer record rest}, next buffer = some (record, rest) → record ≠ []
  append : ∀ {buffer record rest}, next buffer = some (record, rest) → ∀ data, next (buffer ++ data) = some (record, rest ++ data)

theorem Cutter.shorter (c : Cutter α) {buffer record rest : List α} (h : c.next buffer = some (record, rest)) :
    rest.length < buffer.length := by
  have hpos := List.length_pos_iff.mpr (c.nonempty h)
  rw [c.split h, List.length_append]
  omega

variable (c : Cutter α) (step : σ → List α → σ × Bool)

/-- Take records until none is complete or a step stops. Result: the buffer, the state, and whether
no step has stopped. -/
def drain (s : σ) (buffer : List α) : List α × σ × Bool :=
  match _hn : c.next buffer with
  | none => (buffer, s, true)
  | some (record, rest) =>
    let (s', ok) := step s record
    if ok then drain s' rest else (rest, s', false)
termination_by buffer.length
decreasing_by exact c.shorter _hn

variable {c step}

end VirtiosoMux.Records
