import VirtiosoMux.Library.Records
import VirtiosoMux.Router.Mappings

/-! # Mapping lines in pieces

The demuxer's output reaches the router in reads of any size. `_drain_virtioso_mux_mappings` keeps
an incomplete line in its buffer, so what it records and echoes depends on the output alone.
-/
namespace VirtiosoMux.Router
open Records

def mapping (line : Bytes) : Option (Text × Text) :=
  let text := strip (decodeUtf8 line)
  if '\t' ∉ text then none
  else
    let ptyPath := text.takeWhile (· != '\t')
    let name := (text.dropWhile (· != '\t')).tail
    if ptyPath = [] ∨ name = [] then none else some (ptyPath, name)

def Env.session (env : Env) (ptyPath name : Text) : Session where
  sessionId := name
  name := name
  kind := "virtioso_mux_stream".toList
  interactive := name != "RAW".toList
  logPath := env.logPath name
  eventsPath := none
  ptyPath := ptyPath

def lineSession (env : Env) (m : Mappings) (line : Bytes) : Option Session :=
  if (env.io m.lines).echo.isSome && (env.io m.lines).channel then (mapping line).map fun f => env.session f.1 f.2 else none

theorem takeLine_sessions_eq (env : Env) (m : Mappings) (line : Bytes) : (takeLine env m line).1.sessions =
    (lineSession env m line).elim m.sessions fun session => setSession m.sessions session.name session := by
  unfold takeLine lineSession mapping
  cases hecho : (env.io m.lines).echo with
  | none => rfl
  | some count =>
    dsimp only
    by_cases htab : '\t' ∉ strip (decodeUtf8 line)
    · simp only [if_pos htab, Option.map_none, ite_self, Option.elim_none]
    simp only [if_neg htab]
    split
    · simp only [Option.map_none, ite_self, Option.elim_none]
    · cases hchannel : (env.io m.lines).channel <;> simp [recordDynamicMuxSession, hchannel, Env.session]

/-- The mappings with the bytes given to `os.write` for the echo and the sessions recorded, in order. -/
structure Drained where
  mappings : Mappings
  offered : Bytes
  recorded : List Session

def takeLineTraced (env : Env) (d : Drained) (line : Bytes) : Drained × Bool :=
  let (m, ok) := takeLine env d.mappings line
  ({ mappings := if ok then { m with lines := m.lines + 1 } else m
     offered := d.offered ++ line
     recorded := d.recorded ++ (lineSession env d.mappings line).toList }, ok)

/-- The sessions are the ones before with those that were recorded, and the output has taken parts
of what it was given. -/
structure Drained.Sound (before : List (Text × Session)) (d : Drained) : Prop where
  sessions : d.mappings.sessions = d.recorded.foldl (fun sessions s => setSession sessions s.name s) before
  echoed : d.mappings.echoed.Sublist d.offered

/-- The output takes at most what it is given. -/
theorem takeLine_echoed (env : Env) (m : Mappings) (line : Bytes) :
    ∃ part, part <+: line ∧ (takeLine env m line).1.echoed = m.echoed ++ part := by
  unfold takeLine
  cases (env.io m.lines).echo with
  | none => exact ⟨[], List.nil_prefix, (List.append_nil _).symm⟩
  | some count =>
    refine ⟨line.take count, List.take_prefix _ _, ?_⟩
    dsimp only
    split
    · rfl
    split
    · rfl
    · unfold recordDynamicMuxSession
      split <;> rfl

theorem takeLineTraced_mappings (env : Env) (d : Drained) (line : Bytes) :
    (takeLineTraced env d line).1.mappings.sessions = (takeLine env d.mappings line).1.sessions ∧
      (takeLineTraced env d line).1.mappings.echoed = (takeLine env d.mappings line).1.echoed := by
  simp only [takeLineTraced]
  constructor <;> split <;> rfl

theorem Drained.Sound.line {before : List (Text × Session)} {d : Drained} (h : d.Sound before) (env : Env) (line : Bytes) :
    (takeLineTraced env d line).1.Sound before := by
  obtain ⟨hsessions, hechoed⟩ := takeLineTraced_mappings env d line
  constructor
  · rw [hsessions, takeLine_sessions_eq]
    cases hs : lineSession env d.mappings line with
    | none => simp [takeLineTraced, hs, h.sessions]
    | some session => simp [takeLineTraced, hs, h.sessions]
  · obtain ⟨part, hpart, hecho⟩ := takeLine_echoed env d.mappings line
    rw [hechoed, hecho]
    exact h.echoed.append hpart.sublist

def Drained.start (m : Mappings) : Drained := ⟨m, m.echoed, []⟩

theorem Drained.start_sound (m : Mappings) : (Drained.start m).Sound m.sessions := ⟨rfl, List.Sublist.refl _⟩

end VirtiosoMux.Router
