import VirtiosoMux.Protocol.Codes

/-! # Mirroring the RAW log

While the demuxer appends to `RAW.txt`, the router copies what is new to its own output. The
offset of one call is what the call before has returned. It moves by what has been read, whatever
`os.write` has taken.
-/
namespace VirtiosoMux.Router

/-- One turn of the loop: what the file has grown by, and the outcomes of the read and of the write.
`none` raises an `OSError`; `some n` moves at most `n + 1` bytes. -/
structure MirrorTurn where
  grown : Bytes
  read : Option Nat
  write : Option Nat

/-- The outcomes of one call: opening the file and seeking, and the turns. -/
structure MirrorIo where
  opened : Bool
  turns : List MirrorTurn

structure MirrorWrite where
  chunk : Bytes
  outcome : Option Nat
deriving DecidableEq

/-- The file, the offset returned last, and the writes to `output_fd`. -/
structure Mirror where
  file : Bytes
  offset : Nat
  writes : List MirrorWrite

def Mirror.grow (m : Mirror) (bytes : Bytes) : Mirror := { m with file := m.file ++ bytes }
def Mirror.wrote (m : Mirror) (w : MirrorWrite) : Mirror := { m with writes := m.writes ++ [w] }
def Mirror.advance (m : Mirror) (count : Nat) : Mirror := { m with offset := m.offset + count }

/-- The loop with the position in the open file, `none` if it does not end in these turns. -/
def mirrorLoop (m : Mirror) (pos : Nat) : List MirrorTurn → Option Mirror
  | [] => none
  | turn :: rest =>
    let m := m.grow turn.grown
    match turn.read with
    | none => some m
    | some n =>
      let data := (m.file.drop pos).take (min (n + 1) 4096)
      if data = [] then some m
      else
        match turn.write with
        | none => some (m.wrote ⟨data, none⟩)
        | some count => mirrorLoop ((m.wrote ⟨data, some count⟩).advance data.length) (pos + data.length) rest

def mirrorLogGrowth (m : Mirror) (io : MirrorIo) : Option Mirror :=
  if !io.opened then some m else mirrorLoop m m.offset io.turns

inductive MirrorEvent
  | append (bytes : Bytes)
  | call (io : MirrorIo)

def Mirror.step (m : Mirror) : MirrorEvent → Option Mirror
  | .append bytes => some (m.grow bytes)
  | .call io => mirrorLogGrowth m io

/-- A history, `none` if a call does not return. -/
def Mirror.run (m : Mirror) (events : List MirrorEvent) : Option Mirror := events.foldlM Mirror.step m

def Mirror.start (file : Bytes) (offset : Nat) : Mirror := ⟨file, offset, []⟩

def MirrorWrite.accepted (w : MirrorWrite) : Bytes :=
  match w.outcome with
  | none => []
  | some n => w.chunk.take (n + 1)

def Mirror.accepted (m : Mirror) : Bytes := m.writes.flatMap MirrorWrite.accepted

def MirrorWrite.counted (w : MirrorWrite) : Bytes :=
  match w.outcome with
  | none => []
  | some _ => w.chunk

def Mirror.counted (m : Mirror) : Bytes := m.writes.flatMap MirrorWrite.counted

def MirrorWrite.Whole (w : MirrorWrite) : Prop := ∀ n ∈ w.outcome, w.chunk.length ≤ n + 1

instance (w : MirrorWrite) : Decidable w.Whole := inferInstanceAs (Decidable (∀ n ∈ w.outcome, _))

/-! ### The offset -/

/-- The counted chunks are the file from the first offset to the returned one. -/
structure Mirror.Tracks (first : Nat) (m : Mirror) : Prop where
  content : m.counted <+: m.file.drop first
  offset : m.offset = first + m.counted.length

theorem drop_prefix_append (n : Nat) (file more : Bytes) : file.drop n <+: (file ++ more).drop n := by
  rw [List.drop_append]
  exact List.prefix_append _ _

theorem Mirror.Tracks.grow {first : Nat} {m : Mirror} (h : m.Tracks first) (bytes : Bytes) : (m.grow bytes).Tracks first :=
  ⟨h.content.trans (drop_prefix_append first m.file bytes), h.offset⟩

/-- Behind the counted chunks stands what is read next. -/
theorem Mirror.Tracks.rest {first : Nat} {m : Mirror} (h : m.Tracks first) :
    m.file.drop first = m.counted ++ m.file.drop m.offset := by
  obtain ⟨rest, hrest⟩ := h.content
  rw [h.offset, ← List.drop_drop, ← hrest, List.drop_left]

theorem counted_wrote (m : Mirror) (w : MirrorWrite) : (m.wrote w).counted = m.counted ++ w.counted := by
  simp [Mirror.counted, Mirror.wrote]

/-- A write that raises ends the call before the offset has moved. -/
theorem Mirror.Tracks.raised {first : Nat} {m : Mirror} (h : m.Tracks first) (data : Bytes) :
    (m.wrote ⟨data, none⟩).Tracks first := by
  have hcounted : (m.wrote ⟨data, none⟩).counted = m.counted := by
    rw [counted_wrote]
    exact List.append_nil _
  constructor
  · rw [hcounted]
    exact h.content
  · rw [hcounted]
    exact h.offset

theorem Mirror.Tracks.counts {first : Nat} {m : Mirror} (h : m.Tracks first) {data : Bytes}
    (hdata : data <+: m.file.drop m.offset) (count : Nat) :
    ((m.wrote ⟨data, some count⟩).advance data.length).Tracks first := by
  have hcounted : ((m.wrote ⟨data, some count⟩).advance data.length).counted = m.counted ++ data := counted_wrote m _
  constructor
  · rw [hcounted]
    change m.counted ++ data <+: m.file.drop first
    rw [h.rest]
    exact (List.prefix_append_right_inj _).mpr hdata
  · rw [hcounted, List.length_append, ← Nat.add_assoc, ← h.offset]
    rfl

theorem Mirror.Tracks.loop {first : Nat} {m m' : Mirror} (h : m.Tracks first) {turns : List MirrorTurn}
    (hloop : mirrorLoop m m.offset turns = some m') : m'.Tracks first := by
  induction turns generalizing m with
  | nil => cases hloop
  | cons turn rest ih =>
    have hgrown := h.grow turn.grown
    simp only [mirrorLoop] at hloop
    cases hread : turn.read with
    | none =>
      rw [hread] at hloop
      cases hloop
      exact hgrown
    | some n =>
      rw [hread] at hloop
      dsimp only at hloop
      split at hloop
      · cases hloop
        exact hgrown
      cases hwrite : turn.write with
      | none =>
        rw [hwrite] at hloop
        cases hloop
        exact hgrown.raised _
      | some count =>
        rw [hwrite] at hloop
        -- the position is the offset of the grown file, which growing has not moved
        exact ih (hgrown.counts (List.take_prefix _ _) count) hloop

theorem Mirror.Tracks.step {first : Nat} {m m' : Mirror} (h : m.Tracks first) {event : MirrorEvent}
    (hstep : m.step event = some m') : m'.Tracks first := by
  cases event with
  | append bytes =>
    cases hstep
    exact h.grow bytes
  | call io =>
    simp only [Mirror.step, mirrorLogGrowth] at hstep
    split at hstep
    · cases hstep
      exact h
    · exact h.loop hstep

theorem mirror_tracks {file : Bytes} {offset : Nat} {events : List MirrorEvent} {m : Mirror}
    (hrun : (Mirror.start file offset).run events = some m) : m.Tracks offset := by
  have hstart : (Mirror.start file offset).Tracks offset := ⟨List.nil_prefix, rfl⟩
  generalize Mirror.start file offset = s at hrun hstart
  induction events generalizing s with
  | nil =>
    cases hrun
    exact hstart
  | cons event rest ih =>
    obtain ⟨t, hstep, hrest⟩ := Option.bind_eq_some_iff.mp hrun
    exact ih t hrest (hstart.step hstep)

/-! ### What the output has taken -/

theorem accepted_length_le (w : MirrorWrite) : w.accepted.length ≤ w.counted.length := by
  unfold MirrorWrite.accepted MirrorWrite.counted
  cases w.outcome with
  | none => exact Nat.le_refl _
  | some n => exact (List.take_sublist _ _).length_le

theorem accepted_eq_iff (w : MirrorWrite) : w.accepted = w.counted ↔ w.Whole := by
  unfold MirrorWrite.accepted MirrorWrite.counted MirrorWrite.Whole
  cases w.outcome with
  | none => simp
  | some n =>
    constructor
    · intro htake k hk
      cases hk
      change w.chunk.take (n + 1) = w.chunk at htake
      have hlength := congrArg List.length htake
      rw [List.length_take] at hlength
      omega
    · intro hwhole
      exact List.take_of_length_le (hwhole n rfl)

/-- A write that takes a part only leaves the output behind for good. -/
theorem writes_accepted_iff (writes : List MirrorWrite) :
    (writes.flatMap MirrorWrite.accepted).length ≤ (writes.flatMap MirrorWrite.counted).length ∧
      (writes.flatMap MirrorWrite.accepted = writes.flatMap MirrorWrite.counted ↔ ∀ w ∈ writes, w.Whole) := by
  induction writes with
  | nil => simp
  | cons w rest ih =>
    obtain ⟨hle, hiff⟩ := ih
    have hw := accepted_length_le w
    simp only [List.flatMap_cons, List.length_append, List.forall_mem_cons]
    refine ⟨Nat.add_le_add hw hle, ?_⟩
    rw [← hiff, ← accepted_eq_iff]
    constructor
    · intro heq
      have hlength := congrArg List.length heq
      rw [List.length_append, List.length_append] at hlength
      exact List.append_inj heq (by omega)
    · rintro ⟨hfirst, hrest⟩
      rw [hfirst, hrest]

/-- In every history the output has taken the file from the first offset to the returned one, no more
and no less, if and only if each `os.write` has raised or taken its whole chunk. -/
theorem mirror_exact_iff {file : Bytes} {offset : Nat} {events : List MirrorEvent} {m : Mirror}
    (hrun : (Mirror.start file offset).run events = some m) :
    m.accepted = (m.file.drop offset).take (m.offset - offset) ↔ ∀ w ∈ m.writes, w.Whole := by
  have htracks := mirror_tracks hrun
  have hcounted : m.counted = (m.file.drop offset).take (m.offset - offset) := by
    rw [htracks.offset, Nat.add_sub_cancel_left]
    exact List.prefix_iff_eq_take.mp htracks.content
  rw [← hcounted]
  exact (writes_accepted_iff m.writes).2

def interrupted : List MirrorEvent :=
  [.append [0x61, 0x62], .call ⟨true, [⟨[], some 0, some 7⟩, ⟨[0x63], some 7, none⟩]⟩,
    .call ⟨true, [⟨[], some 7, some 1⟩, ⟨[], some 7, none⟩]⟩]

/-- What the first call could not write is written by the second. -/
theorem mirror_exact_interrupted :
    Mirror.accepted ⟨[0x61, 0x62, 0x63], 3, [⟨[0x61], some 7⟩, ⟨[0x62, 0x63], none⟩, ⟨[0x62, 0x63], some 1⟩]⟩ =
      ([0x61, 0x62, 0x63] : Bytes) :=
  (@mirror_exact_iff [] 0 interrupted _ rfl).mpr (by decide)

/-- The output takes one byte of two, and the other is never written. -/
theorem short_write_skipped : ¬ ∀ file offset events m, (Mirror.start file offset).run events = some m →
    m.accepted = (m.file.drop offset).take (m.offset - offset) := by
  intro h
  have hskip := h [0x61, 0x62] 0 [.call ⟨true, [⟨[], some 4095, some 0⟩, ⟨[], some 4095, none⟩]⟩]
    ⟨[0x61, 0x62], 2, [⟨[0x61, 0x62], some 0⟩]⟩ rfl
  exact absurd hskip (by decide)

end VirtiosoMux.Router
