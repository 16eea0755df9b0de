import VirtiosoMux.Library.ByteStuffing

/-! # Demultiplexing a stuffed line

A frame names its target behind an escape symbol, carries a stuffed payload and is closed by
another escape pair. A receiver keeps the selected target and whether an escape is pending.
Which symbols select which targets is a parameter, and the line need not be well formed.
-/
namespace VirtiosoMux.Demux
open ByteStuffing
variable {α ι : Type*}

structure Cursor (ι : Type*) where
  current : Option ι
  escape : Bool
deriving DecidableEq

def Cursor.idle : Cursor ι := ⟨none, false⟩

section Receiver
variable [DecidableEq α] (esc close : α) (select : α → Option ι)

def next (c : Cursor ι) (x : α) : Cursor ι :=
  if c.escape then
    if x = close then .idle else if x = esc then ⟨c.current, false⟩ else ⟨select x, false⟩
  else if x = esc then ⟨c.current, true⟩
  else c

def emit (c : Cursor ι) (x : α) : Option (ι × α) :=
  if c.escape then
    if x = close then none else if x = esc then c.current.map (·, x) else none
  else if x = esc then none
  else c.current.map (·, x)

def after (c : Cursor ι) (xs : List α) : Cursor ι := xs.foldl (next esc close select) c

def output : Cursor ι → List α → List (ι × α)
  | _, [] => []
  | c, x :: xs => (emit esc close c x).toList ++ output (next esc close select c x) xs

def frame (id : α) (p : List α) : List α := [esc, id] ++ stuff esc p ++ [esc, close]

end Receiver

def received (P : ι → Prop) [DecidablePred P] (out : List (ι × α)) : List α :=
  out.filterMap (fun y => if P y.1 then some y.2 else none)

section Received
variable (P : ι → Prop) [DecidablePred P]

@[simp] theorem received_nil : received P ([] : List (ι × α)) = [] := rfl

@[simp] theorem received_append (xs ys : List (ι × α)) : received P (xs ++ ys) = received P xs ++ received P ys :=
  List.filterMap_append

theorem received_map (i : ι) (p : List α) : received P (p.map (Prod.mk i)) = if P i then p else [] := by
  unfold received
  rw [List.filterMap_map]
  by_cases hi : P i
  · simp [hi]
  · simp [hi]

end Received

section Runs
variable [DecidableEq α] {esc close : α} {select : α → Option ι}

@[simp] theorem after_cons (c : Cursor ι) (x : α) (xs : List α) :
    after esc close select c (x :: xs) = after esc close select (next esc close select c x) xs := rfl

theorem after_append (c : Cursor ι) (xs ys : List α) :
    after esc close select c (xs ++ ys) = after esc close select (after esc close select c xs) ys :=
  List.foldl_append

theorem output_append (c : Cursor ι) (xs ys : List α) : output esc close select c (xs ++ ys) =
    output esc close select c xs ++ output esc close select (after esc close select c xs) ys := by
  induction xs generalizing c with
  | nil => rfl
  | cons x xs ih => simp only [List.cons_append, output, ih, after_cons, List.append_assoc]

/-- Outside an escape every symbol but the escape is payload, behind an escape only the escape is. -/
theorem receiver_payload (select : α → Option ι) (hne : close ≠ esc) {c : Cursor ι} {x : α} (hp : c.escape = true ↔ x = esc) :
    next esc close select c x = ⟨c.current, false⟩ ∧ emit esc close c x = c.current.map (·, x) := by
  obtain ⟨t, escape⟩ := c
  cases escape with
  | true =>
    have hx : x = esc := hp.mp rfl
    subst hx
    simp [next, emit, hne.symm]
  | false =>
    have hx : x ≠ esc := fun hx => Bool.false_ne_true (hp.mpr hx)
    simp [next, emit, hx]

theorem emit_delimiter {c : Cursor ι} {x : α} (hp : ¬ (c.escape = true ↔ x = esc)) : emit esc close c x = none := by
  by_cases hx : x = esc
  · have hc : c.escape = false := by simpa [hx] using hp
    simp [emit, hc, hx]
  · have hc : c.escape = true := by simpa [hx] using hp
    simp [emit, hc, hx]

/-- Only the symbols that can stand behind an escape have to be selected alike. -/
theorem receiver_congr {select' : α → Option ι} (hs : ∀ x, x ≠ close → x ≠ esc → select x = select' x) (c : Cursor ι)
    (xs : List α) : after esc close select c xs = after esc close select' c xs ∧
      output esc close select c xs = output esc close select' c xs := by
  have hnext : ∀ (c : Cursor ι) x, next esc close select c x = next esc close select' c x := by
    intro c x
    unfold next
    split
    · by_cases hclose : x = close
      · simp only [hclose, if_true]
      · by_cases hesc : x = esc
        · simp only [hesc, if_true]
        · simp only [hclose, hesc, if_false, hs x hclose hesc]
    · rfl
  induction xs generalizing c with
  | nil => exact ⟨rfl, rfl⟩
  | cons x xs ih =>
    obtain ⟨ha, ho⟩ := ih (next esc close select' c x)
    simp only [after_cons, output, hnext, ha, ho, and_self]

/-! ### Frames -/

variable (select)

/-- A stuffed payload leaves the receiver where it is. -/
theorem receiver_stuff (hne : close ≠ esc) (t : Option ι) (p : List α) :
    after esc close select ⟨t, false⟩ (stuff esc p) = ⟨t, false⟩ ∧
    output esc close select ⟨t, false⟩ (stuff esc p) = t.elim [] (fun i => p.map (Prod.mk i)) := by
  induction p with
  | nil => cases t <;> exact ⟨rfl, rfl⟩
  | cons x p ih =>
    obtain ⟨ha, ho⟩ := ih
    by_cases hx : x = esc
    · subst hx
      have h₁ : next x close select ⟨t, false⟩ x = ⟨t, true⟩ := by simp [next]
      have h₂ : next x close select ⟨t, true⟩ x = ⟨t, false⟩ := by simp [next, hne.symm]
      have e₁ : emit x close (⟨t, false⟩ : Cursor ι) x = none := by simp [emit]
      have e₂ : emit x close (⟨t, true⟩ : Cursor ι) x = t.map (·, x) := by simp [emit, hne.symm]
      rw [stuff_cons_esc]
      simp only [after_cons, output, h₁, h₂, e₁, e₂, ha, ho, Option.toList_none, List.nil_append, true_and]
      cases t <;> rfl
    · have h₁ : next esc close select ⟨t, false⟩ x = ⟨t, false⟩ := by simp [next, hx]
      have e₁ : emit esc close (⟨t, false⟩ : Cursor ι) x = t.map (·, x) := by simp [emit, hx]
      rw [stuff_cons_of_ne _ hx]
      simp only [after_cons, output, h₁, e₁, ha, ho, true_and]
      cases t <;> rfl

/-- A closing pair forgets the target. -/
theorem receiver_close (esc close : α) (select : α → Option ι) (t : Option ι) :
    after esc close select ⟨t, false⟩ [esc, close] = .idle ∧ output esc close select ⟨t, false⟩ [esc, close] = [] := by
  simp [after, output, next, emit]

/-- Behind its first two symbols a frame closes whatever target is selected. -/
theorem receiver_body (hne : close ≠ esc) (t : Option ι) (p : List α) :
    after esc close select ⟨t, false⟩ (stuff esc p ++ [esc, close]) = .idle ∧
    output esc close select ⟨t, false⟩ (stuff esc p ++ [esc, close]) = t.elim [] (fun i => p.map (Prod.mk i)) := by
  obtain ⟨ha, ho⟩ := receiver_stuff select hne t p
  rw [after_append, output_append, ha, ho, (receiver_close esc close select t).1, (receiver_close esc close select t).2,
    List.append_nil]
  exact ⟨rfl, rfl⟩

/-- Outside an escape a frame is delivered to the target that it names. -/
theorem receiver_frame (hne : close ≠ esc) {id : α} (hclose : id ≠ close) (hesc : id ≠ esc) (t : Option ι) (p : List α) :
    after esc close select ⟨t, false⟩ (frame esc close id p) = .idle ∧
    output esc close select ⟨t, false⟩ (frame esc close id p) = (select id).elim [] (fun i => p.map (Prod.mk i)) := by
  have h₁ : next esc close select ⟨t, false⟩ esc = ⟨t, true⟩ := by simp [next]
  have h₂ : next esc close select ⟨t, true⟩ id = ⟨select id, false⟩ := by simp [next, hclose, hesc]
  have e₁ : emit esc close (⟨t, false⟩ : Cursor ι) esc = none := by simp [emit]
  have e₂ : emit esc close (⟨t, true⟩ : Cursor ι) id = none := by simp [emit, hclose, hesc]
  obtain ⟨ha, ho⟩ := receiver_body select hne (select id) p
  simp only [frame, List.cons_append, List.nil_append, after_cons, output, h₁, h₂, e₁, e₂, ha, ho,
    Option.toList_none, and_self]

/-- Before its closing pair a frame has ended every escape. Behind a pending escape its first symbol
is read as a literal and its second as payload; the stuffed payload is in step again. -/
theorem after_unclosed (hne : close ≠ esc) {id : α} (hesc : id ≠ esc) (c : Cursor ι) (p : List α) :
    (after esc close select c ([esc, id] ++ stuff esc p)).escape = false := by
  have hopening : ∃ t, after esc close select c [esc, id] = ⟨t, false⟩ := by
    obtain ⟨t, escape⟩ := c
    cases escape with
    | true => exact ⟨t, by simp [after, next, hne.symm, hesc]⟩
    | false =>
      by_cases hclose : id = close
      · exact ⟨none, by simp [after, next, hclose, Cursor.idle]⟩
      · exact ⟨select id, by simp [after, next, hclose, hesc]⟩
  obtain ⟨t, ht⟩ := hopening
  rw [after_append, ht, (receiver_stuff select hne t p).1]

/-- A frame ends with no target and no escape from every cursor. -/
theorem after_frame (hne : close ≠ esc) {id : α} (hesc : id ≠ esc) (c : Cursor ι) (p : List α) :
    after esc close select c (frame esc close id p) = .idle := by
  have hunclosed := after_unclosed select hne hesc c p
  rw [frame, after_append]
  generalize after esc close select c ([esc, id] ++ stuff esc p) = c at hunclosed
  obtain ⟨t, escape⟩ := c
  simp only at hunclosed
  subst hunclosed
  exact (receiver_close esc close select t).1

/-- A symbol other than the escape ends a pending escape. -/
theorem after_plain {x : α} (hx : x ≠ esc) (c : Cursor ι) (xs : List α) :
    (after esc close select c (xs ++ [x])).escape = false := by
  rw [after_append]
  generalize after esc close select c xs = c
  change (next esc close select c x).escape = false
  cases hc : c.escape with
  | false => simp only [next, hc, Bool.false_eq_true, if_false, hx]
  | true =>
    simp only [next, hc, if_true, hx, if_false]
    split <;> rfl

/-- Frames one after the other, whatever was selected before them. -/
theorem receiver_frames (hne : close ≠ esc) {frames : List (α × List α)}
    (hids : ∀ f ∈ frames, f.1 ≠ close ∧ f.1 ≠ esc) (P : ι → Prop) [DecidablePred P] {c : Cursor ι} (hc : c.escape = false) :
    received P (output esc close select c (frames.flatMap (fun f => frame esc close f.1 f.2))) =
      (frames.filter (fun f => (select f.1).elim false (fun i => P i))).flatMap Prod.snd := by
  induction frames generalizing c with
  | nil => rfl
  | cons f frames ih =>
    obtain ⟨t, escape⟩ := c
    simp only at hc
    subst hc
    obtain ⟨hclose, hesc⟩ := hids f List.mem_cons_self
    obtain ⟨ha, ho⟩ := receiver_frame select hne hclose hesc t f.2
    have hrest := ih (fun g hg => hids g (List.mem_cons_of_mem f hg)) (c := .idle) rfl
    rw [List.flatMap_cons, output_append, ha, ho, received_append, hrest]
    cases hs : select f.1 with
    | none => simp [hs]
    | some i =>
      by_cases hP : P i
      · simp [hs, hP, received_map]
      · simp [hs, hP, received_map]

end Runs

end VirtiosoMux.Demux
