import VirtiosoMux.Host.Effects

/-! # The outer layer

A received byte is handed to the inner parser, after its copy to `raw_ccplex`, or it stays in
the outer layer and moves only the two cursors there. The unescaped `0xff` is handed on
without the copy.
-/
namespace VirtiosoMux.Host

/-- The state and the byte handed to the inner parser after the copy to `raw_ccplex`. A copy
that fails ends the thread. -/
def handedWithCopy (env : Env) (h : State) (ch : Byte) : Option (State × Byte) :=
  if rawCcplexPtyIdx < h.table.ptyMaxCount then
    if (patch2flushStream env h rawCcplexPtyIdx ch).2 ≠ 0 then none
    else some ((patch2flushStream env h rawCcplexPtyIdx ch).1, ch)
  else some (h, ch)

@[simps] def State.setOuterEscape (h : State) (b : Bool) : State :=
  { h with parser := { h.parser with outerInEscape := b } }

/-- The call of `feed_virtioso_byte` that a received byte leads to, if any. -/
def handed (env : Env) (h : State) (ch : Byte) : Option (State × Byte) :=
  match env.virtiosoOuterMode with
  | .raw => handedWithCopy env h ch
  | .nvidiaTcu =>
    if h.parser.outerInEscape then
      if ch = uartProtoEscEsc ∧ h.parser.curOuterTag = some env.virtiosoOuterTagIdx then
        some (h.setOuterEscape false, uartProtoEscStart)
      else none
    else if ch = uartProtoEscStart then none
    else if h.parser.curOuterTag = some env.virtiosoOuterTagIdx then handedWithCopy env h ch
    else none

section Step
variable {env : Env} {h : State} {ch : Byte}

theorem feedCarrier_handed {g : State} {b : Byte} (hh : handedWithCopy env h ch = some (g, b)) :
    feedCarrier env h ch = feedVirtiosoByte env g b := by
  unfold handedWithCopy at hh
  unfold feedCarrier
  split at hh
  · rename_i hlt
    split at hh
    · cases hh
    · rename_i hret
      cases hh
      simp only [if_pos hlt, if_neg hret]
  · rename_i hlt
    cases hh
    rw [if_neg hlt]

theorem feedCarrier_unhanded (hh : handedWithCopy env h ch = none) :
    feedCarrier env h ch = ((patch2flushStream env h rawCcplexPtyIdx ch).1, -1) := by
  unfold handedWithCopy at hh
  unfold feedCarrier
  split at hh
  · rename_i hlt
    split at hh
    · rename_i hret
      simp only [if_pos hlt, if_pos hret]
    · cases hh
  · cases hh

theorem feed_handed {g : State} {b : Byte} (hh : handed env h ch = some (g, b)) :
    feedNvidiaOuterOrVirtiosoRaw env h ch = feedVirtiosoByte env g b := by
  unfold handed at hh
  unfold feedNvidiaOuterOrVirtiosoRaw
  cases hmode : env.virtiosoOuterMode with
  | raw =>
    simp only [hmode] at hh
    exact feedCarrier_handed hh
  | nvidiaTcu =>
    simp only [hmode] at hh
    split at hh
    · rename_i hx
      split at hh
      · rename_i hesc
        cases hh
        simp only [if_pos hx, if_pos hesc.1, if_pos hesc.2]
        rfl
      · cases hh
    · rename_i hx
      split at hh
      · cases hh
      · rename_i hstart
        split at hh
        · rename_i htag
          simp only [hx, Bool.false_eq_true, if_false, if_neg hstart, if_pos htag]
          exact feedCarrier_handed hh
        · cases hh

/-- A byte is handed on after its copy, or it is the unescaped `0xff`. -/
theorem handed_origin {g : State} {b : Byte} (hh : handed env h ch = some (g, b)) :
    g = h.setOuterEscape false ∨ g = h ∨
      (patch2flushStream env h rawCcplexPtyIdx ch).2 = 0 ∧ g = (patch2flushStream env h rawCcplexPtyIdx ch).1 := by
  have hcopy : handedWithCopy env h ch = some (g, b) → g = h ∨
      (patch2flushStream env h rawCcplexPtyIdx ch).2 = 0 ∧ g = (patch2flushStream env h rawCcplexPtyIdx ch).1 := by
    intro hh
    unfold handedWithCopy at hh
    split at hh
    · split at hh
      · cases hh
      · rename_i hret
        cases hh
        exact .inr ⟨not_ne_iff.mp hret, rfl⟩
    · cases hh
      exact .inl rfl
  unfold handed at hh
  split at hh
  · exact .inr (hcopy hh)
  · split at hh
    · split at hh
      · cases hh
        exact .inl rfl
      · cases hh
    · split at hh
      · cases hh
      · split at hh
        · exact .inr (hcopy hh)
        · cases hh

/-- Handing a byte on touches `raw_ccplex` and the outer escape flag only. -/
theorem handed_state {g : State} {b : Byte} (hh : handed env h ch = some (g, b)) :
    ∃ p n r e, g = ((h.setPty rawCcplexPtyIdx p).setSeen rawCcplexPtyIdx n r).setOuterEscape e := by
  have hsame : ∀ e, h.setOuterEscape e = ((h.setPty rawCcplexPtyIdx (h.ptyData rawCcplexPtyIdx)).setSeen rawCcplexPtyIdx
      (h.parser.seenN rawCcplexPtyIdx) (h.parser.seenR rawCcplexPtyIdx)).setOuterEscape e := by
    intro e
    rw [setPty_self, setSeen_self]
  rcases handed_origin hh with rfl | rfl | ⟨-, rfl⟩
  · exact ⟨_, _, _, false, hsame false⟩
  · exact ⟨_, _, _, g.parser.outerInEscape, hsame g.parser.outerInEscape⟩
  · obtain ⟨p, n, r, ret, heq⟩ := patch2flushStream_slot env h rawCcplexPtyIdx ch
    rw [heq]
    exact ⟨p, n, r, h.parser.outerInEscape, rfl⟩

/-- Otherwise the copy failed, or the outer layer is reset, which clears the escape and the cursor of
the inner layer, or only the cursors of the outer layer move. -/
theorem unhanded_cases (hh : handed env h ch = none) :
    (∃ p n r, feedNvidiaOuterOrVirtiosoRaw env h ch =
      ((h.setPty rawCcplexPtyIdx p).setSeen rawCcplexPtyIdx n r, -1)) ∨
    ((env.virtiosoOuterMode = .nvidiaTcu ∧ h.parser.outerInEscape = true ∧ ch = uartProtoEscReset) ∧
      feedNvidiaOuterOrVirtiosoRaw env h ch =
        ({ h with parser := { h.parser with
            outerInEscape := false, curOuterTag := none, curRxStream := none, inEscape := false } }, 0)) ∨
    (∃ e tag, feedNvidiaOuterOrVirtiosoRaw env h ch =
      ({ h with parser := { h.parser with outerInEscape := e, curOuterTag := tag } }, 0)) := by
  have hcopy : handedWithCopy env h ch = none → ∃ p n r, feedCarrier env h ch =
      ((h.setPty rawCcplexPtyIdx p).setSeen rawCcplexPtyIdx n r, -1) := by
    intro hh
    obtain ⟨p, n, r, ret, heq⟩ := patch2flushStream_slot env h rawCcplexPtyIdx ch
    exact ⟨p, n, r, by rw [feedCarrier_unhanded hh, heq]⟩
  unfold handed at hh
  unfold feedNvidiaOuterOrVirtiosoRaw
  cases hmode : env.virtiosoOuterMode with
  | raw =>
    simp only [hmode] at hh
    exact .inl (hcopy hh)
  | nvidiaTcu =>
    simp only [hmode] at hh
    dsimp only
    by_cases hx : h.parser.outerInEscape = true
    · right
      rw [if_pos hx] at hh ⊢
      split
      · rename_i hesc
        have htag : ¬ h.parser.curOuterTag = some env.virtiosoOuterTagIdx := by
          intro htag
          rw [if_pos ⟨hesc, htag⟩] at hh
          cases hh
        rw [if_neg htag]
        exact .inr ⟨_, _, rfl⟩
      · split
        · rename_i hreset
          exact .inl ⟨⟨rfl, hx, hreset⟩, rfl⟩
        · split
          · exact .inr ⟨_, _, rfl⟩
          · exact .inr ⟨_, _, rfl⟩
    · rw [if_neg hx] at hh ⊢
      split
      · exact .inr (.inr ⟨_, _, rfl⟩)
      · rename_i hstart
        rw [if_neg hstart] at hh
        split
        · rename_i htag
          rw [if_pos htag] at hh
          exact .inl (hcopy hh)
        · exact .inr (.inr ⟨_, _, rfl⟩)

theorem feed_unhanded (hh : handed env h ch = none) :
    (∃ p n r, feedNvidiaOuterOrVirtiosoRaw env h ch =
      ((h.setPty rawCcplexPtyIdx p).setSeen rawCcplexPtyIdx n r, -1)) ∨
    (∃ e tag cur esc, feedNvidiaOuterOrVirtiosoRaw env h ch =
        ({ h with parser := { h.parser with
            outerInEscape := e, curOuterTag := tag, curRxStream := cur, inEscape := esc } }, 0) ∧
      (cur = h.parser.curRxStream ∨ cur = none)) := by
  rcases unhanded_cases hh with hcopy | ⟨-, hreset⟩ | ⟨e, tag, hmove⟩
  · exact .inl hcopy
  · exact .inr ⟨_, _, _, _, hreset, .inr rfl⟩
  · exact .inr ⟨_, _, _, _, hmove, .inl rfl⟩

end Step

end VirtiosoMux.Host
