import VirtiosoMux.Muxd.System

/-! # Enrollment

What `virtioso-mux-exec` writes when it connects, and what `handle_client` reads of it. The
name is decoded by `String::from_utf8_lossy`, which leaves well-formed UTF-8 as it is.
-/
namespace VirtiosoMux.Muxd

/-- The bytes of a Rust `String`. -/
def ValidUtf8 (bytes : Bytes) : Prop := ∃ text : List Char, bytes = text.flatMap String.utf8EncodeChar

/-- The enrollment bytes, `none` for a name that is refused. -/
def enrollment (name : Bytes) : Option Bytes :=
  if name.length > 255 then none else some (UInt8.ofNat name.length :: name)

/-- `name_buf` as `handle_client` reads it, and what it leaves for its read loop. `none` where the
task returns. -/
def readEnrollment : Bytes → Option (Bytes × Bytes)
  | [] => none
  | nameLen :: rest =>
    if nameLen = 0 then none
    else if rest.length < nameLen.toNat then none
    else some (rest.take nameLen.toNat, rest.drop nameLen.toNat)

theorem enrollment_read {name : Bytes} (hpos : 0 < name.length) (hlen : name.length ≤ 255) :
    ∃ sent, enrollment name = some sent ∧ ∀ rest, readEnrollment (sent ++ rest) = some (name, rest) := by
  have hnat : (UInt8.ofNat name.length).toNat = name.length := UInt8.toNat_ofNat_of_lt' (show name.length < 256 by omega)
  have hne : UInt8.ofNat name.length ≠ 0 := by
    intro heq
    rw [heq] at hnat
    exact Nat.ne_of_lt hpos hnat
  refine ⟨UInt8.ofNat name.length :: name, if_neg (by omega), fun rest => ?_⟩
  rw [List.cons_append, readEnrollment, if_neg hne, hnat, List.length_append, if_neg (by omega)]
  simp

/-! ### Well-formed UTF-8 is decoded as it is -/

abbrev Continues (need : List (Byte × Byte)) (tail : Bytes) : Prop := List.Forall₂ (fun r b => r.1 ≤ b ∧ b ≤ r.2) need tail

theorem lossyFrom_continues {seen : Bytes} {need : List (Byte × Byte)} {tail : Bytes} (h : Continues need tail)
    (hne : need ≠ []) (rest : Bytes) : lossyFrom seen need (tail ++ rest) = seen ++ tail ++ lossyFrom [] [] rest := by
  induction h generalizing seen with
  | nil => exact absurd rfl hne
  | @cons r b need tail hb hmore ih =>
    obtain ⟨lo, hi⟩ := r
    rw [List.cons_append, lossyFrom]
    simp only [if_pos hb]
    split
    · rename_i hlast
      subst hlast
      cases hmore
      simp
    · rename_i hlast
      rw [ih hlast]
      simp

/-- A sequence is read as a whole. -/
theorem lossyFrom_sequence {b : Byte} {need : List (Byte × Byte)} {tail : Bytes} (hlead : utf8Continuation b = some need)
    (h : Continues need tail) (rest : Bytes) : lossyFrom [] [] (b :: tail ++ rest) = b :: tail ++ lossyFrom [] [] rest := by
  rw [List.cons_append, lossyFrom]
  cases need with
  | nil =>
    cases h
    simp only [hlead, List.nil_append, List.cons_append]
  | cons r need =>
    simp only [hlead, lossyFrom_continues h (List.cons_ne_nil r need), List.nil_append, List.cons_append]

theorem byte_range (lo : Nat) {n : Nat} (hi : Nat) (h : lo ≤ n ∧ n ≤ hi) (hhi : hi < 256) :
    UInt8.ofNat lo ≤ UInt8.ofNat n ∧ UInt8.ofNat n ≤ UInt8.ofNat hi := by
  have hnat : ∀ k ≤ hi, (UInt8.ofNat k).toNat = k := fun k hk => UInt8.toNat_ofNat_of_lt' (Nat.lt_of_le_of_lt hk hhi)
  rw [UInt8.le_iff_toNat_le, UInt8.le_iff_toNat_le, hnat lo (h.1.trans h.2), hnat n h.2, hnat hi (Nat.le_refl _)]
  exact h

theorem lead_one : ∀ n < 256, n ≤ 0x7f → utf8Continuation (UInt8.ofNat n) = some [] := by decide +kernel

theorem lead_two : ∀ n < 256, 0xc2 ≤ n ∧ n ≤ 0xdf → utf8Continuation (UInt8.ofNat n) = some [(0x80, 0xbf)] := by
  decide +kernel

theorem lead_three : ∀ n < 256, 0xe1 ≤ n ∧ n ≤ 0xef ∧ n ≠ 0xed →
    utf8Continuation (UInt8.ofNat n) = some [(0x80, 0xbf), (0x80, 0xbf)] := by
  decide +kernel

theorem lead_four : ∀ n < 256, 0xf1 ≤ n ∧ n ≤ 0xf3 →
    utf8Continuation (UInt8.ofNat n) = some [(0x80, 0xbf), (0x80, 0xbf), (0x80, 0xbf)] := by
  decide +kernel

/-- The encoding of a character is a first byte and continuation bytes in the ranges it asks for. -/
theorem utf8EncodeChar_sequence (c : Char) : ∃ b tail need, String.utf8EncodeChar c = b :: tail ∧
    utf8Continuation b = some need ∧ Continues need tail := by
  have hvalid : c.val.toNat < 0xd800 ∨ 0xdfff < c.val.toNat ∧ c.val.toNat < 0x110000 := c.valid
  unfold String.utf8EncodeChar
  generalize c.val.toNat = v at hvalid
  dsimp only
  have hcont : ∀ k, (0x80 : Byte) ≤ UInt8.ofNat (k % 0x40 + 0x80) ∧ UInt8.ofNat (k % 0x40 + 0x80) ≤ 0xbf :=
    fun k => byte_range 0x80 0xbf ⟨by omega, by omega⟩ (by decide)
  split
  · rename_i hv
    exact ⟨_, _, _, rfl, lead_one v (by omega) hv, .nil⟩
  split
  · exact ⟨_, _, _, rfl, lead_two _ (by omega) (by omega), .cons (hcont v) .nil⟩
  split
  · by_cases hlow : v / 4096 = 0
    · -- no overlong sequence
      have hsecond : (0xa0 : Byte) ≤ UInt8.ofNat (v / 64 % 0x40 + 0x80) ∧ UInt8.ofNat (v / 64 % 0x40 + 0x80) ≤ 0xbf :=
        byte_range 0xa0 0xbf ⟨by omega, by omega⟩ (by decide)
      refine ⟨_, _, [(0xa0, 0xbf), (0x80, 0xbf)], rfl, ?_, .cons hsecond (.cons (hcont v) .nil)⟩
      rw [hlow]
      decide
    · by_cases hsurrogate : v / 4096 = 13
      · -- no surrogate
        have hsecond : (0x80 : Byte) ≤ UInt8.ofNat (v / 64 % 0x40 + 0x80) ∧ UInt8.ofNat (v / 64 % 0x40 + 0x80) ≤ 0x9f :=
          byte_range 0x80 0x9f ⟨by omega, by omega⟩ (by decide)
        refine ⟨_, _, [(0x80, 0x9f), (0x80, 0xbf)], rfl, ?_, .cons hsecond (.cons (hcont v) .nil)⟩
        rw [hsurrogate]
        decide
      · exact ⟨_, _, _, rfl, lead_three _ (by omega) (by omega), .cons (hcont _) (.cons (hcont v) .nil)⟩
  · by_cases hlow : v / 262144 = 0
    · have hsecond : (0x90 : Byte) ≤ UInt8.ofNat (v / 4096 % 0x40 + 0x80) ∧ UInt8.ofNat (v / 4096 % 0x40 + 0x80) ≤ 0xbf :=
        byte_range 0x90 0xbf ⟨by omega, by omega⟩ (by decide)
      refine ⟨_, _, [(0x90, 0xbf), (0x80, 0xbf), (0x80, 0xbf)], rfl, ?_,
        .cons hsecond (.cons (hcont _) (.cons (hcont v) .nil))⟩
      rw [hlow]
      decide
    · by_cases hhigh : v / 262144 = 4
      · -- nothing beyond U+10FFFF
        have hsecond : (0x80 : Byte) ≤ UInt8.ofNat (v / 4096 % 0x40 + 0x80) ∧ UInt8.ofNat (v / 4096 % 0x40 + 0x80) ≤ 0x8f :=
          byte_range 0x80 0x8f ⟨by omega, by omega⟩ (by decide)
        refine ⟨_, _, [(0x80, 0x8f), (0x80, 0xbf), (0x80, 0xbf)], rfl, ?_,
          .cons hsecond (.cons (hcont _) (.cons (hcont v) .nil))⟩
        rw [hhigh]
        decide
      · exact ⟨_, _, _, rfl, lead_four _ (by omega) (by omega),
          .cons (hcont _) (.cons (hcont _) (.cons (hcont v) .nil))⟩

theorem fromUtf8Lossy_valid {bytes : Bytes} (h : ValidUtf8 bytes) : fromUtf8Lossy bytes = bytes := by
  obtain ⟨text, rfl⟩ := h
  unfold fromUtf8Lossy
  induction text with
  | nil => rfl
  | cons c text ih =>
    obtain ⟨b, tail, need, henc, hlead, htail⟩ := utf8EncodeChar_sequence c
    rw [List.flatMap_cons, henc, lossyFrom_sequence hlead htail, ih]

end VirtiosoMux.Muxd
