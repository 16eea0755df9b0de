import Mathlib

/-! # Base64

The encoding with the standard alphabet and padding, and its decoding.
-/
namespace VirtiosoMux.Base64

def letter (n : Nat) : UInt8 :=
  if n < 26 then UInt8.ofNat (0x41 + n)
  else if n < 52 then UInt8.ofNat (0x61 + (n - 26))
  else if n < 62 then UInt8.ofNat (0x30 + (n - 52))
  else if n = 62 then 0x2b
  else 0x2f

def sextet (b : UInt8) : Option Nat :=
  if 0x41 ≤ b ∧ b ≤ 0x5a then some (b.toNat - 0x41)
  else if 0x61 ≤ b ∧ b ≤ 0x7a then some (b.toNat - 0x61 + 26)
  else if 0x30 ≤ b ∧ b ≤ 0x39 then some (b.toNat - 0x30 + 52)
  else if b = 0x2b then some 62
  else if b = 0x2f then some 63
  else none

def pad : UInt8 := 0x3d

/-- `base64.b64encode` -/
def encode : List UInt8 → List UInt8
  | [] => []
  | [a] => [letter (a.toNat / 4), letter (a.toNat % 4 * 16), pad, pad]
  | [a, b] => [letter (a.toNat / 4), letter (a.toNat % 4 * 16 + b.toNat / 16), letter (b.toNat % 16 * 4), pad]
  | a :: b :: c :: rest =>
    letter (a.toNat / 4) :: letter (a.toNat % 4 * 16 + b.toNat / 16) :: letter (b.toNat % 16 * 4 + c.toNat / 64) ::
      letter (c.toNat % 64) :: encode rest

/-- The bytes of one group of four letters, the last one or two of which may be padding. -/
def decodeGroup (w x y z : UInt8) : Option (List UInt8) :=
  match sextet w, sextet x with
  | some w, some x =>
    let first := UInt8.ofNat (w * 4 + x / 16)
    if y = pad ∧ z = pad then some [first]
    else
      match sextet y with
      | none => none
      | some y =>
        let second := UInt8.ofNat (x % 16 * 16 + y / 4)
        if z = pad then some [first, second]
        else (sextet z).map (fun z => [first, second, UInt8.ofNat (y % 4 * 64 + z)])
  | _, _ => none

def decode : List UInt8 → Option (List UInt8)
  | [] => some []
  | w :: x :: y :: z :: rest =>
    match decodeGroup w x y z, decode rest with
    | some bytes, some more => some (bytes ++ more)
    | _, _ => none
  | _ => none

theorem sextet_letter {n : Nat} (h : n < 64) : sextet (letter n) = some n := by
  have hall : ∀ n < 64, sextet (letter n) = some n := by decide
  exact hall n h

theorem letter_ne_pad {n : Nat} (h : n < 64) : letter n ≠ pad := by
  have hall : ∀ n < 64, letter n ≠ pad := by decide
  exact hall n h

theorem letter_ascii (n : Nat) : letter n < 0x80 := by
  by_cases h : n < 64
  · have hall : ∀ n < 64, letter n < 0x80 := by decide
    exact hall n h
  · have hlast : letter n = 0x2f := by
      rw [letter, if_neg (by omega), if_neg (by omega), if_neg (by omega), if_neg (by omega)]
    rw [hlast]
    decide

theorem encode_ascii (bytes : List UInt8) : ∀ b ∈ encode bytes, b < 0x80 := by
  have hpad : pad < 0x80 := by decide
  fun_induction encode bytes with
  | case1 => nofun
  | case2 a => simp [letter_ascii, hpad]
  | case3 a b => simp [letter_ascii, hpad]
  | case4 a b c rest ih => simpa [letter_ascii] using ih

theorem ofNat_eq {n : Nat} {b : UInt8} (h : n = b.toNat) : UInt8.ofNat n = b := by rw [h, UInt8.ofNat_toNat]

theorem decodeGroup_three (a b c : UInt8) : decodeGroup (letter (a.toNat / 4)) (letter (a.toNat % 4 * 16 + b.toNat / 16))
    (letter (b.toNat % 16 * 4 + c.toNat / 64)) (letter (c.toNat % 64)) = some [a, b, c] := by
  have ha := a.toNat_lt
  have hb := b.toNat_lt
  have hc := c.toNat_lt
  have hfirst : UInt8.ofNat (a.toNat / 4 * 4 + (a.toNat % 4 * 16 + b.toNat / 16) / 16) = a := ofNat_eq (by omega)
  have hsecond : UInt8.ofNat ((a.toNat % 4 * 16 + b.toNat / 16) % 16 * 16 + (b.toNat % 16 * 4 + c.toNat / 64) / 4) = b :=
    ofNat_eq (by omega)
  have hthird : UInt8.ofNat ((b.toNat % 16 * 4 + c.toNat / 64) % 4 * 64 + c.toNat % 64) = c := ofNat_eq (by omega)
  simp only [decodeGroup, sextet_letter (show a.toNat / 4 < 64 by omega),
    sextet_letter (show a.toNat % 4 * 16 + b.toNat / 16 < 64 by omega),
    sextet_letter (show b.toNat % 16 * 4 + c.toNat / 64 < 64 by omega), sextet_letter (show c.toNat % 64 < 64 by omega),
    letter_ne_pad (show c.toNat % 64 < 64 by omega), and_false, if_false, Option.map_some, hfirst, hsecond, hthird]

theorem decodeGroup_two (a b : UInt8) : decodeGroup (letter (a.toNat / 4)) (letter (a.toNat % 4 * 16 + b.toNat / 16))
    (letter (b.toNat % 16 * 4)) pad = some [a, b] := by
  have ha := a.toNat_lt
  have hb := b.toNat_lt
  have hfirst : UInt8.ofNat (a.toNat / 4 * 4 + (a.toNat % 4 * 16 + b.toNat / 16) / 16) = a := ofNat_eq (by omega)
  have hsecond : UInt8.ofNat ((a.toNat % 4 * 16 + b.toNat / 16) % 16 * 16 + b.toNat % 16 * 4 / 4) = b :=
    ofNat_eq (by omega)
  simp only [decodeGroup, sextet_letter (show a.toNat / 4 < 64 by omega),
    sextet_letter (show a.toNat % 4 * 16 + b.toNat / 16 < 64 by omega),
    sextet_letter (show b.toNat % 16 * 4 < 64 by omega), letter_ne_pad (show b.toNat % 16 * 4 < 64 by omega), false_and,
    if_false, if_true, hfirst, hsecond]

theorem decodeGroup_one (a : UInt8) :
    decodeGroup (letter (a.toNat / 4)) (letter (a.toNat % 4 * 16)) pad pad = some [a] := by
  have ha := a.toNat_lt
  have hfirst : UInt8.ofNat (a.toNat / 4 * 4 + a.toNat % 4 * 16 / 16) = a := ofNat_eq (by omega)
  simp only [decodeGroup, sextet_letter (show a.toNat / 4 < 64 by omega), sextet_letter (show a.toNat % 4 * 16 < 64 by omega),
    and_self, if_true, hfirst]

/-- Decoding gives back what was encoded. -/
theorem decode_encode (bytes : List UInt8) : decode (encode bytes) = some bytes := by
  fun_induction encode bytes with
  | case1 => rfl
  | case2 a => simp only [decode, decodeGroup_one, List.append_nil]
  | case3 a b => simp only [decode, decodeGroup_two, List.append_nil]
  | case4 a b c rest ih =>
    simp only [decode, decodeGroup_three, ih]
    rfl

end VirtiosoMux.Base64
