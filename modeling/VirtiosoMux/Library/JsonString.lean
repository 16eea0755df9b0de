import Mathlib
import VirtiosoMux.Library.Json

/-! # Reading JSON strings

The unescaping that JSON defines, over bytes: the two-character escapes, and `\u` with four
hexadecimal digits, two of them in a row for a surrogate pair. A code point stands for its
UTF-8 bytes. Every other byte from `0x20` on stands for itself.
-/
namespace VirtiosoMux.Json

def hexValue (b : UInt8) : Option Nat :=
  if 0x30 ≤ b ∧ b ≤ 0x39 then some (b.toNat - 0x30)
  else if 0x41 ≤ b ∧ b ≤ 0x46 then some (b.toNat - 0x37)
  else if 0x61 ≤ b ∧ b ≤ 0x66 then some (b.toNat - 0x57)
  else none

def hexUnit : List UInt8 → Option (Nat × List UInt8)
  | a :: b :: c :: d :: rest =>
    match hexValue a, hexValue b, hexValue c, hexValue d with
    | some a, some b, some c, some d => some (((a * 16 + b) * 16 + c) * 16 + d, rest)
    | _, _, _, _ => none
  | _ => none

def utf8 (c : Nat) : List UInt8 :=
  if c < 0x80 then [UInt8.ofNat c]
  else if c < 0x800 then [UInt8.ofNat (0xc0 + c / 0x40), UInt8.ofNat (0x80 + c % 0x40)]
  else if c < 0x10000 then
    [UInt8.ofNat (0xe0 + c / 0x1000), UInt8.ofNat (0x80 + c / 0x40 % 0x40), UInt8.ofNat (0x80 + c % 0x40)]
  else [UInt8.ofNat (0xf0 + c / 0x40000), UInt8.ofNat (0x80 + c / 0x1000 % 0x40),
    UInt8.ofNat (0x80 + c / 0x40 % 0x40), UInt8.ofNat (0x80 + c % 0x40)]

def shortEscape (b : UInt8) : Option UInt8 :=
  if b = 0x22 ∨ b = 0x5c ∨ b = 0x2f then some b
  else if b = 0x62 then some 0x08
  else if b = 0x66 then some 0x0c
  else if b = 0x6e then some 0x0a
  else if b = 0x72 then some 0x0d
  else if b = 0x74 then some 0x09
  else none

def lowSurrogate : List UInt8 → Option (Nat × List UInt8)
  | 0x5c :: 0x75 :: rest =>
    match hexUnit rest with
    | some (v, rest) => if 0xdc00 ≤ v ∧ v < 0xe000 then some (v - 0xdc00, rest) else none
    | none => none
  | _ => none

def readEscape : List UInt8 → Option (List UInt8 × List UInt8)
  | [] => none
  | b :: rest =>
    if b = 0x75 then
      match hexUnit rest with
      | none => none
      | some (u, rest) =>
        if 0xd800 ≤ u ∧ u < 0xdc00 then
          (lowSurrogate rest).map (fun r => (utf8 (0x10000 + (u - 0xd800) * 0x400 + r.1), r.2))
        else if 0xdc00 ≤ u ∧ u < 0xe000 then none
        else some (utf8 u, rest)
    else (shortEscape b).map (fun c => ([c], rest))

/-- Characters and escapes up to the closing quote. Each takes at least one byte, so that
as many rounds as there are bytes are enough. -/
def readChars : Nat → List UInt8 → Option (List UInt8 × List UInt8)
  | 0, _ => none
  | _ + 1, [] => none
  | rounds + 1, b :: rest =>
    if b = 0x22 then some ([], rest)
    else if b = 0x5c then
      match readEscape rest with
      | none => none
      | some (c, rest) => (readChars rounds rest).map (fun r => (c ++ r.1, r.2))
    else if b < 0x20 then none
    else (readChars rounds rest).map (fun r => (b :: r.1, r.2))

def readString : List UInt8 → Option (List UInt8 × List UInt8)
  | [] => none
  | b :: rest => if b = 0x22 then readChars rest.length rest else none

/-- A token that every reading takes in one round for `c`. -/
def StandsFor (token : List UInt8) (c : UInt8) : Prop :=
  ∀ rounds rest, readChars (rounds + 1) (token ++ rest) = (readChars rounds rest).map (fun r => (c :: r.1, r.2))

theorem standsFor_self {b : UInt8} (hquote : b ≠ 0x22) (hback : b ≠ 0x5c) (hctrl : 0x20 ≤ b) : StandsFor [b] b := by
  intro rounds rest
  have hlow : ¬ b < 0x20 := UInt8.not_lt.mpr hctrl
  simp only [List.cons_append, List.nil_append, readChars, if_neg hquote, if_neg hback, if_neg hlow]

theorem standsFor_short {e c : UInt8} (h : shortEscape e = some c) : StandsFor [0x5c, e] c := by
  have hne : e ≠ 0x75 := by
    rintro rfl
    have hnone : shortEscape 0x75 = none := by decide
    rw [hnone] at h
    cases h
  have hback : (0x5c : UInt8) ≠ 0x22 := by decide
  intro rounds rest
  simp only [List.cons_append, List.nil_append, readChars, if_neg hback, if_true, readEscape, if_neg hne, h, Option.map_some]

theorem standsFor_unicode {u₁ u₂ u₃ u₄ c : UInt8} (hc : c < 0x80)
    (h : ∀ rest, hexUnit (u₁ :: u₂ :: u₃ :: u₄ :: rest) = some (c.toNat, rest)) :
    StandsFor [0x5c, 0x75, u₁, u₂, u₃, u₄] c := by
  have hlt : c.toNat < 0x80 := hc
  have hhigh : ¬ (0xd800 ≤ c.toNat ∧ c.toNat < 0xdc00) := by omega
  have hlow : ¬ (0xdc00 ≤ c.toNat ∧ c.toNat < 0xe000) := by omega
  have hutf8 : utf8 c.toNat = [c] := by rw [utf8, if_pos hlt, UInt8.ofNat_toNat]
  have hback : (0x5c : UInt8) ≠ 0x22 := by decide
  intro rounds rest
  simp only [List.cons_append, List.nil_append, readChars, if_neg hback, if_true, readEscape, h, if_neg hhigh, if_neg hlow,
    hutf8]

/-- A text of tokens is read as what they stand for. -/
theorem readChars_tokens {token : UInt8 → List UInt8} (h : ∀ c, StandsFor (token c) c) (s rest : List UInt8) (rounds : Nat) :
    readChars (s.length + 1 + rounds) (s.flatMap token ++ 0x22 :: rest) = some (s, rest) := by
  induction s with
  | nil =>
    rw [List.length_nil, show 0 + 1 + rounds = rounds + 1 by omega]
    simp [readChars]
  | cons c s ih =>
    have hrounds : (c :: s).length + 1 + rounds = (s.length + 1 + rounds) + 1 := by
      rw [List.length_cons]
      omega
    rw [hrounds, List.flatMap_cons, List.append_assoc, h c, ih]
    rfl

end VirtiosoMux.Json
