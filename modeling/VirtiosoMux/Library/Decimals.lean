import VirtiosoMux.Library.Json

/-! # Decimal numbers in text

Reading back what a decimal writer produces: a minus sign or none, and digits with no zero in
front of others.
-/
namespace VirtiosoMux.Decimals
open Json

def isDigit (b : UInt8) : Bool := decide (0x30 ≤ b) && decide (b ≤ 0x39)

def number (ds : List UInt8) : Nat := ds.foldl (fun n d => n * 10 + (d.toNat - 0x30)) 0

def readNat (text : List UInt8) : Option (Nat × List UInt8) :=
  match text.takeWhile isDigit with
  | [] => none
  | d :: ds => if d = 0x30 ∧ ds ≠ [] then none else some (number (d :: ds), text.dropWhile isDigit)

def readInt : List UInt8 → Option (Int × List UInt8)
  | [] => none
  | b :: rest =>
    if b = 0x2d then (readNat rest).map fun r => (-(r.1 : Int), r.2)
    else (readNat (b :: rest)).map fun r => ((r.1 : Int), r.2)

def EndsNumber (rest : List UInt8) : Prop := ∀ b, rest.head? = some b → isDigit b = false

/-! ### The digits of a number -/

theorem digitChar_byte {d : Nat} (h : d < 10) : UInt8.ofNat d.digitChar.toNat = UInt8.ofNat (0x30 + d) := by
  have hall : ∀ d < 10, UInt8.ofNat (Nat.digitChar d).toNat = UInt8.ofNat (0x30 + d) := by decide
  exact hall d h

theorem digits_small {n : Nat} (h : n < 10) : digits n = [UInt8.ofNat (0x30 + n)] := by
  rw [digits, Nat.toDigits_of_lt_base h, List.map_singleton, digitChar_byte h]

theorem digits_large {n : Nat} (h : 10 ≤ n) : digits n = digits (n / 10) ++ [UInt8.ofNat (0x30 + n % 10)] := by
  rw [digits, Nat.toDigits_of_base_le (by decide) h, List.map_append, List.map_singleton,
    digitChar_byte (Nat.mod_lt n (by decide))]
  rfl

theorem toNat_digit {d : Nat} (h : d < 10) : (UInt8.ofNat (0x30 + d)).toNat - 0x30 = d := by
  rw [UInt8.toNat_ofNat_of_lt' (show 0x30 + d < 256 by omega)]
  omega

theorem number_digits (n : Nat) : number (digits n) = n := by
  induction n using Nat.strong_induction_on with
  | _ n ih =>
    rcases Nat.lt_or_ge n 10 with h | h
    · rw [digits_small h, number, List.foldl_cons, List.foldl_nil, toNat_digit h, Nat.zero_mul, Nat.zero_add]
    · have hrec := ih (n / 10) (Nat.div_lt_self (by omega) (by decide))
      rw [number] at hrec
      rw [digits_large h, number, List.foldl_append, hrec, List.foldl_cons, List.foldl_nil,
        toNat_digit (Nat.mod_lt n (by decide))]
      omega

/-- Only the number zero begins with a zero. -/
theorem digits_cons (n : Nat) : ∃ d ds, digits n = d :: ds ∧ (d = 0x30 → ds = []) := by
  induction n using Nat.strong_induction_on with
  | _ n ih =>
    rcases Nat.lt_or_ge n 10 with h | h
    · exact ⟨_, [], digits_small h, fun _ => rfl⟩
    · obtain ⟨d, ds, hd, hzero⟩ := ih (n / 10) (Nat.div_lt_self (by omega) (by decide))
      refine ⟨d, ds ++ [UInt8.ofNat (0x30 + n % 10)], by rw [digits_large h, hd]; rfl, ?_⟩
      rintro rfl
      -- the leading digits would be those of zero, but they are not zero
      have hnum := number_digits (n / 10)
      rw [hd, hzero rfl] at hnum
      have hone : 1 ≤ n / 10 := by omega
      simp [number] at hnum
      omega

theorem isDigit_digits (n : Nat) : ∀ b ∈ digits n, isDigit b = true := by
  intro b hb
  obtain ⟨hlow, hhigh⟩ := digits_isDigit n b hb
  simp [isDigit, hlow, hhigh]

theorem readNat_digits (n : Nat) {rest : List UInt8} (hrest : EndsNumber rest) :
    readNat (digits n ++ rest) = some (n, rest) := by
  obtain ⟨d, ds, hd, hzero⟩ := digits_cons n
  have hall := isDigit_digits n
  have hends : rest.takeWhile isDigit = [] ∧ rest.dropWhile isDigit = rest := by
    cases rest with
    | nil => exact ⟨rfl, rfl⟩
    | cons b more => simp [hrest b rfl]
  have htake : (digits n ++ rest).takeWhile isDigit = d :: ds := by
    rw [List.takeWhile_append_of_pos hall, hends.1, List.append_nil, hd]
  have hdrop : (digits n ++ rest).dropWhile isDigit = rest := by
    rw [List.dropWhile_append_of_pos hall, hends.2]
  have hleading : ¬ (d = 0x30 ∧ ds ≠ []) := fun h => h.2 (hzero h.1)
  simp only [readNat, htake, hdrop, if_neg hleading]
  rw [← hd, number_digits]

/-- A decimal number is read back. -/
theorem readInt_decimal (n : Int) {rest : List UInt8} (hrest : EndsNumber rest) :
    readInt (decimal n ++ rest) = some (n, rest) := by
  cases n with
  | ofNat n =>
    obtain ⟨d, ds, hd, -⟩ := digits_cons n
    have hread := readNat_digits n hrest
    have hminus : d ≠ 0x2d := by
      rintro rfl
      exact absurd (isDigit_digits n 0x2d (by rw [hd]; exact List.mem_cons_self)) (by decide)
    rw [hd, List.cons_append] at hread
    rw [decimal, hd, List.cons_append, readInt, if_neg hminus, hread]
    rfl
  | negSucc n =>
    rw [decimal, List.cons_append, readInt, if_pos rfl, readNat_digits (n + 1) hrest]
    rfl

end VirtiosoMux.Decimals
