import Mathlib

/-! # JSON text with ASCII output and sorted keys

A serializer in the manner of Python's `json.dumps(value, sort_keys=True)`. A string is a
sequence of code points; everything outside the printable ASCII range is written as an
escape, above the basic plane as a surrogate pair. The separators are `", "` and `": "`.
-/
namespace VirtiosoMux.Json

abbrev Text := List Nat

def codes (s : String) : Text := s.toList.map Char.toNat

inductive Value
  | str (s : Text)
  | int (n : Int)
  | arr (items : List Value)
  | obj (members : List (Text × Value))

/-- An induction principle with one hypothesis for all items or members. -/
theorem Value.ind {P : Value → Prop} (str : ∀ s, P (.str s)) (int : ∀ n, P (.int n))
    (arr : ∀ items, (∀ v ∈ items, P v) → P (.arr items))
    (obj : ∀ members, (∀ m ∈ members, P m.2) → P (.obj members)) : ∀ v, P v
  | .str s => str s
  | .int n => int n
  | .arr items => arr items (fun v _hv => Value.ind str int arr obj v)
  | .obj members => obj members (fun m _hm => Value.ind str int arr obj m.2)
termination_by v => sizeOf v
decreasing_by
  · have := List.sizeOf_lt_of_mem _hv
    simp only [Value.arr.sizeOf_spec]
    omega
  · have := List.sizeOf_lt_of_mem _hm
    have hpair : sizeOf m.2 < sizeOf m := by
      cases m
      simp only [Prod.mk.sizeOf_spec]
      omega
    simp only [Value.obj.sizeOf_spec]
    omega

/-! ### Serialization -/

def lowerHex (d : Nat) : UInt8 := if d < 10 then UInt8.ofNat (0x30 + d) else UInt8.ofNat (0x57 + d)

def unicodeEscape (n : Nat) : List UInt8 :=
  [0x5c, 0x75, lowerHex (n / 4096 % 16), lowerHex (n / 256 % 16), lowerHex (n / 16 % 16), lowerHex (n % 16)]

def escape (c : Nat) : List UInt8 :=
  if c = 0x22 then [0x5c, 0x22]
  else if c = 0x5c then [0x5c, 0x5c]
  else if c = 0x0a then [0x5c, 0x6e]
  else if c = 0x0d then [0x5c, 0x72]
  else if c = 0x09 then [0x5c, 0x74]
  else if c = 0x0c then [0x5c, 0x66]
  else if c = 0x08 then [0x5c, 0x62]
  else if 0x20 ≤ c ∧ c ≤ 0x7e then [UInt8.ofNat c]
  else if c < 0x10000 then unicodeEscape c
  else unicodeEscape (0xd800 + (c - 0x10000) / 0x400 % 0x400) ++ unicodeEscape (0xdc00 + (c - 0x10000) % 0x400)

def body (s : Text) : List UInt8 := s.flatMap escape
def quoted (s : Text) : List UInt8 := 0x22 :: body s ++ [0x22]

def digits (n : Nat) : List UInt8 := (Nat.toDigits 10 n).map (fun c => UInt8.ofNat c.toNat)

def decimal : Int → List UInt8
  | .ofNat n => digits n
  | .negSucc n => 0x2d :: digits (n + 1)

def commaJoin : List (List UInt8) → List UInt8
  | [] => []
  | [b] => b
  | b :: c :: rest => b ++ [0x2c, 0x20] ++ commaJoin (c :: rest)

def memberText (key : Text) (value : List UInt8) : List UInt8 := quoted key ++ [0x3a, 0x20] ++ value

def sortKeys {α : Type*} (members : List (Text × α)) : List (Text × α) :=
  members.insertionSort (fun a b => a.1 ≤ b.1)

mutual
def dumps : Value → List UInt8
  | .str s => quoted s
  | .int n => decimal n
  | .arr items => 0x5b :: commaJoin (dumpsItems items) ++ [0x5d]
  | .obj members => 0x7b :: commaJoin ((sortKeys (dumpsMembers members)).map (fun m => memberText m.1 m.2)) ++ [0x7d]

def dumpsItems : List Value → List (List UInt8)
  | [] => []
  | v :: rest => dumps v :: dumpsItems rest

def dumpsMembers : List (Text × Value) → List (Text × List UInt8)
  | [] => []
  | (key, v) :: rest => (key, dumps v) :: dumpsMembers rest
end

theorem dumpsItems_eq (items : List Value) : dumpsItems items = items.map dumps := by
  induction items with
  | nil => rfl
  | cons v rest ih => rw [dumpsItems, ih, List.map_cons]

theorem dumpsMembers_eq (members : List (Text × Value)) :
    dumpsMembers members = members.map (fun m => (m.1, dumps m.2)) := by
  induction members with
  | nil => rfl
  | cons m rest ih => rw [dumpsMembers, ih, List.map_cons]

theorem dumps_arr (items : List Value) : dumps (.arr items) = 0x5b :: commaJoin (items.map dumps) ++ [0x5d] := by
  rw [dumps, dumpsItems_eq]

/-- Sorting the members commutes with writing their values. -/
theorem dumps_obj (members : List (Text × Value)) :
    dumps (.obj members) =
      0x7b :: commaJoin ((sortKeys members).map (fun m => memberText m.1 (dumps m.2))) ++ [0x7d] := by
  have hsort : sortKeys (dumpsMembers members) = (sortKeys members).map (fun m => (m.1, dumps m.2)) := by
    rw [dumpsMembers_eq, sortKeys, sortKeys]
    exact (List.map_insertionSort (fun a b : Text × Value => a.1 ≤ b.1) (fun a b : Text × List UInt8 => a.1 ≤ b.1) _ members
      (fun _ _ _ _ => Iff.rfl)).symm
  rw [dumps, hsort, List.map_map]
  rfl

/-! ### Strings of a value -/

inductive Value.HasString (P : Text → Prop) : Value → Prop
  | str {s : Text} (h : P s) : HasString P (.str s)
  | arr {items : List Value} {v : Value} (hv : v ∈ items) (h : HasString P v) : HasString P (.arr items)
  | obj {members : List (Text × Value)} {m : Text × Value} (hm : m ∈ members) (h : HasString P m.2) :
      HasString P (.obj members)

inductive Value.HasKey (P : Text → Prop) : Value → Prop
  | here {members : List (Text × Value)} {m : Text × Value} (hm : m ∈ members) (h : P m.1) : HasKey P (.obj members)
  | arr {items : List Value} {v : Value} (hv : v ∈ items) (h : HasKey P v) : HasKey P (.arr items)
  | obj {members : List (Text × Value)} {m : Text × Value} (hm : m ∈ members) (h : HasKey P m.2) :
      HasKey P (.obj members)

section Strings
variable {P : Text → Prop}

@[simp] theorem hasString_str {s : Text} : (Value.str s).HasString P ↔ P s :=
  ⟨fun h => by cases h; assumption, .str⟩

@[simp] theorem hasString_int {n : Int} : ¬ (Value.int n).HasString P := by
  intro h
  cases h

@[simp] theorem hasString_arr {items : List Value} : (Value.arr items).HasString P ↔ ∃ v ∈ items, v.HasString P := by
  constructor
  · intro h
    cases h with
    | arr hv h => exact ⟨_, hv, h⟩
  · rintro ⟨v, hv, h⟩
    exact .arr hv h

@[simp] theorem hasString_obj {members : List (Text × Value)} :
    (Value.obj members).HasString P ↔ ∃ m ∈ members, m.2.HasString P := by
  constructor
  · intro h
    cases h with
    | obj hm h => exact ⟨_, hm, h⟩
  · rintro ⟨m, hm, h⟩
    exact .obj hm h

@[simp] theorem hasKey_str {s : Text} : ¬ (Value.str s).HasKey P := by
  intro h
  cases h

@[simp] theorem hasKey_int {n : Int} : ¬ (Value.int n).HasKey P := by
  intro h
  cases h

@[simp] theorem hasKey_arr {items : List Value} : (Value.arr items).HasKey P ↔ ∃ v ∈ items, v.HasKey P := by
  constructor
  · intro h
    cases h with
    | arr hv h => exact ⟨_, hv, h⟩
  · rintro ⟨v, hv, h⟩
    exact .arr hv h

@[simp] theorem hasKey_obj {members : List (Text × Value)} :
    (Value.obj members).HasKey P ↔ ∃ m ∈ members, P m.1 ∨ m.2.HasKey P := by
  constructor
  · intro h
    cases h with
    | here hm h => exact ⟨_, hm, .inl h⟩
    | obj hm h => exact ⟨_, hm, .inr h⟩
  · rintro ⟨m, hm, h | h⟩
    · exact .here hm h
    · exact .obj hm h

end Strings

/-! ### Escapes -/

def Plain (c : Nat) : Prop := 0x20 ≤ c ∧ c ≤ 0x7e ∧ c ≠ 0x22 ∧ c ≠ 0x5c

instance (c : Nat) : Decidable (Plain c) := inferInstanceAs (Decidable (_ ∧ _))

/-- Text inside quotes: bytes other than quote and backslash, and pairs that start with a
backslash. -/
inductive Escaped : List UInt8 → Prop
  | nil : Escaped []
  | plain {b : UInt8} {rest : List UInt8} (hq : b ≠ 0x22) (hb : b ≠ 0x5c) (h : Escaped rest) : Escaped (b :: rest)
  | pair {b : UInt8} {rest : List UInt8} (h : Escaped rest) : Escaped (0x5c :: b :: rest)

theorem Escaped.append {xs ys : List UInt8} (hx : Escaped xs) (hy : Escaped ys) : Escaped (xs ++ ys) := by
  induction hx with
  | nil => exact hy
  | plain hq hb _ ih => exact .plain hq hb ih
  | pair _ ih => exact .pair ih

theorem lowerHex_plain {d : Nat} (hd : d < 16) : lowerHex d ≠ 0x22 ∧ lowerHex d ≠ 0x5c := by
  have hall : ∀ d < 16, lowerHex d ≠ 0x22 ∧ lowerHex d ≠ 0x5c := by decide
  exact hall d hd

theorem escaped_unicode (n : Nat) : Escaped (unicodeEscape n) := by
  have hx : ∀ m, lowerHex (m % 16) ≠ 0x22 ∧ lowerHex (m % 16) ≠ 0x5c :=
    fun m => lowerHex_plain (Nat.mod_lt m (by omega))
  exact .pair (.plain (hx _).1 (hx _).2 (.plain (hx _).1 (hx _).2 (.plain (hx _).1 (hx _).2
    (.plain (hx _).1 (hx _).2 .nil))))

theorem quote_notMem_unicode (n : Nat) : (0x22 : UInt8) ∉ unicodeEscape n := by
  have hx : ∀ m, (0x22 : UInt8) ≠ lowerHex (m % 16) := fun m => (lowerHex_plain (Nat.mod_lt m (by omega))).1.symm
  simp only [unicodeEscape, List.mem_cons, List.not_mem_nil, or_false, not_or]
  exact ⟨by decide, by decide, hx _, hx _, hx _, hx _⟩

theorem escape_plain {c : Nat} (hc : Plain c) : escape c = [UInt8.ofNat c] := by
  obtain ⟨h1, h2, h3, h4⟩ := hc
  have hne : c ≠ 0x0a ∧ c ≠ 0x0d ∧ c ≠ 0x09 ∧ c ≠ 0x0c ∧ c ≠ 0x08 := by omega
  simp [escape, h1, h2, h3, h4, hne]

theorem plain_byte {c : Nat} (hc : Plain c) : UInt8.ofNat c ≠ 0x22 ∧ UInt8.ofNat c ≠ 0x5c := by
  obtain ⟨h1, h2, h3, h4⟩ := hc
  have hne : ∀ m < 256, c ≠ m → UInt8.ofNat c ≠ UInt8.ofNat m := by
    intro m hm hcm heq
    have hnat := congrArg UInt8.toNat heq
    rw [UInt8.toNat_ofNat_of_lt' (by simp only [UInt8.size]; omega), UInt8.toNat_ofNat_of_lt' hm] at hnat
    exact hcm hnat
  exact ⟨hne 0x22 (by omega) h3, hne 0x5c (by omega) h4⟩

/-- Everything else is written with a backslash, and only a quote brings a quote. -/
theorem escape_cases (c : Nat) :
    (Plain c ∧ escape c = [UInt8.ofNat c]) ∨ (c = 0x22 ∧ escape c = [0x5c, 0x22]) ∨
    (¬ Plain c ∧ c ≠ 0x22 ∧ (∃ rest, escape c = 0x5c :: rest) ∧ Escaped (escape c) ∧ (0x22 : UInt8) ∉ escape c) := by
  by_cases hp : Plain c
  · exact .inl ⟨hp, escape_plain hp⟩
  by_cases hq : c = 0x22
  · exact .inr (.inl ⟨hq, by simp [escape, hq]⟩)
  refine .inr (.inr ⟨hp, hq, ?_⟩)
  have hpair : ∀ b : UInt8, b ≠ 0x22 → (∃ rest, [0x5c, b] = 0x5c :: rest) ∧ Escaped [0x5c, b] ∧
      (0x22 : UInt8) ∉ [0x5c, b] := by
    intro b hb
    refine ⟨⟨[b], rfl⟩, .pair .nil, ?_⟩
    simp only [List.mem_cons, List.not_mem_nil, or_false, not_or]
    exact ⟨by decide, hb.symm⟩
  unfold escape
  rw [if_neg hq]
  split
  · exact hpair _ (by decide)
  split
  · exact hpair _ (by decide)
  split
  · exact hpair _ (by decide)
  split
  · exact hpair _ (by decide)
  split
  · exact hpair _ (by decide)
  split
  · exact hpair _ (by decide)
  split
  · rename_i hb _ _ _ _ _ hrange
    exact absurd ⟨hrange.1, hrange.2, hq, hb⟩ hp
  split
  · exact ⟨⟨_, rfl⟩, escaped_unicode c, quote_notMem_unicode c⟩
  · refine ⟨⟨_, rfl⟩, (escaped_unicode _).append (escaped_unicode _), ?_⟩
    simp only [List.mem_append, not_or]
    exact ⟨quote_notMem_unicode _, quote_notMem_unicode _⟩

theorem escaped_escape (c : Nat) : Escaped (escape c) := by
  rcases escape_cases c with ⟨hp, h⟩ | ⟨-, h⟩ | ⟨-, -, -, h, -⟩
  · rw [h]
    exact .plain (plain_byte hp).1 (plain_byte hp).2 .nil
  · rw [h]
    exact .pair .nil
  · exact h

theorem escaped_body (s : Text) : Escaped (body s) := by
  induction s with
  | nil => exact .nil
  | cons c s ih => exact (escaped_escape c).append ih

/-- Text that stands for itself. -/
theorem body_plain {s : Text} (hs : ∀ c ∈ s, Plain c) : body s = s.map UInt8.ofNat := by
  induction s with
  | nil => rfl
  | cons c s ih =>
    have hrest := ih (fun x hx => hs x (List.mem_cons_of_mem _ hx))
    rw [body] at hrest ⊢
    rw [List.flatMap_cons, hrest, escape_plain (hs c List.mem_cons_self)]
    rfl

/-! ### Numbers -/

theorem digits_isDigit (n : Nat) : ∀ b ∈ digits n, 0x30 ≤ b ∧ b ≤ 0x39 := by
  intro b hb
  obtain ⟨c, hc, rfl⟩ := List.mem_map.mp hb
  have hd := Nat.isDigit_of_mem_toDigits (by decide) (by decide) hc
  simp only [Char.isDigit, Bool.and_eq_true, decide_eq_true_eq, UInt32.le_iff_toNat_le] at hd
  have h1 : 48 ≤ c.toNat := hd.1
  have h2 : c.toNat ≤ 57 := hd.2
  rw [UInt8.le_iff_toNat_le, UInt8.le_iff_toNat_le, UInt8.toNat_ofNat_of_lt' (by simp only [UInt8.size]; omega)]
  exact ⟨h1, h2⟩

end VirtiosoMux.Json
