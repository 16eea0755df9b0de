import VirtiosoMux.Library.Json

/-! # C string literals

What a compiler makes of a string literal with the simple escape sequences. JSON text is in
printable ASCII, and written as a JSON string once more it is a literal of itself.
-/
namespace VirtiosoMux.CLiteral
open Json

/-- The character behind a backslash. Octal, hexadecimal and universal escapes are left out: a
JSON string of printable text has none. -/
def simpleEscape (b : UInt8) : Option UInt8 :=
  if b = 0x22 ∨ b = 0x27 ∨ b = 0x3f ∨ b = 0x5c then some b
  else if b = 0x61 then some 0x07
  else if b = 0x62 then some 0x08
  else if b = 0x66 then some 0x0c
  else if b = 0x6e then some 0x0a
  else if b = 0x72 then some 0x0d
  else if b = 0x74 then some 0x09
  else if b = 0x76 then some 0x0b
  else none

/-- The characters up to the closing quote, and what follows it. A line end is an error. -/
def literalChars : List UInt8 → Option (List UInt8 × List UInt8)
  | [] => none
  | [b] => if b = 0x22 then some ([], []) else none
  | b :: e :: rest =>
    if b = 0x22 then some ([], e :: rest)
    else if b = 0x5c then
      match simpleEscape e with
      | none => none
      | some c => (literalChars rest).map fun r => (c :: r.1, r.2)
    else if b = 0x0a then none
    else (literalChars (e :: rest)).map fun r => (b :: r.1, r.2)

def literal : List UInt8 → Option (List UInt8 × List UInt8)
  | [] => none
  | b :: rest => if b = 0x22 then literalChars rest else none

def Printable (b : UInt8) : Prop := 0x20 ≤ b.toNat ∧ b.toNat ≤ 0x7e

instance (b : UInt8) : Decidable (Printable b) := inferInstanceAs (Decidable (_ ∧ _))

/-! ### JSON text is printable -/

theorem printable_append {xs ys : List UInt8} (hx : ∀ b ∈ xs, Printable b) (hy : ∀ b ∈ ys, Printable b) :
    ∀ b ∈ xs ++ ys, Printable b := by
  intro b hb
  exact (List.mem_append.mp hb).elim (hx b) (hy b)

theorem printable_cons {x : UInt8} {ys : List UInt8} (hx : Printable x) (hy : ∀ b ∈ ys, Printable b) :
    ∀ b ∈ x :: ys, Printable b := by
  intro b hb
  rcases List.mem_cons.mp hb with rfl | hb
  · exact hx
  · exact hy b hb

theorem printable_singleton {x : UInt8} (hx : Printable x) : ∀ b ∈ [x], Printable b := by
  intro b hb
  rw [List.mem_singleton.mp hb]
  exact hx

theorem printable_unicode (n : Nat) : ∀ b ∈ unicodeEscape n, Printable b := by
  have hdigit : ∀ d < 16, Printable (lowerHex d) := by decide
  have hx : ∀ m, Printable (lowerHex (m % 16)) := fun m => hdigit _ (Nat.mod_lt m (by decide))
  exact printable_cons (by decide) (printable_cons (by decide) (printable_cons (hx _) (printable_cons (hx _)
    (printable_cons (hx _) (printable_singleton (hx _))))))

theorem printable_escape (c : Nat) : ∀ b ∈ escape c, Printable b := by
  have hpair : ∀ e : UInt8, Printable e → ∀ b ∈ [0x5c, e], Printable b :=
    fun e he => printable_cons (by decide) (printable_singleton he)
  unfold escape
  split
  · exact hpair _ (by decide)
  split
  · exact hpair _ (by decide)
  split
  · exact hpair _ (by decide)
  split
  · exact hpair _ (by decide)
  split
  · exact hpair _ (by decide)
  split
  · exact hpair _ (by decide)
  split
  · exact hpair _ (by decide)
  split
  · rename_i hrange
    intro b hb
    rw [List.mem_singleton.mp hb, Printable, UInt8.toNat_ofNat_of_lt' (show c < 256 by omega)]
    exact hrange
  split
  · exact printable_unicode c
  · exact printable_append (printable_unicode _) (printable_unicode _)

theorem printable_quoted (s : Text) : ∀ b ∈ quoted s, Printable b := by
  have hbody : ∀ b ∈ body s, Printable b := by
    intro b hb
    obtain ⟨c, -, hc⟩ := List.mem_flatMap.mp hb
    exact printable_escape c b hc
  exact printable_cons (by decide) (printable_append hbody (printable_singleton (by decide)))

theorem printable_digits (n : Nat) : ∀ b ∈ digits n, Printable b := by
  intro b hb
  obtain ⟨hlow, hhigh⟩ := digits_isDigit n b hb
  rw [UInt8.le_iff_toNat_le] at hlow hhigh
  have h1 : (0x30 : UInt8).toNat = 0x30 := rfl
  have h2 : (0x39 : UInt8).toNat = 0x39 := rfl
  constructor <;> omega

theorem printable_decimal (n : Int) : ∀ b ∈ decimal n, Printable b := by
  cases n with
  | ofNat n => exact printable_digits n
  | negSucc n => exact printable_cons (by decide) (printable_digits (n + 1))

theorem printable_commaJoin {parts : List (List UInt8)} (h : ∀ part ∈ parts, ∀ b ∈ part, Printable b) :
    ∀ b ∈ commaJoin parts, Printable b := by
  fun_induction commaJoin parts with
  | case1 => nofun
  | case2 part => exact h part List.mem_cons_self
  | case3 part next rest ih =>
    have hcomma : ∀ b ∈ ([0x2c, 0x20] : List UInt8), Printable b :=
      printable_cons (by decide) (printable_singleton (by decide))
    exact printable_append (printable_append (h part List.mem_cons_self) hcomma)
      (ih fun other hother => h other (List.mem_cons_of_mem part hother))

theorem printable_dumps (v : Value) : ∀ b ∈ dumps v, Printable b := by
  induction v using Value.ind with
  | str s =>
    rw [dumps]
    exact printable_quoted s
  | int n =>
    rw [dumps]
    exact printable_decimal n
  | arr items ih =>
    rw [dumps_arr]
    refine printable_cons (by decide) (printable_append (printable_commaJoin ?_) (printable_singleton (by decide)))
    intro part hpart
    obtain ⟨item, hitem, rfl⟩ := List.mem_map.mp hpart
    exact ih item hitem
  | obj members ih =>
    rw [dumps_obj]
    refine printable_cons (by decide) (printable_append (printable_commaJoin ?_) (printable_singleton (by decide)))
    intro part hpart
    obtain ⟨m, hm, rfl⟩ := List.mem_map.mp hpart
    have hmem : m ∈ members := (List.mem_insertionSort _).mp hm
    have hkey := printable_append (printable_quoted m.1)
      (printable_cons (x := 0x3a) (by decide) (printable_singleton (x := 0x20) (by decide)))
    exact printable_append hkey (ih m hmem)

/-! ### The literal of printable text -/

theorem literalChars_escape {b : UInt8} (hb : Printable b) {rest : List UInt8} (hrest : rest ≠ []) :
    literalChars (escape b.toNat ++ rest) = (literalChars rest).map fun r => (b :: r.1, r.2) := by
  obtain ⟨next, more, rfl⟩ := List.exists_cons_of_ne_nil hrest
  have hback : (0x5c : UInt8) ≠ 0x22 := by decide
  by_cases hplain : Plain b.toNat
  · obtain ⟨hquote, hslash⟩ := plain_byte hplain
    rw [UInt8.ofNat_toNat] at hquote hslash
    have hline : b ≠ 0x0a := by
      rintro rfl
      exact absurd hb (by decide)
    rw [escape_plain hplain, UInt8.ofNat_toNat, List.singleton_append, literalChars, if_neg hquote, if_neg hslash,
      if_neg hline]
  · have hcases : b = 0x22 ∨ b = 0x5c := by
      have hor : b.toNat = 0x22 ∨ b.toNat = 0x5c := by
        by_contra hno
        obtain ⟨h1, h2⟩ := not_or.mp hno
        exact hplain ⟨hb.1, hb.2, h1, h2⟩
      exact hor.imp (fun h => UInt8.toNat_inj.mp h) fun h => UInt8.toNat_inj.mp h
    rcases hcases with rfl | rfl
    · change literalChars (0x5c :: 0x22 :: next :: more) = _
      rw [literalChars, if_neg hback, if_pos rfl]
      rfl
    · change literalChars (0x5c :: 0x5c :: next :: more) = _
      rw [literalChars, if_neg hback, if_pos rfl]
      rfl

/-- A compiler reads the JSON string of printable text as this text. -/
theorem literal_quoted {s : List UInt8} (hs : ∀ b ∈ s, Printable b) (rest : List UInt8) :
    literal (quoted (s.map UInt8.toNat) ++ rest) = some (s, rest) := by
  have hchars : literalChars (body (s.map UInt8.toNat) ++ 0x22 :: rest) = some (s, rest) := by
    induction s with
    | nil => cases rest <;> simp [body, literalChars]
    | cons b s ih =>
      have hih := ih fun x hx => hs x (List.mem_cons_of_mem b hx)
      have hsplit : body ((b :: s).map UInt8.toNat) = escape b.toNat ++ body (s.map UInt8.toNat) := rfl
      rw [hsplit, List.append_assoc, literalChars_escape (hs b List.mem_cons_self) (by simp), hih]
      rfl
  have hquoted : quoted (s.map UInt8.toNat) ++ rest = 0x22 :: (body (s.map UInt8.toNat) ++ 0x22 :: rest) := by
    simp [quoted]
  rw [hquoted, literal, if_pos rfl]
  exact hchars

end VirtiosoMux.CLiteral
