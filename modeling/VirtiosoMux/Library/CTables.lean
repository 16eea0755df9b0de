import VirtiosoMux.Library.CLiteral
import VirtiosoMux.Library.Decimals

/-! # Tables in C source text

An array of structures with one initializer on each line, between a line that opens it and the
line that closes it, and a string constant on the line behind its declaration. A reader of such
lines gets back the fields that were written.
-/
namespace VirtiosoMux.CTables
open Json CLiteral Decimals

abbrev Line := List UInt8

/-- One field of an initializer: a number, a string literal, or the name of a function. -/
inductive Field
  | int (n : Int)
  | str (s : List UInt8)
  | name (s : List UInt8)
deriving DecidableEq

def Field.text : Field → List UInt8
  | .int n => decimal n
  | .str s => 0x22 :: s ++ [0x22]
  | .name s => s

def isLetter (b : UInt8) : Bool :=
  (decide (0x41 ≤ b) && decide (b ≤ 0x5a)) || (decide (0x61 ≤ b) && decide (b ≤ 0x7a)) || decide (b = 0x5f)

def isWordByte (b : UInt8) : Bool := isLetter b || isDigit b

def Field.Valid : Field → Prop
  | .int _ => True
  | .str s => ∀ b ∈ s, b ≠ 0x22 ∧ b ≠ 0x5c ∧ b ≠ 0x0a
  | .name s => (∃ c, s.head? = some c ∧ isLetter c = true) ∧ ∀ b ∈ s, isWordByte b = true

/-- `{a, b, c},` behind some blanks. -/
def rowText (indent : List UInt8) (fields : List Field) : Line :=
  indent ++ 0x7b :: (commaJoin (fields.map Field.text) ++ [0x7d, 0x2c])

def closeLine : Line := [0x7d, 0x3b]

/-! ### The reader -/

def readField : List UInt8 → Option (Field × List UInt8)
  | [] => none
  | b :: rest =>
    if b = 0x22 then (literalChars rest).map fun r => (.str r.1, r.2)
    else if isLetter b then some (.name ((b :: rest).takeWhile isWordByte), (b :: rest).dropWhile isWordByte)
    else (readInt (b :: rest)).map fun r => (.int r.1, r.2)

/-- Fields with a comma and a blank between them. As many rounds as there are bytes are enough. -/
def readFields : Nat → List UInt8 → Option (List Field × List UInt8)
  | 0, _ => none
  | rounds + 1, text =>
    match readField text with
    | none => none
    | some (f, rest) =>
      if rest.take 2 = [0x2c, 0x20] then (readFields rounds (rest.drop 2)).map fun r => (f :: r.1, r.2)
      else some ([f], rest)

def isBlank (b : UInt8) : Bool := decide (b = 0x20)

def readRow (line : Line) : Option (List Field) :=
  match line.dropWhile isBlank with
  | [] => none
  | b :: rest =>
    if b = 0x7b then
      match readFields rest.length rest with
      | none => none
      | some (fields, more) => if more = [0x7d, 0x2c] then some fields else none
    else none

def behind (head : Line) (lines : List Line) : List Line := (lines.dropWhile fun line => decide (line ≠ head)).drop 1

def rowsOf (head : Line) (lines : List Line) : Option (List (List Field)) :=
  ((behind head lines).takeWhile fun line => decide (line ≠ closeLine)).mapM readRow

def stringOf (head : Line) (lines : List Line) : Option (List UInt8) :=
  match behind head lines with
  | [] => none
  | line :: _ =>
    match literal (line.dropWhile isBlank) with
    | none => none
    | some (s, more) => if more = [0x3b] then some s else none

/-! ### One row -/

def EndsField (e : UInt8) : Prop := e = 0x2c ∨ e = 0x7d

theorem literalChars_plain {s : List UInt8} (hs : ∀ b ∈ s, b ≠ 0x22 ∧ b ≠ 0x5c ∧ b ≠ 0x0a) (rest : List UInt8) :
    literalChars (s ++ 0x22 :: rest) = some (s, rest) := by
  induction s with
  | nil => cases rest <;> simp [literalChars]
  | cons b s ih =>
    obtain ⟨hquote, hback, hline⟩ := hs b List.mem_cons_self
    have hih := ih fun x hx => hs x (List.mem_cons_of_mem b hx)
    obtain ⟨next, more, hmore⟩ := List.exists_cons_of_ne_nil (show s ++ 0x22 :: rest ≠ [] by simp)
    rw [List.cons_append, hmore, literalChars, if_neg hquote, if_neg hback, if_neg hline, ← hmore, hih]
    rfl

theorem decimal_head (n : Int) : ∃ b rest, decimal n = b :: rest ∧ b ≠ 0x22 ∧ isLetter b = false := by
  cases n with
  | ofNat n =>
    obtain ⟨d, ds, hd, -⟩ := digits_cons n
    refine ⟨d, ds, hd, ?_⟩
    have hdigit := isDigit_digits n d (by rw [hd]; exact List.mem_cons_self)
    have hall : ∀ k < 256, isDigit (UInt8.ofNat k) = true → UInt8.ofNat k ≠ 0x22 ∧ isLetter (UInt8.ofNat k) = false := by
      decide +kernel
    have hbyte := hall d.toNat d.toNat_lt
    rw [UInt8.ofNat_toNat] at hbyte
    exact hbyte hdigit
  | negSucc n => exact ⟨0x2d, digits (n + 1), rfl, by decide, by decide⟩

/-- A field is read up to the comma or brace behind it. -/
theorem readField_text {f : Field} (hf : f.Valid) {e : UInt8} (he : EndsField e) (rest : List UInt8) :
    readField (f.text ++ e :: rest) = some (f, e :: rest) := by
  have hdigit : isDigit e = false := by rcases he with rfl | rfl <;> decide
  have hword : isWordByte e = false := by rcases he with rfl | rfl <;> decide
  cases f with
  | int n =>
    obtain ⟨b, more, hb, hquote, hletter⟩ := decimal_head n
    have hends : EndsNumber (e :: rest) := by
      intro x hx
      cases hx
      exact hdigit
    have hread := readInt_decimal n hends
    rw [hb, List.cons_append] at hread
    rw [Field.text, hb, List.cons_append, readField, if_neg hquote, if_neg (by simp [hletter]), hread]
    rfl
  | str s =>
    rw [Field.text, List.cons_append, List.cons_append, readField, if_pos rfl, List.append_assoc, List.singleton_append,
      literalChars_plain hf]
    rfl
  | name s =>
    obtain ⟨⟨c, hc, hletter⟩, hall⟩ := hf
    obtain ⟨more, rfl⟩ := List.head?_eq_some_iff.mp hc
    have hquote : c ≠ 0x22 := by
      rintro rfl
      exact absurd hletter (by decide)
    have htake : (c :: more ++ e :: rest).takeWhile isWordByte = c :: more := by
      rw [List.takeWhile_append_of_pos hall]
      simp [hword]
    have hdrop : (c :: more ++ e :: rest).dropWhile isWordByte = e :: rest := by
      rw [List.dropWhile_append_of_pos hall]
      simp [hword]
    rw [Field.text, List.cons_append, readField, if_neg hquote, if_pos hletter, ← List.cons_append, htake, hdrop]

theorem Field.text_ne_nil {f : Field} (hf : f.Valid) : f.text ≠ [] := by
  cases f with
  | int n =>
    obtain ⟨b, more, hb, -⟩ := decimal_head n
    simp [Field.text, hb]
  | str s => simp [Field.text]
  | name s =>
    obtain ⟨⟨c, hc, -⟩, -⟩ := hf
    rintro h
    rw [Field.text] at h
    rw [h] at hc
    cases hc

theorem readFields_commaJoin {fields : List Field} (hne : fields ≠ []) (hvalid : ∀ f ∈ fields, f.Valid) (more : List UInt8)
    {rounds : Nat} (hrounds : fields.length ≤ rounds) :
    readFields rounds (commaJoin (fields.map Field.text) ++ 0x7d :: more) = some (fields, 0x7d :: more) := by
  induction fields generalizing rounds with
  | nil => exact absurd rfl hne
  | cons f rest ih =>
    obtain ⟨rounds, rfl⟩ := Nat.exists_eq_add_of_le' (Nat.le_trans (Nat.succ_le_succ (Nat.zero_le _)) hrounds)
    have hf := hvalid f List.mem_cons_self
    cases rest with
    | nil =>
      rw [List.map_singleton, commaJoin, readFields, readField_text hf (.inr rfl)]
      simp
    | cons g rest =>
      have hih := ih (List.cons_ne_nil _ _) (fun x hx => hvalid x (List.mem_cons_of_mem f hx))
        (Nat.le_of_succ_le_succ hrounds)
      have hjoin : commaJoin ((f :: g :: rest).map Field.text) ++ 0x7d :: more =
          f.text ++ 0x2c :: (0x20 :: (commaJoin ((g :: rest).map Field.text) ++ 0x7d :: more)) := by
        simp [commaJoin]
      rw [hjoin, readFields, readField_text hf (.inl rfl)]
      simp only [List.take_succ_cons, List.take_zero, if_true, List.drop_succ_cons, List.drop_zero]
      rw [hih]
      rfl

theorem length_le_commaJoin {fields : List Field} (hvalid : ∀ f ∈ fields, f.Valid) :
    fields.length ≤ (commaJoin (fields.map Field.text)).length := by
  induction fields with
  | nil => exact Nat.zero_le _
  | cons f rest ih =>
    have hpos := List.length_pos_of_ne_nil (Field.text_ne_nil (hvalid f List.mem_cons_self))
    cases rest with
    | nil =>
      simp only [List.map_singleton, commaJoin, List.length_singleton]
      exact hpos
    | cons g rest =>
      have hih := ih fun x hx => hvalid x (List.mem_cons_of_mem f hx)
      simp only [List.map_cons, commaJoin, List.length_append, List.length_cons] at hih ⊢
      omega

theorem dropWhile_blanks {indent : List UInt8} (hindent : ∀ b ∈ indent, b = 0x20) {b : UInt8} (hb : b ≠ 0x20)
    (rest : List UInt8) : (indent ++ b :: rest).dropWhile isBlank = b :: rest := by
  rw [List.dropWhile_append_of_pos fun x hx => by simp [isBlank, hindent x hx]]
  simp [isBlank, hb]

/-- A row is read back. -/
theorem readRow_rowText {indent : List UInt8} (hindent : ∀ b ∈ indent, b = 0x20) {fields : List Field} (hne : fields ≠ [])
    (hvalid : ∀ f ∈ fields, f.Valid) : readRow (rowText indent fields) = some fields := by
  have hlen : fields.length ≤ (commaJoin (fields.map Field.text) ++ [0x7d, 0x2c]).length := by
    rw [List.length_append]
    exact Nat.le_trans (length_le_commaJoin hvalid) (Nat.le_add_right _ _)
  rw [readRow, rowText, dropWhile_blanks hindent (by decide)]
  simp only [if_true, readFields_commaJoin hne hvalid [0x2c] hlen]

/-! ### A table among other lines -/

section Table
variable (head : Line) {before : List Line} (hbefore : head ∉ before)
include hbefore

theorem behind_append (after : List Line) : behind head (before ++ head :: after) = after := by
  rw [behind, List.dropWhile_append_of_pos]
  · simp
  · intro line hline
    exact decide_eq_true fun heq => hbefore (heq ▸ hline)

theorem rowsOf_append {indent : List UInt8} (hindent : ∀ b ∈ indent, b = 0x20) (hne : indent ≠ [])
    (rows : List (List Field)) (hrows : ∀ fields ∈ rows, fields ≠ [] ∧ ∀ f ∈ fields, f.Valid) (after : List Line) :
    rowsOf head (before ++ head :: (rows.map (rowText indent) ++ closeLine :: after)) = some rows := by
  have hopen : ∀ line ∈ rows.map (rowText indent), decide (line ≠ closeLine) = true := by
    intro line hline
    obtain ⟨fields, -, rfl⟩ := List.mem_map.mp hline
    obtain ⟨b, more, rfl⟩ := List.exists_cons_of_ne_nil hne
    apply decide_eq_true
    intro heq
    have hhead := congrArg List.head? heq
    rw [hindent b List.mem_cons_self] at hhead
    exact absurd hhead (by simp [rowText, closeLine])
  have htake : (rows.map (rowText indent) ++ closeLine :: after).takeWhile (fun line => decide (line ≠ closeLine)) =
      rows.map (rowText indent) := by
    rw [List.takeWhile_append_of_pos hopen]
    simp
  rw [rowsOf, behind_append head hbefore, htake]
  clear htake hopen
  induction rows with
  | nil => rfl
  | cons fields rest ih =>
    obtain ⟨hsome, hvalid⟩ := hrows fields List.mem_cons_self
    rw [List.map_cons, List.mapM_cons, readRow_rowText hindent hsome hvalid,
      ih fun other hother => hrows other (List.mem_cons_of_mem fields hother)]
    rfl

theorem stringOf_append {indent : List UInt8} (hindent : ∀ b ∈ indent, b = 0x20) (s : List UInt8)
    (hs : ∀ b ∈ s, Printable b) (after : List Line) :
    stringOf head (before ++ head :: (indent ++ quoted (s.map UInt8.toNat) ++ [0x3b]) :: after) = some s := by
  have hdrop : (indent ++ quoted (s.map UInt8.toNat) ++ [0x3b]).dropWhile isBlank = quoted (s.map UInt8.toNat) ++ [0x3b] := by
    rw [List.append_assoc, quoted, List.cons_append, List.cons_append]
    exact dropWhile_blanks hindent (by decide) _
  rw [stringOf, behind_append head hbefore]
  simp only [hdrop, literal_quoted hs, if_true]

end Table

end VirtiosoMux.CTables
