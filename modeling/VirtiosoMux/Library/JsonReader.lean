import VirtiosoMux.Library.Decimals
import VirtiosoMux.Library.JsonDocument

/-! # Reading JSON documents

A reader in the manner of Python's `json.loads`, over code points. It takes white space between the
tokens, escapes in strings, and the last of several members with one key. What it returns is
written and read again without a change, whatever the options of the writer but the order of keys.
-/
namespace VirtiosoMux.Json

def ofBytes (b : List UInt8) : Text := b.map UInt8.toNat

@[simp] theorem ofBytes_nil : ofBytes [] = [] := rfl
@[simp] theorem ofBytes_cons (x : UInt8) (b : List UInt8) : ofBytes (x :: b) = x.toNat :: ofBytes b := rfl
@[simp] theorem ofBytes_append (a b : List UInt8) : ofBytes (a ++ b) = ofBytes a ++ ofBytes b := List.map_append

def isSpace (c : Nat) : Bool := c == 0x20 || c == 0x09 || c == 0x0a || c == 0x0d

def skipSpace (t : Text) : Text := t.dropWhile isSpace

/-! ### Strings -/

def hexDigit (c : Nat) : Option Nat :=
  if 0x30 ≤ c ∧ c ≤ 0x39 then some (c - 0x30)
  else if 0x41 ≤ c ∧ c ≤ 0x46 then some (c - 0x37)
  else if 0x61 ≤ c ∧ c ≤ 0x66 then some (c - 0x57)
  else none

def escapeLetter (c : Nat) : Option Nat :=
  if c = 0x22 ∨ c = 0x5c ∨ c = 0x2f then some c
  else if c = 0x62 then some 0x08
  else if c = 0x66 then some 0x0c
  else if c = 0x6e then some 0x0a
  else if c = 0x72 then some 0x0d
  else if c = 0x74 then some 0x09
  else none

inductive StringUnit
  | plain (c : Nat)
  | escaped (u : Nat)
deriving DecidableEq

/-- Where the reader of a string stands: between characters, behind a backslash, or with the value
of some digits and so many missing after the next one. -/
inductive StringPlace
  | between
  | backslash
  | digits (missing value : Nat)

def scanUnits : StringPlace → Text → Option (List StringUnit × Text)
  | _, [] => none
  | .between, c :: rest =>
    if c = 0x22 then some ([], rest)
    else if c = 0x5c then scanUnits .backslash rest
    else if c < 0x20 then none
    else (scanUnits .between rest).map (fun r => (.plain c :: r.1, r.2))
  | .backslash, c :: rest =>
    if c = 0x75 then scanUnits (.digits 3 0) rest
    else
      match escapeLetter c with
      | none => none
      | some u => (scanUnits .between rest).map (fun r => (.escaped u :: r.1, r.2))
  | .digits missing value, c :: rest =>
    match hexDigit c, missing with
    | none, _ => none
    | some d, 0 => (scanUnits .between rest).map (fun r => (.escaped (value * 16 + d) :: r.1, r.2))
    | some d, missing + 1 => scanUnits (.digits missing (value * 16 + d)) rest

def IsHigh (u : Nat) : Prop := 0xd800 ≤ u ∧ u < 0xdc00
def IsLow (u : Nat) : Prop := 0xdc00 ≤ u ∧ u < 0xe000

instance (u : Nat) : Decidable (IsHigh u) := inferInstanceAs (Decidable (_ ∧ _))
instance (u : Nat) : Decidable (IsLow u) := inferInstanceAs (Decidable (_ ∧ _))

/-- Two escapes that are the halves of a surrogate pair are one character. -/
def combine : List StringUnit → Text
  | [] => []
  | .plain c :: rest => c :: combine rest
  | [.escaped u] => [u]
  | .escaped u :: .plain c :: rest => u :: c :: combine rest
  | .escaped u :: .escaped v :: rest =>
    if IsHigh u ∧ IsLow v then (0x10000 + (u - 0xd800) * 0x400 + (v - 0xdc00)) :: combine rest
    else u :: combine (.escaped v :: rest)

def scanString (t : Text) : Option (Text × Text) := (scanUnits .between t).map (fun r => (combine r.1, r.2))

/-! ### Numbers -/

def isDigit (c : Nat) : Bool := decide (0x30 ≤ c) && decide (c ≤ 0x39)

def scanSign : Text → Text × Text
  | [] => ([], [])
  | c :: rest => if c = 0x2d then ([c], rest) else ([], c :: rest)

def scanDigits (t : Text) : Text × Text := (t.takeWhile isDigit, t.dropWhile isDigit)

/-- Digits with no zero in front of others; what follows a single zero is not taken. -/
def scanWhole (t : Text) : Option (Text × Text) :=
  match t with
  | [] => none
  | c :: rest => if c = 0x30 then some ([c], rest) else if isDigit c then some (scanDigits t) else none

def scanFraction : Text → Text × Text
  | [] => ([], [])
  | c :: rest =>
    if c = 0x2e ∧ (scanDigits rest).1 ≠ [] then (c :: (scanDigits rest).1, (scanDigits rest).2) else ([], c :: rest)

def scanExponentSign : Text → Text × Text
  | [] => ([], [])
  | c :: rest => if c = 0x2d ∨ c = 0x2b then ([c], rest) else ([], c :: rest)

def scanExponent : Text → Text × Text
  | [] => ([], [])
  | c :: rest =>
    let sign := scanExponentSign rest
    let ds := scanDigits sign.2
    if (c = 0x65 ∨ c = 0x45) ∧ ds.1 ≠ [] then (c :: (sign.1 ++ ds.1), ds.2) else ([], c :: rest)

structure NumberText where
  sign : Text
  whole : Text
  tail : Text
deriving DecidableEq

def scanNumber (t : Text) : Option (NumberText × Text) :=
  match scanWhole (scanSign t).2 with
  | none => none
  | some (whole, u) =>
    let fraction := scanFraction u
    let exponent := scanExponent fraction.2
    some (⟨(scanSign t).1, whole, fraction.1 ++ exponent.1⟩, exponent.2)

def NumberText.text (n : NumberText) : Text := n.sign ++ n.whole ++ n.tail

/-- `int(…)` of the text of a number without a fraction or an exponent. -/
def NumberText.int (n : NumberText) : Int :=
  let value := Decimals.number (n.whole.map UInt8.ofNat)
  if n.sign = [] then value else -value

def floatNames : List Text := [codes "NaN", codes "Infinity", codes "-Infinity"]

/-- The text is that of a number with a fraction or an exponent, and `read` returns the float it
stands for; or it is a name. -/
def IsRepr (read : Text → FloatText) (x : FloatText) : Prop :=
  (∃ n, scanNumber (ofBytes x.text) = some (n, []) ∧ n.tail ≠ [] ∧ read (ofBytes x.text) = x) ∨ ofBytes x.text ∈ floatNames

/-- `float` of a text, as the `repr` of its result, which reads back to itself. -/
structure FloatReader where
  read : Text → FloatText
  repr : ∀ t, IsRepr read (read t)

/-! ### Documents -/

def setMember (members : List (Text × Document)) (m : Text × Document) : List (Text × Document) :=
  if members.any (fun e => e.1 == m.1) then members.map (fun e => if e.1 = m.1 then m else e) else members ++ [m]

def ofPairs (pairs : List (Text × Document)) : List (Text × Document) := pairs.foldl setMember []

def floatName (s : String) (letters : ∀ b ∈ (codes s).map UInt8.ofNat, b ∈ floatLetters) : Document :=
  .float ⟨(codes s).map UInt8.ofNat, letters⟩

theorem nan_letters : ∀ b ∈ (codes "NaN").map UInt8.ofNat, b ∈ floatLetters := by decide +kernel
theorem infinity_letters : ∀ b ∈ (codes "Infinity").map UInt8.ofNat, b ∈ floatLetters := by decide +kernel
theorem minusInfinity_letters : ∀ b ∈ (codes "-Infinity").map UInt8.ofNat, b ∈ floatLetters := by decide +kernel

def names : List (Text × Document) :=
  [(codes "null", .null), (codes "true", .bool true), (codes "false", .bool false),
    (codes "NaN", floatName "NaN" nan_letters), (codes "Infinity", floatName "Infinity" infinity_letters),
    (codes "-Infinity", floatName "-Infinity" minusInfinity_letters)]

def scanName (t : Text) : Option (Document × Text) :=
  (names.find? (fun n => n.1.isPrefixOf t)).map (fun n => (n.2, t.drop n.1.length))

section Reader
variable (F : FloatReader)

def scanAtom (t : Text) : Option (Document × Text) :=
  match t with
  | [] => none
  | c :: rest =>
    if c = 0x22 then (scanString rest).map (fun r => (.str r.1, r.2))
    else
      match scanNumber t with
      | some (n, u) => some (if n.tail = [] then .int n.int else .float (F.read n.text), u)
      | none => scanName t

def scanKey : Text → Option (Text × Text)
  | [] => none
  | c :: rest =>
    if c = 0x22 then
      match scanString rest with
      | none => none
      | some (key, u) =>
        match skipSpace u with
        | [] => none
        | d :: v => if d = 0x3a then some (key, skipSpace v) else none
    else none

mutual
def scanValue : Nat → Text → Option (Document × Text)
  | 0, _ => none
  | _ + 1, [] => none
  | fuel + 1, c :: rest =>
    if c = 0x5b then
      if (skipSpace rest).head? = some 0x5d then some (.arr [], (skipSpace rest).tail)
      else (scanItems fuel (skipSpace rest)).map (fun r => (.arr r.1, r.2))
    else if c = 0x7b then
      if (skipSpace rest).head? = some 0x7d then some (.obj [], (skipSpace rest).tail)
      else (scanMembers fuel (skipSpace rest)).map (fun r => (.obj (ofPairs r.1), r.2))
    else scanAtom F (c :: rest)

def scanItems : Nat → Text → Option (List Document × Text)
  | 0, _ => none
  | fuel + 1, t =>
    match scanValue fuel t with
    | none => none
    | some (d, u) =>
      match skipSpace u with
      | [] => none
      | c :: v =>
        if c = 0x5d then some ([d], v)
        else if c = 0x2c then (scanItems fuel (skipSpace v)).map (fun r => (d :: r.1, r.2))
        else none

def scanMembers : Nat → Text → Option (List (Text × Document) × Text)
  | 0, _ => none
  | fuel + 1, t =>
    match scanKey t with
    | none => none
    | some (key, s) =>
      match scanValue fuel s with
      | none => none
      | some (d, u) =>
        match skipSpace u with
        | [] => none
        | c :: v =>
          if c = 0x7d then some ([(key, d)], v)
          else if c = 0x2c then (scanMembers fuel (skipSpace v)).map (fun r => ((key, d) :: r.1, r.2))
          else none
end

/-- `json.loads`; each call takes a character, or is the only one for its text. -/
def loads (t : Text) : Option Document :=
  match scanValue F (2 * t.length) (skipSpace t) with
  | none => none
  | some (d, rest) => if skipSpace rest = [] then some d else none

/-! ### What the reader accepts -/

/-- A part of a document: a value, the items of an array, or the members of an object. -/
inductive Part
  | value (d : Document)
  | items (ds : List Document)
  | members (ms : List (Text × Document))

inductive Scans : Text → Part → Text → Prop
  | atom {c : Nat} {t rest : Text} {d : Document} (ha : c ≠ 0x5b) (ho : c ≠ 0x7b) (h : scanAtom F (c :: t) = some (d, rest)) :
      Scans (c :: t) (.value d) rest
  | noItems {t rest : Text} (h : skipSpace t = 0x5d :: rest) : Scans (0x5b :: t) (.value (.arr [])) rest
  | arr {t rest : Text} {ds : List Document} (hopen : (skipSpace t).head? ≠ some 0x5d)
      (h : Scans (skipSpace t) (.items ds) rest) : Scans (0x5b :: t) (.value (.arr ds)) rest
  | lastItem {t u rest : Text} {d : Document} (h : Scans t (.value d) u) (hu : skipSpace u = 0x5d :: rest) :
      Scans t (.items [d]) rest
  | item {t u v rest : Text} {d : Document} {ds : List Document} (h : Scans t (.value d) u) (hu : skipSpace u = 0x2c :: v)
      (hmore : Scans (skipSpace v) (.items ds) rest) : Scans t (.items (d :: ds)) rest
  | noMembers {t rest : Text} (h : skipSpace t = 0x7d :: rest) : Scans (0x7b :: t) (.value (.obj [])) rest
  | obj {t rest : Text} {ms : List (Text × Document)} (hopen : (skipSpace t).head? ≠ some 0x7d)
      (h : Scans (skipSpace t) (.members ms) rest) : Scans (0x7b :: t) (.value (.obj (ofPairs ms))) rest
  | lastMember {t s u rest key : Text} {d : Document} (hkey : scanKey t = some (key, s)) (h : Scans s (.value d) u)
      (hu : skipSpace u = 0x7d :: rest) : Scans t (.members [(key, d)]) rest
  | member {t s u v rest key : Text} {d : Document} {ms : List (Text × Document)} (hkey : scanKey t = some (key, s))
      (h : Scans s (.value d) u) (hu : skipSpace u = 0x2c :: v) (hmore : Scans (skipSpace v) (.members ms) rest) :
      Scans t (.members ((key, d) :: ms)) rest

def Rest (t rest : Text) : Prop := rest <:+ t ∧ rest.length < t.length

theorem Rest.cons {c : Nat} {t rest : Text} (h : rest <:+ t) : Rest (c :: t) rest :=
  ⟨h.trans (List.suffix_cons c t), Nat.lt_succ_of_le h.length_le⟩

theorem Rest.trans {t u rest : Text} (h : Rest t u) (hu : rest <:+ u) : Rest t rest :=
  ⟨hu.trans h.1, Nat.lt_of_le_of_lt hu.length_le h.2⟩

theorem skipSpace_suffix (t : Text) : skipSpace t <:+ t := List.dropWhile_suffix _

theorem tail_suffix {c : Nat} {t v : Text} (h : skipSpace t = c :: v) : v <:+ t :=
  (List.suffix_cons c v).trans (h ▸ skipSpace_suffix t)

/-! ### Every token takes something -/

theorem scanUnits_suffix (place : StringPlace) {t rest : Text} {us : List StringUnit} (h : scanUnits place t = some (us, rest)) :
    rest <:+ t := by
  induction t generalizing place us with
  | nil => cases place <;> cases h
  | cons c t ih =>
    have hskip : ∀ {place us}, scanUnits place t = some (us, rest) → rest <:+ c :: t :=
      fun h => (ih _ h).trans (List.suffix_cons c t)
    have hmap : ∀ {place us} {x : StringUnit}, (scanUnits place t).map (fun r => (x :: r.1, r.2)) = some (us, rest) →
        rest <:+ c :: t := by
      intro place us x h
      obtain ⟨r, hr, heq⟩ := Option.map_eq_some_iff.mp h
      cases heq
      exact hskip hr
    cases place with
    | between =>
      rw [scanUnits] at h
      split at h
      · cases h
        exact List.suffix_cons c _
      split at h
      · exact hskip h
      split at h
      · cases h
      · exact hmap h
    | backslash =>
      rw [scanUnits] at h
      split at h
      · exact hskip h
      · split at h
        · cases h
        · exact hmap h
    | digits missing value =>
      rw [scanUnits.eq_def] at h
      dsimp only at h
      split at h
      · cases h
      · exact hmap h
      · exact hskip h

theorem scanString_suffix {t s rest : Text} (h : scanString t = some (s, rest)) : rest <:+ t := by
  obtain ⟨r, hr, heq⟩ := Option.map_eq_some_iff.mp h
  cases heq
  exact scanUnits_suffix .between hr

theorem scanSign_suffix (t : Text) : (scanSign t).2 <:+ t := by
  cases t with
  | nil => exact List.suffix_refl _
  | cons c t =>
    rw [scanSign]
    split
    · exact List.suffix_cons c t
    · exact List.suffix_refl _

theorem scanDigits_suffix (t : Text) : (scanDigits t).2 <:+ t := List.dropWhile_suffix _

theorem scanWhole_rest {t ds rest : Text} (h : scanWhole t = some (ds, rest)) : Rest t rest := by
  cases t with
  | nil => cases h
  | cons c t =>
    rw [scanWhole] at h
    split at h
    · cases h
      exact Rest.cons (List.suffix_refl _)
    split at h
    · rename_i hdigit
      cases h
      have hdrop : (c :: t).dropWhile isDigit = t.dropWhile isDigit := List.dropWhile_cons_of_pos hdigit
      change Rest (c :: t) ((c :: t).dropWhile isDigit)
      rw [hdrop]
      exact Rest.cons (List.dropWhile_suffix _)
    · cases h

theorem scanFraction_suffix (t : Text) : (scanFraction t).2 <:+ t := by
  cases t with
  | nil => exact List.suffix_refl _
  | cons c t =>
    rw [scanFraction]
    split
    · exact (scanDigits_suffix t).trans (List.suffix_cons c t)
    · exact List.suffix_refl _

theorem scanExponent_suffix (t : Text) : (scanExponent t).2 <:+ t := by
  cases t with
  | nil => exact List.suffix_refl _
  | cons c t =>
    have hsign : (scanExponentSign t).2 <:+ t := by
      cases t with
      | nil => exact List.suffix_refl _
      | cons d t =>
        rw [scanExponentSign]
        split
        · exact List.suffix_cons d t
        · exact List.suffix_refl _
    rw [scanExponent]
    split
    · exact ((scanDigits_suffix _).trans hsign).trans (List.suffix_cons c t)
    · exact List.suffix_refl _

theorem scanNumber_rest {t rest : Text} {n : NumberText} (h : scanNumber t = some (n, rest)) : Rest t rest := by
  unfold scanNumber at h
  split at h
  · cases h
  · rename_i whole u hwhole
    cases h
    have hrest := (scanWhole_rest hwhole).trans ((scanExponent_suffix _).trans (scanFraction_suffix u))
    exact ⟨hrest.1.trans (scanSign_suffix t), Nat.lt_of_lt_of_le hrest.2 (scanSign_suffix t).length_le⟩

theorem names_nonempty : ∀ n ∈ names, n.1 ≠ [] := by
  intro n hn
  simp only [names, List.mem_cons, List.not_mem_nil, or_false] at hn
  rcases hn with rfl | rfl | rfl | rfl | rfl | rfl <;> decide

theorem scanName_rest {t rest : Text} {d : Document} (h : scanName t = some (d, rest)) : Rest t rest := by
  obtain ⟨n, hn, heq⟩ := Option.map_eq_some_iff.mp h
  cases heq
  have hstarts : n.1 <+: t := by simpa using List.find?_some hn
  have hpos := List.length_pos_iff.mpr (names_nonempty n (List.mem_of_find?_eq_some hn))
  refine ⟨List.drop_suffix _ _, ?_⟩
  rw [List.length_drop]
  have := hstarts.length_le
  omega

theorem scanAtom_rest {t rest : Text} {d : Document} (h : scanAtom F t = some (d, rest)) : Rest t rest := by
  cases t with
  | nil => cases h
  | cons c t =>
    simp only [scanAtom] at h
    split at h
    · obtain ⟨r, hr, heq⟩ := Option.map_eq_some_iff.mp h
      cases heq
      exact Rest.cons (scanString_suffix hr)
    split at h
    · rename_i n u hn
      cases h
      exact scanNumber_rest hn
    · exact scanName_rest h

theorem scanKey_rest {t key s : Text} (h : scanKey t = some (key, s)) : Rest t s := by
  cases t with
  | nil => cases h
  | cons c t =>
    rw [scanKey] at h
    split at h
    swap
    · cases h
    split at h
    · cases h
    rename_i u hstring
    split at h
    · cases h
    rename_i d v hv
    split at h
    · cases h
      exact Rest.cons ((skipSpace_suffix v).trans ((tail_suffix hv).trans (scanString_suffix hstring)))
    · cases h

theorem Scans.rest {t rest : Text} {p : Part} (h : Scans F t p rest) : Rest t rest := by
  induction h with
  | atom _ _ h => exact scanAtom_rest F h
  | noItems h => exact Rest.cons (tail_suffix h)
  | arr _ _ ih => exact Rest.cons (ih.1.trans (skipSpace_suffix _))
  | lastItem _ hu ih => exact ih.trans (tail_suffix hu)
  | item _ hu _ ih ihmore => exact ih.trans (ihmore.1.trans ((skipSpace_suffix _).trans (tail_suffix hu)))
  | noMembers h => exact Rest.cons (tail_suffix h)
  | obj _ _ ih => exact Rest.cons (ih.1.trans (skipSpace_suffix _))
  | lastMember hkey _ hu ih => exact (scanKey_rest hkey).trans ((tail_suffix hu).trans ih.1)
  | member hkey _ hu _ ih ihmore =>
    exact (scanKey_rest hkey).trans ((ihmore.1.trans ((skipSpace_suffix _).trans (tail_suffix hu))).trans ih.1)

/-! ### The calls are enough -/

/-- The reader finds the part with so many nested calls. -/
def Finds (fuel : Nat) (t : Text) (p : Part) (rest : Text) : Prop :=
  match p with
  | .value d => scanValue F fuel t = some (d, rest)
  | .items ds => scanItems F fuel t = some (ds, rest)
  | .members ms => scanMembers F fuel t = some (ms, rest)

theorem eq_cons_of_head {t : Text} {c : Nat} (h : t.head? = some c) : t = c :: t.tail := by
  cases t with
  | nil => cases h
  | cons d t =>
    cases h
    rfl

theorem Finds.scans {fuel : Nat} {t rest : Text} {p : Part} (h : Finds F fuel t p rest) : Scans F t p rest := by
  induction fuel generalizing t p rest with
  | zero => cases p <;> exact nomatch h
  | succ fuel ih =>
    cases p with
    | value d =>
      cases t with
      | nil => exact nomatch h
      | cons c t =>
        simp only [Finds, scanValue] at h
        split at h
        · rename_i hc
          subst hc
          split at h
          · rename_i hclose
            cases h
            exact .noItems (eq_cons_of_head hclose)
          · rename_i hopen
            obtain ⟨r, hr, heq⟩ := Option.map_eq_some_iff.mp h
            cases heq
            exact .arr hopen (ih (p := .items r.1) hr)
        split at h
        · rename_i hc
          subst hc
          split at h
          · rename_i hclose
            cases h
            exact .noMembers (eq_cons_of_head hclose)
          · rename_i hopen
            obtain ⟨r, hr, heq⟩ := Option.map_eq_some_iff.mp h
            cases heq
            exact .obj hopen (ih (p := .members r.1) hr)
        · rename_i ha ho
          exact .atom ha ho h
    | items ds =>
      simp only [Finds, scanItems] at h
      split at h
      · cases h
      rename_i d u hvalue
      have hd : Scans F t (.value d) u := ih (p := .value d) hvalue
      split at h
      · cases h
      rename_i c v hv
      split at h
      · rename_i hc
        subst hc
        cases h
        exact .lastItem hd hv
      split at h
      · rename_i hc
        subst hc
        obtain ⟨r, hr, heq⟩ := Option.map_eq_some_iff.mp h
        cases heq
        exact .item hd hv (ih (p := .items r.1) hr)
      · cases h
    | members ms =>
      simp only [Finds, scanMembers] at h
      split at h
      · cases h
      rename_i key s hkey
      split at h
      · cases h
      rename_i d u hvalue
      have hd : Scans F s (.value d) u := ih (p := .value d) hvalue
      split at h
      · cases h
      rename_i c v hv
      split at h
      · rename_i hc
        subst hc
        cases h
        exact .lastMember hkey hd hv
      split at h
      · rename_i hc
        subst hc
        obtain ⟨r, hr, heq⟩ := Option.map_eq_some_iff.mp h
        cases heq
        exact .member hkey hd hv (ih (p := .members r.1) hr)
      · cases h

/-- The calls that a part needs besides two for each character. -/
def Part.calls : Part → Nat
  | .value _ => 0
  | _ => 1

theorem length_after {c : Nat} {t v : Text} (h : skipSpace t = c :: v) : (skipSpace v).length < t.length := by
  have hv := (tail_suffix h).length_le
  have hskip := (skipSpace_suffix v).length_le
  have hcons : (c :: v).length ≤ t.length := by
    rw [← h]
    exact (skipSpace_suffix t).length_le
  rw [List.length_cons] at hcons
  omega

theorem Scans.finds {t rest : Text} {p : Part} (h : Scans F t p rest) {fuel : Nat} (hfuel : 2 * t.length + p.calls ≤ fuel) :
    Finds F fuel t p rest := by
  induction h generalizing fuel with
  | atom ha ho h =>
    rw [List.length_cons] at hfuel
    obtain ⟨fuel, rfl⟩ : ∃ k, fuel = k + 1 := ⟨fuel - 1, by omega⟩
    simp only [Finds, scanValue, if_neg ha, if_neg ho, h]
  | noItems h =>
    rw [List.length_cons] at hfuel
    obtain ⟨fuel, rfl⟩ : ∃ k, fuel = k + 1 := ⟨fuel - 1, by omega⟩
    simp [Finds, scanValue, h]
  | @arr t rest ds hopen h ih =>
    rw [List.length_cons] at hfuel
    obtain ⟨fuel, rfl⟩ : ∃ k, fuel = k + 1 := ⟨fuel - 1, by omega⟩
    have hlen := (skipSpace_suffix t).length_le
    have hitems : scanItems F fuel (skipSpace t) = some (ds, rest) := ih (by simp only [Part.calls] at hfuel ⊢; omega)
    simp only [Finds, scanValue, if_true, if_neg hopen, hitems, Option.map_some]
  | @lastItem t u rest d h hu ih =>
    obtain ⟨fuel, rfl⟩ : ∃ k, fuel = k + 1 := ⟨fuel - 1, by simp only [Part.calls] at hfuel; omega⟩
    have hvalue : scanValue F fuel t = some (d, u) := ih (by simp only [Part.calls] at hfuel ⊢; omega)
    simp only [Finds, scanItems, hvalue, hu, if_true]
  | @item t u v rest d ds h hu hmore ih ihmore =>
    obtain ⟨fuel, rfl⟩ : ∃ k, fuel = k + 1 := ⟨fuel - 1, by simp only [Part.calls] at hfuel; omega⟩
    have hafter := length_after hu
    have htaken := h.rest.2
    have hvalue : scanValue F fuel t = some (d, u) := ih (by simp only [Part.calls] at hfuel ⊢; omega)
    have hitems : scanItems F fuel (skipSpace v) = some (ds, rest) :=
      ihmore (by simp only [Part.calls] at hfuel ⊢; omega)
    have hcomma : (0x2c : Nat) ≠ 0x5d := by decide
    simp only [Finds, scanItems, hvalue, hu, if_neg hcomma, if_true, hitems, Option.map_some]
  | noMembers h =>
    rw [List.length_cons] at hfuel
    obtain ⟨fuel, rfl⟩ : ∃ k, fuel = k + 1 := ⟨fuel - 1, by omega⟩
    simp [Finds, scanValue, h]
  | @obj t rest ms hopen h ih =>
    rw [List.length_cons] at hfuel
    obtain ⟨fuel, rfl⟩ : ∃ k, fuel = k + 1 := ⟨fuel - 1, by omega⟩
    have hlen := (skipSpace_suffix t).length_le
    have hmembers : scanMembers F fuel (skipSpace t) = some (ms, rest) :=
      ih (by simp only [Part.calls] at hfuel ⊢; omega)
    have hbrace : (0x7b : Nat) ≠ 0x5b := by decide
    simp only [Finds, scanValue, if_neg hbrace, if_true, if_neg hopen, hmembers, Option.map_some]
  | @lastMember t s u rest key d hkey h hu ih =>
    obtain ⟨fuel, rfl⟩ : ∃ k, fuel = k + 1 := ⟨fuel - 1, by simp only [Part.calls] at hfuel; omega⟩
    have htaken := (scanKey_rest hkey).2
    have hvalue : scanValue F fuel s = some (d, u) := ih (by simp only [Part.calls] at hfuel ⊢; omega)
    simp only [Finds, scanMembers, hkey, hvalue, hu, if_true]
  | @member t s u v rest key d ms hkey h hu hmore ih ihmore =>
    obtain ⟨fuel, rfl⟩ : ∃ k, fuel = k + 1 := ⟨fuel - 1, by simp only [Part.calls] at hfuel; omega⟩
    have hkeyTaken := (scanKey_rest hkey).2
    have hafter := length_after hu
    have htaken := h.rest.2
    have hvalue : scanValue F fuel s = some (d, u) := ih (by simp only [Part.calls] at hfuel ⊢; omega)
    have hmembers : scanMembers F fuel (skipSpace v) = some (ms, rest) :=
      ihmore (by simp only [Part.calls] at hfuel ⊢; omega)
    have hcomma : (0x2c : Nat) ≠ 0x7d := by decide
    simp only [Finds, scanMembers, hkey, hvalue, hu, if_neg hcomma, if_true, hmembers, Option.map_some]

/-- The reader returns a document exactly where one stands between white space. -/
theorem loads_eq_some_iff {t : Text} {d : Document} :
    loads F t = some d ↔ ∃ rest, Scans F (skipSpace t) (.value d) rest ∧ skipSpace rest = [] := by
  have hlen := (skipSpace_suffix t).length_le
  unfold loads
  constructor
  · intro h
    split at h
    · cases h
    rename_i e rest hscan
    split at h
    · rename_i hend
      cases h
      exact ⟨rest, Finds.scans F (p := .value d) hscan, hend⟩
    · cases h
  · rintro ⟨rest, hscans, hend⟩
    have hfinds : scanValue F (2 * t.length) (skipSpace t) = some (d, rest) :=
      hscans.finds F (by simp only [Part.calls]; omega)
    rw [hfinds]
    simp only [hend, if_true]

end Reader
end VirtiosoMux.Json
