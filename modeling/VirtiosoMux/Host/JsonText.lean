import VirtiosoMux.Protocol.Codes

/-! # The host's text search over the registry record

The host has no JSON parser. It finds quoted keys with `strstr` and reads what
follows them. A pointer into a C string is the suffix of the text that starts
there, so that pointer order is the reverse order of the lengths.
-/
namespace VirtiosoMux.Host

def AtOrAfter (p q : Bytes) : Prop := p.length ≤ q.length
instance (p q : Bytes) : Decidable (AtOrAfter p q) := inferInstanceAs (Decidable (_ ≤ _))

/-- `isspace` of the C locale. -/
def isspace (c : Byte) : Bool := c == 0x20 || (0x09 ≤ c && c ≤ 0x0d)

def isdigit (c : Byte) : Bool := 0x30 ≤ c && c ≤ 0x39

def strstr (needle : Bytes) : Bytes → Option Bytes
  | [] => if needle = [] then some [] else none
  | c :: cs => if needle.isPrefixOf (c :: cs) then some (c :: cs) else strstr needle cs

/-- Position after `key` and an optional run of blanks, if a colon stands there.
This is the common start of the three value readers. -/
def afterKeyColon (start key : Bytes) : Option Bytes :=
  match strstr key start with
  | none => none
  | some pos =>
    match (pos.drop key.length).dropWhile isspace with
    | 0x3a :: rest => some rest
    | _ => none

/-- The body of a quoted value; any backslash makes the host give up. -/
def quotedValue : Bytes → Option Bytes
  | [] => none
  | c :: cs =>
    if c = 0x22 then some []
    else if c = 0x5c then none
    else (quotedValue cs).map (c :: ·)

/-- `dup` tells whether the copy made at a text position finds memory. -/
def jsonStringValueAfter (dup : Nat → Bool) (start key : Bytes) : Option Bytes :=
  match afterKeyColon start key with
  | none => none
  | some pos =>
    match pos.dropWhile isspace with
    | 0x22 :: value =>
      match quotedValue value with
      | none => none
      | some v => if dup value.length then some v else none
    | _ => none

def decimalValue (digits : Bytes) : Nat :=
  digits.foldl (fun acc d => acc * 10 + (d.toNat - 0x30)) 0

/-- `strtol` in base ten, with `none` for an empty conversion. Its saturation at
the bounds of `long` is left out: the only caller rejects everything outside a byte. -/
def strtol (s : Bytes) : Option Int :=
  let unsignedPart (rest : Bytes) : Option Nat :=
    let digits := rest.takeWhile isdigit
    if digits = [] then none else some (decimalValue digits)
  match s.dropWhile isspace with
  | 0x2d :: rest => (unsignedPart rest).map (fun n => -(n : Int))
  | 0x2b :: rest => (unsignedPart rest).map (fun n => (n : Int))
  | rest => (unsignedPart rest).map (fun n => (n : Int))

def jsonIntValueAfter (start key : Bytes) : Option Int :=
  match afterKeyColon start key with
  | none => none
  | some pos =>
    match strtol pos with
    | none => none
    | some value => if value < -1 ∨ value > 0xff then none else some value

def matchingScan (openCh closeCh : Byte) : Bytes → Int → Bool → Bool → Option Bytes
  | [], _, _, _ => none
  | ch :: rest, depth, inString, escaped =>
    if inString then
      if escaped then matchingScan openCh closeCh rest depth true false
      else if ch = 0x5c then matchingScan openCh closeCh rest depth true true
      else if ch = 0x22 then matchingScan openCh closeCh rest depth false false
      else matchingScan openCh closeCh rest depth true false
    else if ch = 0x22 then matchingScan openCh closeCh rest depth true escaped
    else if ch = openCh then matchingScan openCh closeCh rest (depth + 1) false escaped
    else if ch = closeCh then
      if depth - 1 = 0 then some (ch :: rest)
      else matchingScan openCh closeCh rest (depth - 1) false escaped
    else matchingScan openCh closeCh rest depth false escaped

def jsonFindMatching (start : Bytes) (openCh closeCh : Byte) : Option Bytes :=
  matchingScan openCh closeCh start 0 false false

def jsonFindArrayAfter (start key : Bytes) : Option (Bytes × Bytes) :=
  match afterKeyColon start key with
  | none => none
  | some pos =>
    match pos.dropWhile isspace with
    | 0x5b :: rest => (jsonFindMatching (0x5b :: rest) 0x5b 0x5d).map (fun e => (0x5b :: rest, e))
    | _ => none

def jsonFindKeyBefore (start finish key : Bytes) : Option Bytes :=
  match strstr key start with
  | none => none
  | some pos => if AtOrAfter pos finish then none else some pos

theorem matchingScan_length {openCh closeCh : Byte} {text e : Bytes} {depth : Int} {inString escaped : Bool}
    (h : matchingScan openCh closeCh text depth inString escaped = some e) :
    e ≠ [] ∧ e.length ≤ text.length := by
  induction text generalizing depth inString escaped with
  | nil => simp [matchingScan] at h
  | cons ch rest ih =>
    have step : ∀ {d : Int} {b c : Bool}, matchingScan openCh closeCh rest d b c = some e →
        e ≠ [] ∧ e.length ≤ (ch :: rest).length := fun h =>
      ⟨(ih h).1, Nat.le_succ_of_le (ih h).2⟩
    simp only [matchingScan] at h
    split at h
    · split at h
      · exact step h
      · split at h
        · exact step h
        · split at h <;> exact step h
    · split at h
      · exact step h
      · split at h
        · exact step h
        · split at h
          · split at h
            · cases h; simp
            · exact step h
          · exact step h

end VirtiosoMux.Host
