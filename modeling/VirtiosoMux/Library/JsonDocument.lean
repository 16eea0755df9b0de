import VirtiosoMux.Library.Json

/-! # JSON documents

All of what Python's `json.loads` returns and `json.dumps` writes, with the options `indent` and
`sort_keys`. A float is kept as the text that stands for it. Without options of its own the
serializer of the smaller value type is the one for documents with sorted keys.
-/
namespace VirtiosoMux.Json

/-- The letters of `repr` of a float and of the three names that are not numbers. -/
def floatLetters : List UInt8 := (codes "0123456789+-.eNaInfity").map UInt8.ofNat

structure FloatText where
  text : List UInt8
  letters : ∀ b ∈ text, b ∈ floatLetters

inductive Document
  | null
  | bool (b : Bool)
  | int (n : Int)
  | float (x : FloatText)
  | str (s : Text)
  | arr (items : List Document)
  | obj (members : List (Text × Document))

theorem Document.ind {P : Document → Prop} (null : P .null) (bool : ∀ b, P (.bool b)) (int : ∀ n, P (.int n))
    (float : ∀ x, P (.float x)) (str : ∀ s, P (.str s)) (arr : ∀ items, (∀ d ∈ items, P d) → P (.arr items))
    (obj : ∀ members, (∀ m ∈ members, P m.2) → P (.obj members)) : ∀ d, P d
  | .null => null
  | .bool b => bool b
  | .int n => int n
  | .float x => float x
  | .str s => str s
  | .arr items => arr items (fun d _hd => Document.ind null bool int float str arr obj d)
  | .obj members => obj members (fun m _hm => Document.ind null bool int float str arr obj m.2)
termination_by d => sizeOf d
decreasing_by
  · have := List.sizeOf_lt_of_mem _hd
    simp only [Document.arr.sizeOf_spec]
    omega
  · have := List.sizeOf_lt_of_mem _hm
    have hpair : sizeOf m.2 < sizeOf m := by
      cases m
      simp only [Prod.mk.sizeOf_spec]
      omega
    simp only [Document.obj.sizeOf_spec]
    omega

/-! ### Serialization -/

structure DumpOptions where
  indent : Option Nat
  sortKeys : Bool

def DumpOptions.newline (o : DumpOptions) (level : Nat) : List UInt8 :=
  match o.indent with
  | none => []
  | some n => 0x0a :: List.replicate (n * level) 0x20

def DumpOptions.itemSeparator (o : DumpOptions) (level : Nat) : List UInt8 :=
  match o.indent with
  | none => [0x2c, 0x20]
  | some _ => 0x2c :: o.newline level

def joinWith (sep : List UInt8) : List (List UInt8) → List UInt8
  | [] => []
  | [b] => b
  | b :: c :: rest => b ++ sep ++ joinWith sep (c :: rest)

def enclose (o : DumpOptions) (level : Nat) (openCh closeCh : UInt8) (texts : List (List UInt8)) : List UInt8 :=
  if texts = [] then [openCh, closeCh]
  else openCh :: (o.newline (level + 1) ++ joinWith (o.itemSeparator (level + 1)) texts ++ o.newline level) ++ [closeCh]

def DumpOptions.order {α : Type*} (o : DumpOptions) (members : List (Text × α)) : List (Text × α) :=
  if o.sortKeys then Json.sortKeys members else members

def literal : Bool → List UInt8
  | true => (codes "true").map UInt8.ofNat
  | false => (codes "false").map UInt8.ofNat

mutual
def dumpsAt (o : DumpOptions) (level : Nat) : Document → List UInt8
  | .null => (codes "null").map UInt8.ofNat
  | .bool b => literal b
  | .int n => decimal n
  | .float x => x.text
  | .str s => quoted s
  | .arr items => enclose o level 0x5b 0x5d (dumpsItemsAt o (level + 1) items)
  | .obj members =>
    enclose o level 0x7b 0x7d ((o.order (dumpsMembersAt o (level + 1) members)).map (fun m => memberText m.1 m.2))

def dumpsItemsAt (o : DumpOptions) (level : Nat) : List Document → List (List UInt8)
  | [] => []
  | d :: rest => dumpsAt o level d :: dumpsItemsAt o level rest

def dumpsMembersAt (o : DumpOptions) (level : Nat) : List (Text × Document) → List (Text × List UInt8)
  | [] => []
  | (key, d) :: rest => (key, dumpsAt o level d) :: dumpsMembersAt o level rest
end

/-- `json.dumps(d, indent=…, sort_keys=…)`. -/
def dumpsDocument (o : DumpOptions) (d : Document) : List UInt8 := dumpsAt o 0 d

theorem dumpsItemsAt_eq (o : DumpOptions) (level : Nat) (items : List Document) :
    dumpsItemsAt o level items = items.map (dumpsAt o level) := by
  induction items with
  | nil => rfl
  | cons d rest ih => rw [dumpsItemsAt, ih, List.map_cons]

theorem dumpsMembersAt_eq (o : DumpOptions) (level : Nat) (members : List (Text × Document)) :
    dumpsMembersAt o level members = members.map (fun m => (m.1, dumpsAt o level m.2)) := by
  induction members with
  | nil => rfl
  | cons m rest ih => rw [dumpsMembersAt, ih, List.map_cons]

theorem mem_order {α : Type*} {o : DumpOptions} {members : List (Text × α)} {m : Text × α} :
    m ∈ o.order members ↔ m ∈ members := by
  unfold DumpOptions.order
  split
  · exact List.mem_insertionSort (fun a b : Text × α => a.1 ≤ b.1)
  · exact Iff.rfl

/-! ### Classes of texts

What holds of every serialization is shown along its form: quoted strings, bytes that mean
nothing outside of strings, and brackets around what is already known.
-/

/-- Outside of strings these bytes bracket nothing and end nothing. -/
def markBytes : List UInt8 := [0x00, 0x22, 0x5b, 0x5d, 0x7b, 0x7d]

structure TextClass (C : List UInt8 → Prop) : Prop where
  unmarked : ∀ b : List UInt8, (∀ x ∈ b, x ∉ markBytes) → C b
  strings : ∀ s, C (quoted s)
  append : ∀ {a b : List UInt8}, C a → C b → C (a ++ b)
  brackets : ∀ {b : List UInt8}, C b → C (0x5b :: b ++ [0x5d])
  braces : ∀ {b : List UInt8}, C b → C (0x7b :: b ++ [0x7d])

def enclosed (o : DumpOptions) (level : Nat) (texts : List (List UInt8)) : List UInt8 :=
  if texts = [] then []
  else o.newline (level + 1) ++ joinWith (o.itemSeparator (level + 1)) texts ++ o.newline level

theorem enclose_eq (o : DumpOptions) (level : Nat) (openCh closeCh : UInt8) (texts : List (List UInt8)) :
    enclose o level openCh closeCh texts = openCh :: enclosed o level texts ++ [closeCh] := by
  unfold enclose enclosed
  split <;> rfl

section Classes
variable {C : List UInt8 → Prop}

theorem newline_unmarked (o : DumpOptions) (level : Nat) : ∀ x ∈ o.newline level, x ∉ markBytes := by
  intro x hx
  unfold DumpOptions.newline at hx
  cases hindent : o.indent with
  | none =>
    rw [hindent] at hx
    cases hx
  | some n =>
    rw [hindent] at hx
    rcases List.mem_cons.mp hx with rfl | hx
    · decide
    · rw [List.eq_of_mem_replicate hx]
      decide

theorem separator_unmarked (o : DumpOptions) (level : Nat) : ∀ x ∈ o.itemSeparator level, x ∉ markBytes := by
  intro x hx
  unfold DumpOptions.itemSeparator at hx
  cases hindent : o.indent with
  | none =>
    have hall : ∀ x ∈ ([0x2c, 0x20] : List UInt8), x ∉ markBytes := by decide +kernel
    rw [hindent] at hx
    exact hall x hx
  | some n =>
    rw [hindent] at hx
    rcases List.mem_cons.mp hx with rfl | hx
    · decide
    · exact newline_unmarked o level x hx

theorem digits_unmarked (n : Nat) : ∀ x ∈ digits n, x ∉ markBytes := by
  intro x hx hmark
  obtain ⟨hlo, hhi⟩ := digits_isDigit n x hx
  have hall : ∀ y ∈ markBytes, ¬ (0x30 ≤ y ∧ y ≤ 0x39) := by decide +kernel
  exact hall x hmark ⟨hlo, hhi⟩

theorem decimal_unmarked (n : Int) : ∀ x ∈ decimal n, x ∉ markBytes := by
  intro x hx
  cases n with
  | ofNat n => exact digits_unmarked n x hx
  | negSucc n =>
    rcases List.mem_cons.mp hx with rfl | hx
    · decide
    · exact digits_unmarked (n + 1) x hx

theorem null_unmarked : ∀ x ∈ (codes "null").map UInt8.ofNat, x ∉ markBytes := by decide +kernel

theorem literal_unmarked (b : Bool) : ∀ x ∈ literal b, x ∉ markBytes := by
  cases b <;> decide +kernel

theorem float_unmarked (x : FloatText) : ∀ b ∈ x.text, b ∉ markBytes := by
  have hall : ∀ b ∈ floatLetters, b ∉ markBytes := by decide +kernel
  exact fun b hb => hall b (x.letters b hb)

theorem TextClass.of_joinWith (hC : TextClass C) (o : DumpOptions) (level : Nat) {l : List (List UInt8)}
    (hl : ∀ b ∈ l, C b) : C (joinWith (o.itemSeparator level) l) := by
  have hsep : C (o.itemSeparator level) := hC.unmarked _ (separator_unmarked o level)
  induction l with
  | nil => exact hC.unmarked [] (List.forall_mem_nil _)
  | cons b l ih =>
    cases l with
    | nil => exact hl b List.mem_cons_self
    | cons c l =>
      have hrest := ih (fun x hx => hl x (List.mem_cons_of_mem _ hx))
      exact hC.append (hC.append (hl b List.mem_cons_self) hsep) hrest

theorem TextClass.of_enclosed (hC : TextClass C) (o : DumpOptions) (level : Nat) {texts : List (List UInt8)}
    (htexts : ∀ b ∈ texts, C b) : C (enclosed o level texts) := by
  unfold enclosed
  split
  · exact hC.unmarked [] (List.forall_mem_nil _)
  · have hline : ∀ k, C (o.newline k) := fun k => hC.unmarked _ (newline_unmarked o k)
    exact hC.append (hC.append (hline _) (hC.of_joinWith o _ htexts)) (hline _)

theorem TextClass.of_member (hC : TextClass C) (key : Text) {b : List UInt8} (hb : C b) : C (memberText key b) := by
  have hsep : C [0x3a, 0x20] := hC.unmarked _ (by decide +kernel)
  exact hC.append (hC.append (hC.strings key) hsep) hb

def itemTexts (o : DumpOptions) (level : Nat) (items : List Document) : List (List UInt8) :=
  dumpsItemsAt o (level + 1) items

def memberTexts (o : DumpOptions) (level : Nat) (members : List (Text × Document)) : List (List UInt8) :=
  (o.order (dumpsMembersAt o (level + 1) members)).map (fun m => memberText m.1 m.2)

theorem of_itemTexts (o : DumpOptions) (level : Nat) {items : List Document}
    (hitems : ∀ d ∈ items, C (dumpsAt o (level + 1) d)) : ∀ b ∈ itemTexts o level items, C b := by
  intro b hb
  rw [itemTexts, dumpsItemsAt_eq] at hb
  obtain ⟨d, hd, rfl⟩ := List.mem_map.mp hb
  exact hitems d hd

theorem TextClass.of_members (hC : TextClass C) (o : DumpOptions) (level : Nat) {members : List (Text × Document)}
    (hmembers : ∀ m ∈ members, C (dumpsAt o (level + 1) m.2)) : ∀ b ∈ memberTexts o level members, C b := by
  intro b hb
  obtain ⟨m, hm, rfl⟩ := List.mem_map.mp hb
  rw [mem_order, dumpsMembersAt_eq] at hm
  obtain ⟨⟨key, d⟩, hd, rfl⟩ := List.mem_map.mp hm
  exact hC.of_member key (hmembers _ hd)

theorem dumpsAt_arr (o : DumpOptions) (level : Nat) (items : List Document) :
    dumpsAt o level (.arr items) = 0x5b :: enclosed o level (itemTexts o level items) ++ [0x5d] := by
  rw [dumpsAt, enclose_eq]
  rfl

theorem dumpsAt_obj (o : DumpOptions) (level : Nat) (members : List (Text × Document)) :
    dumpsAt o level (.obj members) = 0x7b :: enclosed o level (memberTexts o level members) ++ [0x7d] := by
  rw [dumpsAt, enclose_eq]
  rfl

/-- A class of texts has every serialization. -/
theorem TextClass.of_dumpsAt (hC : TextClass C) (o : DumpOptions) (d : Document) : ∀ level, C (dumpsAt o level d) := by
  induction d using Document.ind with
  | null => exact fun _ => hC.unmarked _ null_unmarked
  | bool b => exact fun _ => hC.unmarked _ (literal_unmarked b)
  | int n => exact fun _ => hC.unmarked _ (decimal_unmarked n)
  | float x => exact fun _ => hC.unmarked _ (float_unmarked x)
  | str s => exact fun _ => hC.strings s
  | arr items ih =>
    intro level
    rw [dumpsAt_arr]
    exact hC.brackets (hC.of_enclosed o level (of_itemTexts o level fun d hd => ih d hd (level + 1)))
  | obj members ih =>
    intro level
    rw [dumpsAt_obj]
    exact hC.braces (hC.of_enclosed o level (hC.of_members o level fun m hm => ih m hm (level + 1)))

/-- So has an array between its brackets. -/
theorem TextClass.of_arr (hC : TextClass C) (o : DumpOptions) (items : List Document) :
    C (enclosed o 0 (itemTexts o 0 items)) :=
  hC.of_enclosed o 0 (of_itemTexts o 0 fun d _ => hC.of_dumpsAt o d 1)

theorem TextClass.of_obj (hC : TextClass C) (o : DumpOptions) (members : List (Text × Document)) :
    C (enclosed o 0 (memberTexts o 0 members)) :=
  hC.of_enclosed o 0 (hC.of_members o 0 fun m _ => hC.of_dumpsAt o m.2 1)

end Classes

/-! ### No text has a NUL byte -/

theorem lowerHex_ne_zero {d : Nat} (hd : d < 16) : (0 : UInt8) ≠ lowerHex d := by
  have hall : ∀ d < 16, (0 : UInt8) ≠ lowerHex d := by decide
  exact hall d hd

theorem zero_notMem_unicode (n : Nat) : (0 : UInt8) ∉ unicodeEscape n := by
  have hx : ∀ m, (0 : UInt8) ≠ lowerHex (m % 16) := fun m => lowerHex_ne_zero (Nat.mod_lt m (by omega))
  simp only [unicodeEscape, List.mem_cons, List.not_mem_nil, or_false, not_or]
  exact ⟨by decide, by decide, hx _, hx _, hx _, hx _⟩

theorem zero_notMem_escape (c : Nat) : (0 : UInt8) ∉ escape c := by
  unfold escape
  repeat' split
  all_goals first
    | decide
    | skip
  · rename_i hrange
    simp only [List.mem_singleton]
    intro heq
    have hnat := congrArg UInt8.toNat heq
    rw [UInt8.toNat_ofNat_of_lt' (by simp only [UInt8.size]; omega)] at hnat
    have hpos : 0x20 ≤ c := hrange.1
    have hzero : (0 : UInt8).toNat = 0 := rfl
    omega
  · exact zero_notMem_unicode c
  · exact fun hmem => (List.mem_append.mp hmem).elim (zero_notMem_unicode _) (zero_notMem_unicode _)

theorem zero_notMem_between {x y : UInt8} (hx : 0 ≠ x) (hy : 0 ≠ y) {b : List UInt8} (hb : (0 : UInt8) ∉ b) :
    (0 : UInt8) ∉ x :: b ++ [y] := by
  intro hmem
  simp only [List.cons_append, List.mem_cons, List.mem_append, List.not_mem_nil, or_false] at hmem
  rcases hmem with hmem | hmem | hmem
  · exact hx hmem
  · exact hb hmem
  · exact hy hmem

theorem textClass_zero_notMem : TextClass (fun b => (0 : UInt8) ∉ b) where
  unmarked b hb hmem := hb 0 hmem (by decide)
  strings s := by
    apply zero_notMem_between (by decide) (by decide)
    intro hmem
    obtain ⟨c, -, hmem⟩ := List.mem_flatMap.mp hmem
    exact zero_notMem_escape c hmem
  append ha hb hmem := (List.mem_append.mp hmem).elim ha hb
  brackets := zero_notMem_between (by decide) (by decide)
  braces := zero_notMem_between (by decide) (by decide)

/-! ### Values as documents -/

mutual
def Value.document : Value → Document
  | .str s => .str s
  | .int n => .int n
  | .arr items => .arr (documents items)
  | .obj members => .obj (memberDocuments members)

def documents : List Value → List Document
  | [] => []
  | v :: rest => v.document :: documents rest

def memberDocuments : List (Text × Value) → List (Text × Document)
  | [] => []
  | (key, v) :: rest => (key, v.document) :: memberDocuments rest
end

theorem documents_eq (items : List Value) : documents items = items.map Value.document := by
  induction items with
  | nil => rfl
  | cons v rest ih => rw [documents, ih, List.map_cons]

theorem memberDocuments_eq (members : List (Text × Value)) :
    memberDocuments members = members.map (fun m => (m.1, m.2.document)) := by
  induction members with
  | nil => rfl
  | cons m rest ih => rw [memberDocuments, ih, List.map_cons]

theorem joinWith_eq (l : List (List UInt8)) : joinWith [0x2c, 0x20] l = commaJoin l := by
  induction l with
  | nil => rfl
  | cons b rest ih =>
    cases rest with
    | nil => rfl
    | cons c rest => rw [joinWith, commaJoin, ih]

def sorted : DumpOptions := ⟨none, true⟩

theorem enclose_sorted (level : Nat) (openCh closeCh : UInt8) (texts : List (List UInt8)) :
    enclose sorted level openCh closeCh texts = openCh :: commaJoin texts ++ [closeCh] := by
  unfold enclose
  split
  · rename_i hnone
    rw [hnone]
    rfl
  · rw [← joinWith_eq]
    simp [sorted, DumpOptions.newline, DumpOptions.itemSeparator]

/-- The two serializers agree. -/
theorem dumpsAt_document (level : Nat) (v : Value) : dumpsAt sorted level v.document = dumps v := by
  induction v using Value.ind generalizing level with
  | str s => rfl
  | int n => rfl
  | arr items ih =>
    have hitems : dumpsItemsAt sorted (level + 1) (documents items) = items.map dumps := by
      rw [dumpsItemsAt_eq, documents_eq, List.map_map]
      exact List.map_congr_left fun v hv => ih v hv (level + 1)
    rw [Value.document, dumpsAt, enclose_sorted, hitems, dumps_arr]
  | obj members ih =>
    have hmembers : dumpsMembersAt sorted (level + 1) (memberDocuments members) = dumpsMembers members := by
      rw [dumpsMembersAt_eq, memberDocuments_eq, List.map_map, dumpsMembers_eq]
      exact List.map_congr_left fun m hm => congrArg (Prod.mk m.1) (ih m hm (level + 1))
    rw [Value.document, dumpsAt, enclose_sorted, hmembers, dumps]
    rfl

end VirtiosoMux.Json
