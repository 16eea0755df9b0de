import VirtiosoMux.Host.JsonText
import VirtiosoMux.Library.JsonDocument

/-! # Bracket matching on serialized documents

Inside brackets, the bracket search passes over every serialized document, whatever its strings
contain, so that from the start of an object or array it finds the end.
-/
namespace VirtiosoMux.Host
open Json

/-- A text that the bracket search passes over inside brackets. -/
def Balanced (openCh closeCh : Byte) (b : Bytes) : Prop :=
  ∀ depth : Int, 1 ≤ depth → ∀ rest, matchingScan openCh closeCh (b ++ rest) depth false false =
    matchingScan openCh closeCh rest depth false false

def Bracket (openCh closeCh : Byte) : Prop := (openCh = 0x7b ∧ closeCh = 0x7d) ∨ (openCh = 0x5b ∧ closeCh = 0x5d)

section Matching
variable {openCh closeCh : Byte}

theorem Balanced.append {a b : Bytes} (ha : Balanced openCh closeCh a) (hb : Balanced openCh closeCh b) :
    Balanced openCh closeCh (a ++ b) := by
  intro depth hd rest
  rw [List.append_assoc, ha depth hd, hb depth hd]

theorem balanced_marks {b : Bytes} (hb : ∀ x ∈ b, x ≠ 0x22 ∧ x ≠ openCh ∧ x ≠ closeCh) :
    Balanced openCh closeCh b := by
  intro depth hd rest
  induction b with
  | nil => rfl
  | cons x b ih =>
    obtain ⟨h1, h2, h3⟩ := hb x List.mem_cons_self
    have hrest := ih (fun y hy => hb y (List.mem_cons_of_mem _ hy))
    simp [matchingScan, h1, h2, h3, hrest]

theorem scan_escaped (openCh closeCh : Byte) {b : Bytes} (hb : Escaped b) (depth : Int) (rest : Bytes) :
    matchingScan openCh closeCh (b ++ 0x22 :: rest) depth true false =
      matchingScan openCh closeCh rest depth false false := by
  induction hb with
  | nil => simp [matchingScan]
  | plain hq hb _ ih => simpa [matchingScan, hq, hb] using ih
  | pair _ ih => simpa [matchingScan] using ih

theorem balanced_quoted (s : Text) : Balanced openCh closeCh (quoted s) := by
  intro depth hd rest
  have hscan := scan_escaped openCh closeCh (escaped_body s) depth rest
  simpa [quoted, matchingScan] using hscan

theorem Balanced.wrap (hbr : Bracket openCh closeCh) {b : Bytes} (hb : Balanced openCh closeCh b) :
    Balanced openCh closeCh (openCh :: b ++ [closeCh]) := by
  intro depth hd rest
  have hstep := hb (depth + 1) (by omega) (closeCh :: rest)
  have hne : depth ≠ 0 := by omega
  rcases hbr with ⟨rfl, rfl⟩ | ⟨rfl, rfl⟩ <;> simp [matchingScan, hstep, hne]

/-- From the opening bracket the search ends at its closing bracket. -/
theorem Balanced.matching (hbr : Bracket openCh closeCh) {b : Bytes} (hb : Balanced openCh closeCh b) (rest : Bytes) :
    jsonFindMatching (openCh :: b ++ [closeCh] ++ rest) openCh closeCh = some (closeCh :: rest) := by
  have hstep := hb 1 (by omega) (closeCh :: rest)
  rcases hbr with ⟨rfl, rfl⟩ | ⟨rfl, rfl⟩ <;> simp [jsonFindMatching, matchingScan, hstep]

/-- Brackets of the other kind are ordinary bytes. -/
theorem Balanced.enclose (hbr : Bracket openCh closeCh) {b : Bytes} (hb : Balanced openCh closeCh b) :
    Balanced openCh closeCh (0x5b :: b ++ [0x5d]) ∧ Balanced openCh closeCh (0x7b :: b ++ [0x7d]) := by
  have hother : ∀ x : Byte, x ≠ 0x22 → x ≠ openCh → x ≠ closeCh → Balanced openCh closeCh [x] := by
    intro x h1 h2 h3
    apply balanced_marks
    simp [h1, h2, h3]
  rcases hbr with ⟨rfl, rfl⟩ | ⟨rfl, rfl⟩
  · exact ⟨((hother 0x5b (by decide) (by decide) (by decide)).append hb).append
      (hother 0x5d (by decide) (by decide) (by decide)), hb.wrap (.inl ⟨rfl, rfl⟩)⟩
  · exact ⟨hb.wrap (.inr ⟨rfl, rfl⟩), ((hother 0x7b (by decide) (by decide) (by decide)).append hb).append
      (hother 0x7d (by decide) (by decide) (by decide))⟩

theorem bracket_mark (hbr : Bracket openCh closeCh) : (0x22 : Byte) ∈ markBytes ∧ openCh ∈ markBytes ∧ closeCh ∈ markBytes := by
  rcases hbr with ⟨rfl, rfl⟩ | ⟨rfl, rfl⟩ <;> decide +kernel

/-- What the search passes over inside brackets is a class of texts, whatever bracket it counts. -/
theorem textClass_balanced (hbr : Bracket openCh closeCh) : TextClass (Balanced openCh closeCh) where
  unmarked b hb := by
    obtain ⟨hquote, hopen, hclose⟩ := bracket_mark hbr
    apply balanced_marks
    intro x hx
    have hne : ∀ y ∈ markBytes, x ≠ y := fun y hy heq => hb x hx (heq ▸ hy)
    exact ⟨hne _ hquote, hne _ hopen, hne _ hclose⟩
  strings := balanced_quoted
  append := Balanced.append
  brackets hb := (hb.enclose hbr).1
  braces hb := (hb.enclose hbr).2

end Matching

/-! ### The end of a document -/

theorem documentEnd_arr (o : DumpOptions) (items : List Document) (rest : Bytes) :
    jsonFindMatching (dumpsDocument o (.arr items) ++ rest) 0x5b 0x5d = some (0x5d :: rest) := by
  have hbr : Bracket 0x5b 0x5d := .inr ⟨rfl, rfl⟩
  rw [dumpsDocument, dumpsAt_arr]
  exact Balanced.matching hbr ((textClass_balanced hbr).of_arr o items) rest

theorem documentEnd_obj (o : DumpOptions) (members : List (Text × Document)) (rest : Bytes) :
    jsonFindMatching (dumpsDocument o (.obj members) ++ rest) 0x7b 0x7d = some (0x7d :: rest) := by
  have hbr : Bracket 0x7b 0x7d := .inl ⟨rfl, rfl⟩
  rw [dumpsDocument, dumpsAt_obj]
  exact Balanced.matching hbr ((textClass_balanced hbr).of_obj o members) rest

theorem findMatching_obj (members : List (Text × Value)) (rest : Bytes) :
    jsonFindMatching (dumps (.obj members) ++ rest) 0x7b 0x7d = some (0x7d :: rest) := by
  rw [← dumpsAt_document 0]
  exact documentEnd_obj sorted (memberDocuments members) rest

theorem findMatching_arr (items : List Value) (rest : Bytes) :
    jsonFindMatching (dumps (.arr items) ++ rest) 0x5b 0x5d = some (0x5d :: rest) := by
  rw [← dumpsAt_document 0]
  exact documentEnd_arr sorted (documents items) rest

def lastOf (text suffix : Bytes) : Bytes := (text ++ suffix).drop (text.length - 1)

theorem lastOf_enclosed (openCh closeCh : Byte) (b suffix : Bytes) :
    lastOf (openCh :: b ++ [closeCh]) suffix = closeCh :: suffix := by
  have hlen : (openCh :: b ++ [closeCh]).length - 1 = (openCh :: b).length := by simp
  rw [lastOf, hlen, List.append_assoc, List.drop_left]
  rfl

/-- The search stops at the last byte of the document, and no byte of the document ends the
C string before. -/
theorem matching_ends_document (o : DumpOptions) (suffix : Bytes) :
    (∀ items, (0 : Byte) ∉ dumpsDocument o (.arr items) ∧
      jsonFindMatching (dumpsDocument o (.arr items) ++ suffix) 0x5b 0x5d =
        some (lastOf (dumpsDocument o (.arr items)) suffix)) ∧
    (∀ members, (0 : Byte) ∉ dumpsDocument o (.obj members) ∧
      jsonFindMatching (dumpsDocument o (.obj members) ++ suffix) 0x7b 0x7d =
        some (lastOf (dumpsDocument o (.obj members)) suffix)) := by
  constructor
  · intro items
    refine ⟨textClass_zero_notMem.of_dumpsAt o (.arr items) 0, ?_⟩
    rw [documentEnd_arr, dumpsDocument, dumpsAt_arr, lastOf_enclosed]
  · intro members
    refine ⟨textClass_zero_notMem.of_dumpsAt o (.obj members) 0, ?_⟩
    rw [documentEnd_obj, dumpsDocument, dumpsAt_obj, lastOf_enclosed]

end VirtiosoMux.Host
