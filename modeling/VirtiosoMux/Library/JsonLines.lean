import VirtiosoMux.Library.CLiteral
import VirtiosoMux.Library.JsonRoundTrip

/-! # Logs of JSON lines

A log with one document on each line, and its reader. Only complete lines are read.
-/
namespace VirtiosoMux.Json
open CLiteral

/-- `json.dumps` without options. -/
def compact : DumpOptions := ⟨none, false⟩

def jsonLine (d : Document) : List UInt8 := dumpsDocument compact d ++ [0x0a]

def completeLines (log : List UInt8) : List (List UInt8) := (log.splitOn 0x0a).dropLast

def readLines (F : FloatReader) (log : List UInt8) : List (Option Document) :=
  (completeLines log).map (fun line => loads F (ofBytes line))

theorem completeLines_eq {lines : List (List UInt8)} (hlines : ∀ line ∈ lines, (0x0a : UInt8) ∉ line) {last : List UInt8}
    (hlast : (0x0a : UInt8) ∉ last) : completeLines (lines.flatMap (· ++ [0x0a]) ++ last) = lines := by
  have hjoin : lines.flatMap (· ++ [0x0a]) ++ last = [(0x0a : UInt8)].intercalate (lines ++ [last]) := by
    clear hlines
    induction lines with
    | nil => simp
    | cons line lines ih =>
      have hne : lines ++ [last] ≠ [] := by simp
      obtain ⟨next, more, hmore⟩ := List.exists_cons_of_ne_nil hne
      rw [List.flatMap_cons, List.append_assoc, ih, List.cons_append, hmore, List.intercalate_cons_cons]
  have hall : ∀ line ∈ lines ++ [last], (0x0a : UInt8) ∉ line := by
    intro line hline
    rcases List.mem_append.mp hline with hline | hline
    · exact hlines line hline
    · exact List.mem_singleton.mp hline ▸ hlast
  rw [completeLines, hjoin, List.splitOn_intercalate 0x0a hall (by simp), List.dropLast_concat]

theorem printable_float (x : FloatText) : ∀ b ∈ x.text, Printable b := by
  have hall : floatLetters.all (fun b => decide (Printable b)) = true := by decide +kernel
  exact fun b hb => of_decide_eq_true (List.all_eq_true.mp hall b (x.letters b hb))

theorem printable_enclose (level : Nat) {openCh closeCh : UInt8} (hopen : Printable openCh) (hclose : Printable closeCh)
    {texts : List (List UInt8)} (h : ∀ text ∈ texts, ∀ b ∈ text, Printable b) :
    ∀ b ∈ enclose compact level openCh closeCh texts, Printable b := by
  unfold enclose
  split
  · exact printable_cons hopen (printable_singleton hclose)
  · have hjoin : ∀ b ∈ joinWith (compact.itemSeparator (level + 1)) texts, Printable b := by
      have heq := joinWith_eq texts
      rw [show compact.itemSeparator (level + 1) = [0x2c, 0x20] from rfl, heq]
      exact printable_commaJoin h
    exact printable_cons hopen (printable_append (printable_append (printable_append nofun hjoin) nofun)
      (printable_singleton hclose))

/-- Without indentation a document is printable, so it has one line. -/
theorem printable_dumpsAt (d : Document) : ∀ level, ∀ b ∈ dumpsAt compact level d, Printable b := by
  have hliteral : ∀ {s : String}, ((codes s).map UInt8.ofNat).all (fun b => decide (Printable b)) = true →
      ∀ b ∈ (codes s).map UInt8.ofNat, Printable b :=
    fun h b hb => of_decide_eq_true (List.all_eq_true.mp h b hb)
  induction d using Document.ind with
  | null => exact fun _ => hliteral (by decide +kernel)
  | bool b =>
    cases b with
    | false => exact fun _ => hliteral (by decide +kernel)
    | true => exact fun _ => hliteral (by decide +kernel)
  | int n => exact fun _ => printable_decimal n
  | float x => exact fun _ => printable_float x
  | str s => exact fun _ => printable_quoted s
  | arr items ih =>
    intro level
    rw [dumpsAt, dumpsItemsAt_eq]
    refine printable_enclose level (by decide) (by decide) ?_
    intro text htext
    obtain ⟨d, hd, rfl⟩ := List.mem_map.mp htext
    exact ih d hd (level + 1)
  | obj members ih =>
    intro level
    rw [dumpsAt, dumpsMembersAt_eq]
    refine printable_enclose level (by decide) (by decide) ?_
    intro text htext
    obtain ⟨e, he, rfl⟩ := List.mem_map.mp htext
    obtain ⟨m, hm, rfl⟩ := List.mem_map.mp (mem_order.mp he)
    have hkey := printable_append (printable_quoted m.1)
      (printable_cons (x := 0x3a) (by decide) (printable_singleton (x := 0x20) (by decide)))
    exact printable_append hkey (ih m hm (level + 1))

/-- A log is read as it was written, and what stands behind its last newline is not read. -/
theorem readLines_jsonLines {F : FloatReader} {docs : List Document} (h : ∀ d ∈ docs, d.Decoded F) {last : List UInt8}
    (hlast : (0x0a : UInt8) ∉ last) : readLines F (docs.flatMap jsonLine ++ last) = docs.map some := by
  have hflat : docs.flatMap jsonLine = (docs.map (dumpsDocument compact)).flatMap (· ++ [0x0a]) := by
    rw [List.flatMap_map]
    rfl
  have hlines : ∀ line ∈ docs.map (dumpsDocument compact), (0x0a : UInt8) ∉ line := by
    intro line hline hmem
    obtain ⟨d, -, rfl⟩ := List.mem_map.mp hline
    exact absurd (printable_dumpsAt d 0 _ hmem) (by decide)
  rw [readLines, hflat, completeLines_eq hlines hlast, List.map_map]
  refine List.map_congr_left ?_
  intro d hd
  have hread := loads_dumpsDocument compact (h d hd) rfl (b := []) nofun
  rw [List.append_nil] at hread
  exact hread

end VirtiosoMux.Json
