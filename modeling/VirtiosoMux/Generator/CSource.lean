import VirtiosoMux.Library.CTables
import VirtiosoMux.Protocol.Codes
import VirtiosoMux.Generator.Identifiers

/-! # The generated C file

`_write_c` with its three tables, the wrappers of the demux sinks and the registry as a string
constant, and what a compiler reads in the file.
-/
namespace VirtiosoMux.Generator
open Json Words CLiteral CTables

/-! ### The lines of the file -/

def textBytes (t : Text) : Line := t.map UInt8.ofNat

def indent : Line := ascii "    "

def Stream.row (s : Stream) : List Field :=
  [.int s.streamId, .str s.component.bytes, .str s.componentType.bytes, .str (textBytes s.streamIdSource),
    .str (textBytes s.direction.text)]

def MuxSource.row (m : MuxSource) : List Field :=
  [.int m.streamId, .str m.component.bytes, .str m.muxComponent.bytes, .str m.muxInterface.bytes]

def DemuxSink.wrapper (d : DemuxSink) : Line := textBytes (demuxWrapper d)

def DemuxSink.interface (d : DemuxSink) : Line := textBytes (sanitizeCIdent d.demuxInterface.text)

def DemuxSink.row (d : DemuxSink) : List Field :=
  [.int d.streamId, .str d.component.bytes, .str d.demuxComponent.bytes, .str d.demuxInterface.bytes,
    .name (d.wrapper ++ ascii "_buf"), .name (d.wrapper ++ ascii "_emit")]

def badgeHead (wrapper : Line) : Line := ascii "static seL4_Word " ++ wrapper ++ ascii "_badge(void)"

def badgeReturn (interface : Line) (index : Int) : Line :=
  indent ++ ascii "return " ++ interface ++ ascii "_enumerate_badge(" ++ decimal index ++ ascii ");"

def wrapperLines (d : DemuxSink) : List Line :=
  [ascii "extern unsigned int " ++ d.interface ++ ascii "_num_badges(void);",
   ascii "extern seL4_Word " ++ d.interface ++ ascii "_enumerate_badge(unsigned int i);",
   ascii "extern void *" ++ d.interface ++ ascii "_buf(seL4_Word client_id);",
   ascii "extern void " ++ d.interface ++ ascii "_emit(unsigned int badge);",
   ascii "",
   badgeHead d.wrapper,
   ascii "\x7b",
   indent ++ ascii "if (" ++ d.interface ++ ascii "_num_badges() <= " ++ decimal d.demuxClientIndex ++ ascii ") \x7b",
   indent ++ ascii "    return (seL4_Word)-1;",
   indent ++ ascii "\x7d",
   badgeReturn d.interface d.demuxClientIndex,
   ascii "\x7d",
   ascii "",
   ascii "static void *" ++ d.wrapper ++ ascii "_buf(void)",
   ascii "\x7b",
   indent ++ ascii "seL4_Word badge = " ++ d.wrapper ++ ascii "_badge();",
   indent ++ ascii "if (badge == (seL4_Word)-1) \x7b",
   indent ++ ascii "    return 0;",
   indent ++ ascii "\x7d",
   indent ++ ascii "return " ++ d.interface ++ ascii "_buf(badge);",
   ascii "\x7d",
   ascii "",
   ascii "static void " ++ d.wrapper ++ ascii "_emit(void)",
   ascii "\x7b",
   indent ++ ascii "seL4_Word badge = " ++ d.wrapper ++ ascii "_badge();",
   indent ++ ascii "if (badge == (seL4_Word)-1) \x7b",
   indent ++ ascii "    return;",
   indent ++ ascii "\x7d",
   indent ++ d.interface ++ ascii "_emit((unsigned int)badge);",
   ascii "\x7d",
   ascii ""]

def streamsHead : Line := ascii "virtioso_camkes_stream_registry[] = \x7b"
def sourcesHead : Line := ascii "virtioso_camkes_mux_sources[] = \x7b"
def sinksHead : Line := ascii "virtioso_camkes_demux_sinks[] = \x7b"
def jsonHead : Line := ascii "const char virtioso_camkes_stream_registry_json[] ="

def streamsLead : List Line :=
  [ascii "/* Generated by generate_camkes_stream_registry.py. Do not edit. */",
   ascii "#include <sel4/sel4.h>",
   ascii "#include \"console_stream_ids.h\"",
   ascii "",
   ascii "const struct virtioso_camkes_stream_descriptor"]

def sourcesLead : List Line :=
  [ascii "",
   ascii "const size_t virtioso_camkes_stream_registry_count =",
   ascii "    sizeof(virtioso_camkes_stream_registry) /",
   ascii "    sizeof(virtioso_camkes_stream_registry[0]);",
   ascii "",
   ascii "const struct virtioso_camkes_mux_source"]

def sourcesTail : List Line :=
  [ascii "",
   ascii "const size_t virtioso_camkes_mux_source_count =",
   ascii "    sizeof(virtioso_camkes_mux_sources) /",
   ascii "    sizeof(virtioso_camkes_mux_sources[0]);",
   ascii ""]

def sinksLead : List Line := [ascii "const struct virtioso_camkes_demux_sink"]

def jsonLead : List Line :=
  [ascii "",
   ascii "const size_t virtioso_camkes_demux_sink_count =",
   ascii "    sizeof(virtioso_camkes_demux_sinks) /",
   ascii "    sizeof(virtioso_camkes_demux_sinks[0]);",
   ascii ""]

/-- `_json_escape_for_c` writes the registry as a JSON string. -/
def jsonLine (r : Registry) : Line := indent ++ quoted (r.text.map UInt8.toNat) ++ [0x3b]

/-- The lines of `_write_c`, called with the name of the header that `main` writes. -/
def writeC (r : Registry) : List Line :=
  streamsLead ++ streamsHead :: (r.streams.map (fun s => rowText indent s.row) ++ closeLine ::
    (sourcesLead ++ sourcesHead :: (r.muxSources.map (fun m => rowText indent m.row) ++ closeLine ::
      (sourcesTail ++ r.demuxSinks.flatMap wrapperLines ++ sinksLead ++
        sinksHead :: (r.demuxSinks.map (fun d => rowText indent d.row) ++ closeLine ::
          (jsonLead ++ jsonHead :: [jsonLine r, ascii ""]))))))

def cSource (r : Registry) : List UInt8 := [0x0a].intercalate (writeC r)

/-! ### What a compiler reads -/

structure CompiledRegistry where
  streams : List (List Field)
  muxSources : List (List Field)
  demuxSinks : List (List Field)
  json : List UInt8

def readRegistry (source : List UInt8) : Option CompiledRegistry :=
  let lines := source.splitOn 0x0a
  match rowsOf streamsHead lines, rowsOf sourcesHead lines, rowsOf sinksHead lines, stringOf jsonHead lines with
  | some streams, some muxSources, some demuxSinks, some json => some ⟨streams, muxSources, demuxSinks, json⟩
  | _, _, _, _ => none

def badgeCall (wrapper : Line) (source : List UInt8) : Option (Line × Int) :=
  match (behind (badgeHead wrapper) (source.splitOn 0x0a))[4]? with
  | none => none
  | some line =>
    let call := line.drop (indent ++ ascii "return ").length
    match Decimals.readInt ((call.dropWhile isWordByte).drop 1) with
    | none => none
    | some (index, _) => some (call.takeWhile isWordByte, index)

/-! ### Identifiers -/

theorem mem_collapse {sep c : Nat} {t : Text} (h : c ∈ collapse sep t) : c ∈ t := by
  induction t with
  | nil => exact h
  | cons d rest ih =>
    rw [collapse] at h
    split at h
    · exact List.mem_cons_of_mem d (ih h)
    · rcases List.mem_cons.mp h with rfl | h
      · exact List.mem_cons_self
      · exact List.mem_cons_of_mem d (ih h)

theorem strip_sublist (sep : Nat) (t : Text) : (strip sep t).Sublist t :=
  ((List.rdropWhile_prefix _ _).sublist).trans (List.dropWhile_sublist _)

/-- Whatever the name, a sanitized one is an identifier. -/
theorem sanitize_isIdent {default_ : Text} (hdefault : isIdent default_ = true) (name : Text) :
    isIdent (sanitize default_ name) = true := by
  have hrest : ∀ c ∈ name.map (fun c => if isIdentRest c then c else underscore), isIdentRest c = true := by
    intro c hc
    obtain ⟨x, -, rfl⟩ := List.mem_map.mp hc
    split
    · assumption
    · rfl
  have hstrip : ∀ c ∈ strip underscore (collapse underscore (name.map fun c => if isIdentRest c then c else underscore)),
      isIdentRest c = true := fun c hc => hrest c (mem_collapse ((strip_sublist _ _).mem hc))
  have hguard : ∀ t : Text, t ≠ [] → (∀ c ∈ t, isIdentRest c = true) → isIdent (guardDigit t) = true := by
    intro t hne hall
    obtain ⟨c, rest, rfl⟩ := List.exists_cons_of_ne_nil hne
    unfold guardDigit
    split
    · simp only [isIdent, Bool.and_eq_true, List.all_eq_true]
      exact ⟨rfl, hall⟩
    · rename_i hdigit
      have hc := hall c List.mem_cons_self
      have hstart : isIdentStart c = true := by
        simp only [isIdentRest, Bool.or_eq_true] at hc
        refine hc.resolve_right fun hd => hdigit ?_
        simpa [isDigit] using hd
      simp only [isIdent, Bool.and_eq_true, List.all_eq_true]
      exact ⟨hstart, fun x hx => hall x (List.mem_cons_of_mem c hx)⟩
  change isIdent (guardDigit (if strip underscore (collapse underscore _) = [] then default_ else strip underscore
    (collapse underscore _))) = true
  split
  · refine hguard default_ ?_ (Ident.mk default_ hdefault).chars
    rintro rfl
    cases hdefault
  · rename_i hne
    exact hguard _ hne hstrip

theorem sanitizeCIdent_isIdent (name : Text) : isIdent (sanitizeCIdent name) = true := sanitize_isIdent (by decide) name

theorem demuxWrapper_isIdent (d : DemuxSink) : isIdent (demuxWrapper d) = true := sanitizeCIdent_isIdent _

theorem wordByte_ident {c : Nat} (hc : isIdentRest c = true) : isWordByte (UInt8.ofNat c) = true := by
  have hnat : (UInt8.ofNat c).toNat = c := UInt8.toNat_ofNat_of_lt' (ident_char hc).2
  simp only [isIdentRest, isIdentStart, Bool.or_eq_true, Bool.and_eq_true, decide_eq_true_eq, beq_iff_eq] at hc
  simp only [isWordByte, isLetter, Decimals.isDigit, Bool.or_eq_true, Bool.and_eq_true, decide_eq_true_eq,
    UInt8.le_iff_toNat_le, ← UInt8.toNat_inj, hnat, UInt8.reduceToNat]
  omega

theorem letter_ident {c : Nat} (hc : isIdentStart c = true) : isLetter (UInt8.ofNat c) = true := by
  have hnat : (UInt8.ofNat c).toNat = c := UInt8.toNat_ofNat_of_lt' (ident_char (by simp [isIdentRest, hc])).2
  simp only [isIdentStart, Bool.or_eq_true, Bool.and_eq_true, decide_eq_true_eq, beq_iff_eq] at hc
  simp only [isLetter, Bool.or_eq_true, Bool.and_eq_true, decide_eq_true_eq, UInt8.le_iff_toNat_le, ← UInt8.toNat_inj, hnat,
    UInt8.reduceToNat]
  omega

theorem printable_ident {c : Nat} (hc : isIdentRest c = true) : Printable (UInt8.ofNat c) := by
  obtain ⟨⟨hlow, hhigh, -⟩, hlt⟩ := ident_char hc
  rw [Printable, UInt8.toNat_ofNat_of_lt' hlt]
  exact ⟨hlow, hhigh⟩

/-- An identifier is a name in C. -/
theorem isIdent_name {t : Text} (h : isIdent t = true) (suffix : Line) (hsuffix : suffix.all isWordByte = true) :
    (Field.name (textBytes t ++ suffix)).Valid := by
  have hchars := (Ident.mk t h).chars
  obtain ⟨c, rest, rfl⟩ : ∃ c rest, t = c :: rest := by
    apply List.exists_cons_of_ne_nil
    rintro rfl
    cases h
  have hstart : isIdentStart c = true := by
    simp only [isIdent, Bool.and_eq_true] at h
    exact h.1
  refine ⟨⟨UInt8.ofNat c, rfl, letter_ident hstart⟩, ?_⟩
  intro b hb
  rcases List.mem_append.mp hb with hb | hb
  · obtain ⟨x, hx, rfl⟩ := List.mem_map.mp hb
    exact wordByte_ident (hchars x hx)
  · exact List.all_eq_true.mp hsuffix b hb

theorem ident_str (i : Ident) : (Field.str i.bytes).Valid := by
  intro b hb
  obtain ⟨c, hc, rfl⟩ := List.mem_map.mp hb
  obtain ⟨hquote, hback⟩ := plain_byte (i.plain c hc)
  refine ⟨hquote, hback, fun hline => ?_⟩
  exact absurd (hline ▸ printable_ident (i.chars c hc)) (by decide)

/-! ### No line holds a line end -/

def Clean (line : Line) : Prop := ∀ b ∈ line, Printable b

instance (line : Line) : Decidable (Clean line) :=
  decidable_of_iff (line.all fun b => decide (Printable b)) (by simp [Clean])

theorem clean_append {xs ys : Line} : Clean (xs ++ ys) ↔ Clean xs ∧ Clean ys := List.forall_mem_append

theorem clean_ident {t : Text} (h : isIdent t = true) : Clean (textBytes t) := by
  intro b hb
  obtain ⟨c, hc, rfl⟩ := List.mem_map.mp hb
  exact printable_ident ((Ident.mk t h).chars c hc)

theorem clean_quotes {s : Line} (h : Clean s) : Clean (Field.str s).text :=
  printable_cons (by decide) (printable_append h (printable_singleton (by decide)))

theorem clean_row {fields : List Field} (h : ∀ f ∈ fields, Clean f.text) : Clean (rowText indent fields) := by
  have htexts : ∀ part ∈ fields.map Field.text, ∀ b ∈ part, Printable b := List.forall_mem_map.mpr h
  have hends : Clean [0x7d, 0x2c] := by decide
  exact printable_append (show Clean indent by decide)
    (printable_cons (by decide) (printable_append (printable_commaJoin htexts) hends))

theorem clean_wrapper (d : DemuxSink) : Clean d.wrapper := clean_ident (demuxWrapper_isIdent d)

theorem clean_interface (d : DemuxSink) : Clean d.interface := clean_ident (sanitizeCIdent_isIdent _)

theorem clean_wrapperLines (d : DemuxSink) : ∀ line ∈ wrapperLines d, Clean line := by
  have hindex : Clean (decimal d.demuxClientIndex) := printable_decimal _
  simp only [wrapperLines, badgeHead, badgeReturn, List.forall_mem_cons, List.not_mem_nil, IsEmpty.forall_iff, implies_true,
    clean_append, clean_wrapper, clean_interface, hindex, and_true]
  decide +kernel

/-! ### The rows -/

/-- A field that can be read back and does not leave its line. -/
def Sound (f : Field) : Prop := f.Valid ∧ Clean f.text

theorem sound_int (n : Int) : Sound (.int n) := ⟨trivial, printable_decimal n⟩

theorem sound_ident (i : Ident) : Sound (.str i.bytes) := ⟨ident_str i, clean_quotes (clean_ident i.valid)⟩

theorem sound_wrapper (d : DemuxSink) {suffix : Line} (hsuffix : suffix.all isWordByte = true) (hclean : Clean suffix) :
    Sound (.name (d.wrapper ++ suffix)) :=
  ⟨isIdent_name (demuxWrapper_isIdent d) suffix hsuffix, clean_append.mpr ⟨clean_wrapper d, hclean⟩⟩

theorem sound_direction (d : Direction) : Sound (.str (textBytes d.text)) := by
  have hall : ∀ s ∈ [textBytes (codes "bidirectional"), textBytes (codes "output"), textBytes (codes "input"),
      textBytes (codes "none")], (s.all fun b => b != 0x22 && b != 0x5c && b != 0x0a) = true ∧ Clean s := by decide
  have hmem : textBytes d.text ∈ [textBytes (codes "bidirectional"), textBytes (codes "output"), textBytes (codes "input"),
      textBytes (codes "none")] := by
    cases d <;> simp [Direction.text]
  obtain ⟨hvalid, hclean⟩ := hall _ hmem
  refine ⟨?_, clean_quotes hclean⟩
  simpa [Field.Valid, and_assoc] using hvalid

theorem assigned_source {a : Assembly} {next : Nat} {instances : List Instance} {s : Stream}
    (h : s ∈ assignedFrom a next instances) :
    s.streamIdSource = codes "component.common.c" ∨ s.streamIdSource = codes "none" := by
  induction instances generalizing next with
  | nil => cases h
  | cons i rest ih =>
    rw [assignedFrom] at h
    split at h
    · rcases List.mem_cons.mp h with rfl | h
      · exact .inl rfl
      · exact ih h
    · rcases List.mem_cons.mp h with rfl | h
      · exact .inr rfl
      · exact ih h

theorem sound_source {a : Assembly} {next : Nat} {instances : List Instance} {s : Stream}
    (h : s ∈ assignedFrom a next instances) : Sound (.str (textBytes s.streamIdSource)) := by
  have hall : ∀ t ∈ [codes "component.common.c", codes "none"],
      ((textBytes t).all fun b => b != 0x22 && b != 0x5c && b != 0x0a) = true ∧ Clean (textBytes t) := by decide
  obtain ⟨hvalid, hclean⟩ := hall s.streamIdSource (by
    rcases assigned_source h with heq | heq
    · rw [heq]
      exact List.mem_cons_self
    · rw [heq]
      exact List.mem_cons_of_mem _ List.mem_cons_self)
  refine ⟨?_, clean_quotes hclean⟩
  simpa [Field.Valid, and_assoc] using hvalid

theorem sources_row_sound (m : MuxSource) : m.row ≠ [] ∧ ∀ f ∈ m.row, Sound f := by
  refine ⟨List.cons_ne_nil _ _, ?_⟩
  simp only [MuxSource.row, List.forall_mem_cons, sound_int, sound_ident, List.not_mem_nil, IsEmpty.forall_iff,
    implies_true, and_self]

theorem sinks_row_sound (d : DemuxSink) : d.row ≠ [] ∧ ∀ f ∈ d.row, Sound f := by
  have hbuf : Sound (.name (d.wrapper ++ ascii "_buf")) := sound_wrapper d (by decide) (by decide)
  have hemit : Sound (.name (d.wrapper ++ ascii "_emit")) := sound_wrapper d (by decide) (by decide)
  refine ⟨List.cons_ne_nil _ _, ?_⟩
  simp only [DemuxSink.row, List.forall_mem_cons, sound_int, sound_ident, hbuf, hemit, List.not_mem_nil, IsEmpty.forall_iff,
    implies_true, and_self]

theorem streams_row_sound {a : Assembly} {streams : List Stream} (h : componentInstances a = .ok streams) :
    ∀ s ∈ streams, s.row ≠ [] ∧ ∀ f ∈ s.row, Sound f := by
  intro s hs
  rw [(componentInstances_streams h).1] at hs
  refine ⟨List.cons_ne_nil _ _, ?_⟩
  simp only [Stream.row, List.forall_mem_cons, sound_int, sound_ident, sound_source hs, sound_direction, List.not_mem_nil,
    IsEmpty.forall_iff, implies_true, and_self]

/-! ### The tables in the file -/

/-- A row begins with a blank, which no line does that opens a table. -/
theorem notMem_rows {α : Type*} (head : Line) (hhead : head.head? ≠ some 0x20) (items : List α) (row : α → List Field) :
    head ∉ items.map fun x => rowText indent (row x) := by
  intro h
  obtain ⟨x, -, rfl⟩ := List.mem_map.mp h
  exact hhead rfl

/-- A line that does not begin with the letter of a table or of a constant. -/
def Inner (line : Line) : Prop := line.head? ∉ [some 0x76, some 0x63]

instance (line : Line) : Decidable (Inner line) := inferInstanceAs (Decidable (_ ∉ _))

theorem inner_lead {lead : Line} (h : lead ≠ [] ∧ Inner lead) (rest : Line) : Inner (lead ++ rest) := by
  obtain ⟨b, more, rfl⟩ := List.exists_cons_of_ne_nil h.1
  exact h.2

theorem wrapperLines_inner (d : DemuxSink) : ∀ line ∈ wrapperLines d, Inner line := by
  simp only [wrapperLines, badgeHead, badgeReturn, List.append_assoc, List.forall_mem_cons, List.not_mem_nil,
    IsEmpty.forall_iff, implies_true, and_true]
  -- a line is fixed or begins with a fixed part
  and_intros
  all_goals first
    | exact inner_lead (by decide) _
    | decide

theorem notMem_wrapperLines (head : Line) (hhead : head.head? ∈ [some 0x76, some 0x63]) (sinks : List DemuxSink) :
    head ∉ sinks.flatMap wrapperLines := by
  intro h
  obtain ⟨d, -, hline⟩ := List.mem_flatMap.mp h
  exact wrapperLines_inner d head hline hhead

def sourcesBefore (r : Registry) : List Line :=
  streamsLead ++ streamsHead :: (r.streams.map (fun s => rowText indent s.row) ++ closeLine :: sourcesLead)

def wrappersBefore (r : Registry) : List Line :=
  sourcesBefore r ++ sourcesHead :: (r.muxSources.map (fun m => rowText indent m.row) ++ closeLine :: sourcesTail)

def sinksBefore (r : Registry) : List Line := wrappersBefore r ++ r.demuxSinks.flatMap wrapperLines ++ sinksLead

def jsonBefore (r : Registry) : List Line :=
  sinksBefore r ++ sinksHead :: (r.demuxSinks.map (fun d => rowText indent d.row) ++ closeLine :: jsonLead)

theorem sourcesHead_notMem (r : Registry) : sourcesHead ∉ sourcesBefore r := by
  have hrows := notMem_rows sourcesHead (by decide) r.streams Stream.row
  simp only [sourcesBefore, List.mem_append, List.mem_cons, hrows, false_or]
  decide +kernel

theorem sinksHead_notMem (r : Registry) : sinksHead ∉ sinksBefore r := by
  have hrows := notMem_rows sinksHead (by decide) r.streams Stream.row
  have hrows' := notMem_rows sinksHead (by decide) r.muxSources MuxSource.row
  have hlines := notMem_wrapperLines sinksHead (by decide) r.demuxSinks
  simp only [sinksBefore, wrappersBefore, sourcesBefore, List.mem_append, List.mem_cons, hrows, hrows', hlines, false_or,
    or_false]
  decide +kernel

theorem jsonHead_notMem (r : Registry) : jsonHead ∉ jsonBefore r := by
  have hrows := notMem_rows jsonHead (by decide) r.streams Stream.row
  have hrows' := notMem_rows jsonHead (by decide) r.muxSources MuxSource.row
  have hrows'' := notMem_rows jsonHead (by decide) r.demuxSinks DemuxSink.row
  have hlines := notMem_wrapperLines jsonHead (by decide) r.demuxSinks
  simp only [jsonBefore, sinksBefore, wrappersBefore, sourcesBefore, List.mem_append, List.mem_cons, hrows, hrows', hrows'',
    hlines, false_or, or_false]
  decide +kernel

theorem writeC_clean {a : Assembly} {r : Registry} (h : componentInstances a = .ok r.streams) : ∀ line ∈ writeC r, Clean line := by
  have hfixed : (∀ line ∈ streamsLead, Clean line) ∧ (∀ line ∈ sourcesLead, Clean line) ∧ (∀ line ∈ sourcesTail, Clean line) ∧
      (∀ line ∈ sinksLead, Clean line) ∧ (∀ line ∈ jsonLead, Clean line) ∧ Clean streamsHead ∧ Clean sourcesHead ∧
      Clean sinksHead ∧ Clean jsonHead ∧ Clean closeLine ∧ Clean (ascii "") := by decide +kernel
  obtain ⟨h₁, h₂, h₃, h₄, h₅, h₆, h₇, h₈, h₉, h₁₀, h₁₁⟩ := hfixed
  have hstreams : ∀ s ∈ r.streams, Clean (rowText indent s.row) :=
    fun s hs => clean_row fun f hf => ((streams_row_sound h s hs).2 f hf).2
  have hsources : ∀ m ∈ r.muxSources, Clean (rowText indent m.row) :=
    fun m _ => clean_row fun f hf => ((sources_row_sound m).2 f hf).2
  have hsinks : ∀ d ∈ r.demuxSinks, Clean (rowText indent d.row) :=
    fun d _ => clean_row fun f hf => ((sinks_row_sound d).2 f hf).2
  have hlines : ∀ line ∈ r.demuxSinks.flatMap wrapperLines, Clean line := by
    intro line hline
    obtain ⟨d, -, hd⟩ := List.mem_flatMap.mp hline
    exact clean_wrapperLines d line hd
  have hjson : Clean (jsonLine r) := by
    have hliteral : Clean (quoted (r.text.map UInt8.toNat)) := printable_quoted _
    exact clean_append.mpr ⟨clean_append.mpr ⟨by decide, hliteral⟩, by decide⟩
  simp only [writeC, List.forall_mem_append, List.forall_mem_cons, List.forall_mem_map, List.not_mem_nil, IsEmpty.forall_iff,
    implies_true, and_true]
  exact ⟨h₁, h₆, hstreams, h₁₀, h₂, h₇, hsources, h₁₀, ⟨⟨h₃, hlines⟩, h₄⟩, h₈, hsinks, h₁₀, h₅, h₉, hjson, h₁₁⟩

/-- The file is split into the lines again. -/
theorem splitOn_cSource {a : Assembly} {r : Registry} (h : componentInstances a = .ok r.streams) :
    (cSource r).splitOn 0x0a = writeC r := by
  refine List.splitOn_intercalate 0x0a ?_ (by simp [writeC])
  intro line hline hmem
  exact absurd (writeC_clean h line hline 0x0a hmem) (by decide)

theorem readRegistry_cSource {a : Assembly} {r : Registry} (h : componentInstances a = .ok r.streams) :
    readRegistry (cSource r) = some ⟨r.streams.map Stream.row, r.muxSources.map MuxSource.row,
      r.demuxSinks.map DemuxSink.row, r.text⟩ := by
  have hindent : ∀ b ∈ indent, b = 0x20 := fun b hb => List.eq_of_mem_replicate (show b ∈ List.replicate 4 0x20 from hb)
  have hne : indent ≠ [] := by decide
  have hvalid : ∀ {fields : List Field}, (fields ≠ [] ∧ ∀ f ∈ fields, Sound f) → fields ≠ [] ∧ ∀ f ∈ fields, f.Valid :=
    fun hf => ⟨hf.1, fun f hmem => (hf.2 f hmem).1⟩
  have hstreams : rowsOf streamsHead (writeC r) = some (r.streams.map Stream.row) := by
    have hread := rowsOf_append streamsHead (show streamsHead ∉ streamsLead by decide) hindent hne
      (r.streams.map Stream.row) (List.forall_mem_map.mpr fun s hs => hvalid (streams_row_sound h s hs))
    rw [List.map_map] at hread
    exact hread _
  have hsources : rowsOf sourcesHead (writeC r) = some (r.muxSources.map MuxSource.row) := by
    have hread := rowsOf_append sourcesHead (sourcesHead_notMem r) hindent hne
      (r.muxSources.map MuxSource.row) (List.forall_mem_map.mpr fun m _ => hvalid (sources_row_sound m))
      (sourcesTail ++ r.demuxSinks.flatMap wrapperLines ++ sinksLead ++
        sinksHead :: (r.demuxSinks.map (fun d => rowText indent d.row) ++ closeLine ::
          (jsonLead ++ jsonHead :: [jsonLine r, ascii ""])))
    rw [List.map_map] at hread
    rw [← hread]
    simp [writeC, sourcesBefore, Function.comp_def]
  have hsinks : rowsOf sinksHead (writeC r) = some (r.demuxSinks.map DemuxSink.row) := by
    have hread := rowsOf_append sinksHead (sinksHead_notMem r) hindent hne
      (r.demuxSinks.map DemuxSink.row) (List.forall_mem_map.mpr fun d _ => hvalid (sinks_row_sound d))
      (jsonLead ++ jsonHead :: [jsonLine r, ascii ""])
    rw [List.map_map] at hread
    rw [← hread]
    simp [writeC, sinksBefore, wrappersBefore, sourcesBefore, Function.comp_def]
  have hjson : stringOf jsonHead (writeC r) = some r.text := by
    have hread := stringOf_append jsonHead (jsonHead_notMem r) hindent r.text (printable_dumps _) [ascii ""]
    rw [← hread]
    simp [writeC, jsonBefore, sinksBefore, wrappersBefore, sourcesBefore, jsonLine]
  simp only [readRegistry, splitOn_cSource h, hstreams, hsources, hsinks, hjson]

/-! ### The badges of the sinks -/

def DemuxSink.endpoint (d : DemuxSink) : Ident × Ident := (d.demuxComponent, d.demuxInterface)

/-- The client indices of an endpoint are 0, 1, 2, and so on, in the order of its sinks. -/
def Numbered (sinks : List DemuxSink) : Prop := ∀ key : Ident × Ident,
  (sinks.filter fun d => decide (d.endpoint = key)).map DemuxSink.demuxClientIndex =
    List.range (sinks.countP fun d => decide (d.endpoint = key))

structure Counted (s : Sinks) : Prop where
  count : ∀ key, s.sinksByEndpoint key = s.sinks.countP fun d => decide (d.endpoint = key)
  numbered : Numbered s.sinks

theorem demuxSink_counted {streams : List Stream} {s s' : Sinks} {c : Connection} (hs : Counted s)
    (h : demuxSink streams s c = .ok s') : Counted s' := by
  unfold demuxSink at h
  split at h
  · cases h
  · cases h
    -- the new sink is of the endpoint of the connection
    constructor
    · intro key
      rw [List.countP_append, List.countP_singleton, ← hs.count]
      by_cases hkey : (c.toComponent, c.toInterface) = key
      · subst hkey
        simp [DemuxSink.endpoint]
      · simp [Function.update_of_ne (Ne.symm hkey), DemuxSink.endpoint, -Prod.mk.injEq, hkey]
    · intro key
      rw [List.filter_append, List.map_append, hs.numbered, List.countP_append, List.countP_singleton, List.filter_singleton,
        ← hs.count]
      by_cases hkey : (c.toComponent, c.toInterface) = key
      · subst hkey
        simp [DemuxSink.endpoint, List.range_succ]
      · simp [DemuxSink.endpoint, -Prod.mk.injEq, hkey]

theorem demuxSinks_numbered {a : Assembly} {streams : List Stream} {sinks : List DemuxSink}
    (h : demuxSinks a streams = .ok sinks) : Numbered sinks := by
  have hrun : ∀ (cs : List Connection) (s s' : Sinks), Counted s → cs.foldlM (demuxSink streams) s = .ok s' → Counted s' := by
    intro cs
    induction cs with
    | nil =>
      intro s s' hs h
      cases h
      exact hs
    | cons c cs ih =>
      intro s s' hs h
      rw [List.foldlM_cons] at h
      cases hc : demuxSink streams s c with
      | error e =>
        rw [hc] at h
        cases h
      | ok s₁ =>
        rw [hc] at h
        exact ih s₁ s' (demuxSink_counted hs hc) h
  unfold demuxSinks at h
  split at h
  · cases h
  · rename_i s hs
    cases h
    exact (hrun _ _ _ ⟨fun _ => rfl, fun _ => rfl⟩ hs).numbered

def NotBadge (line : Line) : Prop := line.take 9 ≠ ascii "static se"

instance (line : Line) : Decidable (NotBadge line) := inferInstanceAs (Decidable (_ ≠ _))

theorem notBadge_lead {lead : Line} (h : lead.take 9 ≠ (ascii "static se").take lead.length) (rest : Line) :
    NotBadge (lead ++ rest) := by
  intro heq
  apply h
  rw [← heq, List.take_take, Nat.min_comm, ← List.take_take, List.take_left]

theorem badgeHead_take (w : Line) : (badgeHead w).take 9 = ascii "static se" := rfl

/-- The functions of a sink around the first line of the one for its badge. -/
theorem wrapperLines_badge (d : DemuxSink) :
    wrapperLines d = (wrapperLines d).take 5 ++ badgeHead d.wrapper :: (wrapperLines d).drop 6 ∧
    (∀ line ∈ (wrapperLines d).take 5, NotBadge line) ∧ ∀ line ∈ (wrapperLines d).drop 6, NotBadge line := by
  refine ⟨rfl, ?_, ?_⟩
  · simp only [wrapperLines, List.take_succ_cons, List.take_zero, List.append_assoc, List.forall_mem_cons, List.not_mem_nil,
      IsEmpty.forall_iff, implies_true, and_true]
    and_intros
    all_goals first
      | exact notBadge_lead (by decide) _
      | decide
  · simp only [wrapperLines, badgeReturn, List.drop_succ_cons, List.drop_zero, List.append_assoc, List.forall_mem_cons,
      List.not_mem_nil, IsEmpty.forall_iff, implies_true, and_true]
    and_intros
    all_goals first
      | exact notBadge_lead (by decide) _
      | decide

/-- Only the functions of a sink with this wrapper have its badge. -/
theorem badgeHead_mem {w : Line} {d : DemuxSink} (h : badgeHead w ∈ wrapperLines d) : d.wrapper = w := by
  obtain ⟨hlines, hlead, htail⟩ := wrapperLines_badge d
  rw [hlines] at h
  rcases List.mem_append.mp h with h | h
  · exact absurd (badgeHead_take w) (hlead _ h)
  · rcases List.mem_cons.mp h with h | h
    · simpa [badgeHead] using h.symm
    · exact absurd (badgeHead_take w) (htail _ h)

theorem notBadge_row (fields : List Field) : NotBadge (rowText indent fields) := notBadge_lead (by decide) _

theorem badgeHead_notMem (r : Registry) (w : Line) : badgeHead w ∉ wrappersBefore r := by
  have hfixed : (∀ line ∈ streamsLead, NotBadge line) ∧ (∀ line ∈ sourcesLead, NotBadge line) ∧
      (∀ line ∈ sourcesTail, NotBadge line) ∧ NotBadge streamsHead ∧ NotBadge sourcesHead ∧ NotBadge closeLine := by decide +kernel
  obtain ⟨h₁, h₂, h₃, h₄, h₅, h₆⟩ := hfixed
  have hall : ∀ line ∈ wrappersBefore r, NotBadge line := by
    simp only [wrappersBefore, sourcesBefore, List.forall_mem_append, List.forall_mem_cons, List.forall_mem_map]
    exact ⟨⟨h₁, h₄, fun s _ => notBadge_row s.row, h₆, h₂⟩, h₅, fun m _ => notBadge_row m.row, h₆, h₃⟩
  exact fun hmem => hall _ hmem (badgeHead_take w)

theorem textBytes_inj {t u : Text} (ht : isIdent t = true) (hu : isIdent u = true) (h : textBytes t = textBytes u) : t = u :=
  congrArg Ident.text (Ident.bytes_inj (i := ⟨t, ht⟩) (j := ⟨u, hu⟩) h)

theorem wrapper_inj {d d' : DemuxSink} (h : d.wrapper = d'.wrapper) : demuxWrapper d = demuxWrapper d' :=
  textBytes_inj (demuxWrapper_isIdent d) (demuxWrapper_isIdent d') h

theorem badgeCall_cSource {a : Assembly} {r : Registry} (h : componentInstances a = .ok r.streams)
    (hnodup : (r.demuxSinks.map demuxWrapper).Nodup) {d : DemuxSink} (hd : d ∈ r.demuxSinks) :
    badgeCall d.wrapper (cSource r) = some (d.interface ++ ascii "_enumerate_badge", (d.demuxClientIndex : Int)) := by
  obtain ⟨front, back, hsinks⟩ := List.append_of_mem hd
  obtain ⟨hlines, hlead, -⟩ := wrapperLines_badge d
  have hfront : badgeHead d.wrapper ∉ front.flatMap wrapperLines := by
    intro hmem
    obtain ⟨d', hd', hline⟩ := List.mem_flatMap.mp hmem
    rw [hsinks, List.map_append, List.map_cons, List.nodup_middle, List.nodup_cons] at hnodup
    apply hnodup.1
    rw [← wrapper_inj (badgeHead_mem hline)]
    exact List.mem_append_left _ (List.mem_map_of_mem hd')
  have hbefore : badgeHead d.wrapper ∉ wrappersBefore r ++ front.flatMap wrapperLines ++ (wrapperLines d).take 5 := by
    simp only [List.mem_append, not_or]
    exact ⟨⟨badgeHead_notMem r _, hfront⟩, fun hmem => hlead _ hmem (badgeHead_take _)⟩
  obtain ⟨after, hafter⟩ : ∃ after, writeC r = wrappersBefore r ++ front.flatMap wrapperLines ++ (wrapperLines d).take 5 ++
      badgeHead d.wrapper :: ((wrapperLines d).drop 6 ++ after) := by
    refine ⟨back.flatMap wrapperLines ++ sinksLead ++ sinksHead :: (r.demuxSinks.map (fun d => rowText indent d.row) ++
      closeLine :: (jsonLead ++ jsonHead :: [jsonLine r, ascii ""])), ?_⟩
    have hflat : r.demuxSinks.flatMap wrapperLines = front.flatMap wrapperLines ++ (wrapperLines d).take 5 ++
        badgeHead d.wrapper :: ((wrapperLines d).drop 6 ++ back.flatMap wrapperLines) := by
      rw [hsinks, List.flatMap_append, List.flatMap_cons, hlines]
      simp [wrapperLines]
    rw [writeC, hflat]
    simp [wrappersBefore, sourcesBefore]
  have hline : (behind (badgeHead d.wrapper) ((cSource r).splitOn 0x0a))[4]? =
      some (badgeReturn d.interface d.demuxClientIndex) := by
    rw [splitOn_cSource h, hafter, behind_append _ hbefore]
    rfl
  have hname : ∀ b ∈ d.interface ++ ascii "_enumerate_badge", isWordByte b = true :=
    (isIdent_name (sanitizeCIdent_isIdent _) (ascii "_enumerate_badge") (by decide)).2
  have hcall : (badgeReturn d.interface d.demuxClientIndex).drop (indent ++ ascii "return ").length =
      (d.interface ++ ascii "_enumerate_badge") ++ 0x28 :: (decimal d.demuxClientIndex ++ ascii ");") := by
    have hsplit : badgeReturn d.interface d.demuxClientIndex = (indent ++ ascii "return ") ++
        ((d.interface ++ ascii "_enumerate_badge") ++ 0x28 :: (decimal d.demuxClientIndex ++ ascii ");")) := by
      simp [badgeReturn, ascii]
    rw [hsplit, List.drop_left]
  have hends : Decimals.EndsNumber (ascii ");") := by
    intro b hb
    cases hb
    decide
  have htake : ∀ rest : Line, (d.interface ++ ascii "_enumerate_badge" ++ rest).takeWhile isWordByte =
      d.interface ++ ascii "_enumerate_badge" ++ rest.takeWhile isWordByte :=
    fun rest => List.takeWhile_append_of_pos hname
  have hdrop : ∀ rest : Line, (d.interface ++ ascii "_enumerate_badge" ++ rest).dropWhile isWordByte =
      rest.dropWhile isWordByte :=
    fun rest => List.dropWhile_append_of_pos hname
  have hparen : isWordByte 0x28 = false := by decide
  simp only [badgeCall, hline, hcall, htake, hdrop, List.takeWhile_cons, List.dropWhile_cons, hparen, Bool.false_eq_true,
    if_false, List.drop_succ_cons, List.drop_zero, Decimals.readInt_decimal _ hends, List.append_nil]

/-- The C file generated for an accepted composition is read as the registry: the rows of its tables,
and the registry itself in the string constant. The sinks of an endpoint are numbered in their
order, and if the wrappers have different names, that of a sink asks for the badge of its number. -/
theorem generated_source_read_back {a : Assembly} {name source : Text} {r : Registry} (h : generate a name source = .ok r) :
    readRegistry (cSource r) = some ⟨r.streams.map Stream.row, r.muxSources.map MuxSource.row,
      r.demuxSinks.map DemuxSink.row, r.text⟩ ∧
    Numbered r.demuxSinks ∧
    ((r.demuxSinks.map demuxWrapper).Nodup → ∀ d ∈ r.demuxSinks,
      badgeCall d.wrapper (cSource r) = some (d.interface ++ ascii "_enumerate_badge", (d.demuxClientIndex : Int))) := by
  obtain ⟨hstreams, -, hsinks, -, -⟩ := generate_ok h
  exact ⟨readRegistry_cSource hstreams, demuxSinks_numbered hsinks, fun hnodup d hd => badgeCall_cSource hstreams hnodup hd⟩

def sharedDemuxer : Assembly :=
  { twoDemuxers abDemux cDemux bGetchar lowerVm secondVm with
    connections := [⟨lowerVm, inputName, abDemux, bGetchar⟩, ⟨secondVm, inputName, abDemux, bGetchar⟩] }

theorem generated_source_read_back_sharedDemuxer : ∃ r compiled, generate sharedDemuxer [] [] = .ok r ∧
    readRegistry (cSource r) = some compiled ∧ compiled.demuxSinks.length = 2 ∧ compiled.json = r.text ∧
    r.demuxSinks.map (fun d => badgeCall d.wrapper (cSource r)) =
      [some (ascii "b_getchar_enumerate_badge", 0), some (ascii "b_getchar_enumerate_badge", 1)] := by
  obtain ⟨r, hr, hsinks⟩ : ∃ r, generate sharedDemuxer [] [] = .ok r ∧
      r.demuxSinks = [⟨abDemux, bGetchar, 0, lowerVm, 1⟩, ⟨abDemux, bGetchar, 1, secondVm, 2⟩] := by
    rw [generate, componentInstances_ok (by decide) (by decide) (by decide)]
    exact ⟨_, rfl, rfl⟩
  obtain ⟨hread, -, hbadges⟩ := generated_source_read_back hr
  have hnodup : (r.demuxSinks.map demuxWrapper).Nodup := (wrappers_nodup_iff hr).mpr (by decide)
  have hcalls := List.map_congr_left (hbadges hnodup)
  refine ⟨r, _, hr, hread, by simp [hsinks], rfl, hcalls.trans ?_⟩
  rw [hsinks]
  decide

end VirtiosoMux.Generator
