import Mathlib
import VirtiosoMux.Library.Words
import VirtiosoMux.Generator.Assignment

/-! # Generated C identifiers

The header has one macro for each stream and the C file one wrapper for each demux sink.
Their names are put together from CAmkES names with every run of underscores collapsed and
the outer ones stripped, so of a name only its words are left, and of a macro's not even
the case of its letters.
-/
namespace VirtiosoMux.Generator
open Json Words

abbrev underscore : Nat := 0x5f

def isDigit (c : Nat) : Bool := 0x30 ≤ c && c ≤ 0x39

/-- `str.upper` on the characters that the substitution leaves. -/
def upper (c : Nat) : Nat := if 0x61 ≤ c ∧ c ≤ 0x7a then c - 0x20 else c

/-- What the two sanitizers share; they differ in the name for nothing and in the case. -/
def sanitize (default_ name : Text) : Text :=
  let token := name.map (fun c => if isIdentRest c then c else underscore)
  let token := strip underscore (collapse underscore token)
  let token := if token = [] then default_ else token
  if token.head?.any isDigit then underscore :: token else token

def sanitizeMacro (name : Text) : Text := (sanitize (codes "STREAM") name).map upper

def sanitizeCIdent (name : Text) : Text := sanitize (codes "stream") name

def streamMacro (s : Stream) : Text := codes "VIRTIO_CAMKES_STREAM_" ++ sanitizeMacro s.component.text

def streamMacros (r : Registry) : List (Text × Int) := r.streams.map fun s => (streamMacro s, s.streamId)

def demuxWrapper (d : DemuxSink) : Text :=
  sanitizeCIdent (codes "virtioso_demux_" ++ d.demuxComponent.text ++ codes "_" ++ d.demuxInterface.text ++
    codes "_" ++ d.component.text)

/-- No two streams share a macro, so each macro has the value of its stream, and no two sinks
share a wrapper. -/
structure NamesDistinct (r : Registry) : Prop where
  macros : (r.streams.map streamMacro).Nodup
  denotes : ∀ s ∈ r.streams, (streamMacros r).lookup (streamMacro s) = some s.streamId
  wrappers : (r.demuxSinks.map demuxWrapper).Nodup

/-! ### The words of a name -/

/-- The words of a macro: without case, and `STREAM` for a name without words. -/
def macroWords (name : Text) : List Text :=
  if words underscore name = [] then [codes "STREAM"] else (words underscore name).map (List.map upper)

def sinkWords (names : Ident × Ident × Ident) : List Text :=
  words underscore names.1.text ++ words underscore names.2.1.text ++ words underscore names.2.2.text

def guardDigit (token : Text) : Text := if token.head?.any isDigit then underscore :: token else token

theorem guardDigit_inj {t u : Text} (ht : t.head? ≠ some underscore) (hu : u.head? ≠ some underscore) :
    guardDigit t = guardDigit u ↔ t = u := by
  constructor
  · intro h
    unfold guardDigit at h
    split at h
    · split at h
      · exact List.tail_eq_of_cons_eq h
      · exact absurd (by rw [← h]; rfl) hu
    · split at h
      · exact absurd (by rw [h]; rfl) ht
      · exact h
  · rintro rfl
    rfl

/-- On characters of identifiers nothing is substituted, and the words are left. -/
theorem sanitize_eq {default_ name : Text} (hchars : ∀ c ∈ name, isIdentRest c = true) :
    sanitize default_ name = guardDigit
      (if words underscore name = [] then default_ else join underscore (words underscore name)) := by
  have hsub : name.map (fun c => if isIdentRest c then c else underscore) = name := by
    refine (List.map_congr_left ?_).trans (List.map_id _)
    intro c hc
    rw [if_pos (hchars c hc)]
    rfl
  have hnil : join underscore (words underscore name) = [] ↔ words underscore name = [] := by
    constructor
    · intro h
      have hword : ∀ w ∈ words underscore name, IsWord underscore w := fun w hw => isWord_of_mem_words hw
      rw [← words_join hword, h, words_nil]
    · intro h
      rw [h]
      rfl
  simp only [sanitize, hsub, strip_collapse, hnil]
  rfl

/-! ### Equal identifiers -/

theorem join_inj {ws vs : List Text} (hws : ∀ w ∈ ws, IsWord underscore w) (hvs : ∀ v ∈ vs, IsWord underscore v) :
    join underscore ws = join underscore vs ↔ ws = vs := by
  constructor
  · intro h
    rw [← words_join hws, h, words_join hvs]
  · rintro rfl
    rfl

theorem upper_eq_underscore {c : Nat} : upper c = underscore ↔ c = underscore := by
  unfold upper underscore
  split <;> omega

theorem isDigit_upper (c : Nat) : isDigit (upper c) = isDigit c := by
  unfold upper
  split
  · simp only [isDigit, Bool.and_eq_decide, decide_eq_true_eq, decide_eq_decide]
    omega
  · rfl

theorem isWord_upper {w : Text} (hw : IsWord underscore w) : IsWord underscore (w.map upper) := by
  refine ⟨by simpa using hw.1, ?_⟩
  intro hmem
  obtain ⟨c, hc, heq⟩ := List.mem_map.mp hmem
  exact hw.2 (upper_eq_underscore.mp heq ▸ hc)

theorem guardDigit_upper (t : Text) : (guardDigit t).map upper = guardDigit (t.map upper) := by
  cases t with
  | nil => rfl
  | cons c rest =>
    cases hdigit : isDigit c with
    | true => simp [guardDigit, isDigit_upper, hdigit, upper_eq_underscore.mpr]
    | false => simp [guardDigit, isDigit_upper, hdigit]

theorem join_upper (ws : List Text) : (join underscore ws).map upper = join underscore (ws.map (List.map upper)) := by
  induction ws with
  | nil => rfl
  | cons w rest ih =>
    cases rest with
    | nil => simp [join]
    | cons v rest =>
      simp only [join, List.map_cons, List.intercalate_cons_cons] at ih ⊢
      simp [ih, upper_eq_underscore.mpr]

theorem macroWords_isWord {name : Text} : ∀ w ∈ macroWords name, IsWord underscore w := by
  intro w hw
  unfold macroWords at hw
  split at hw
  · rw [List.mem_singleton.mp hw]
    exact ⟨by decide, by decide⟩
  · obtain ⟨v, hv, rfl⟩ := List.mem_map.mp hw
    exact isWord_upper (isWord_of_mem_words hv)

theorem sanitizeMacro_eq {name : Text} (hchars : ∀ c ∈ name, isIdentRest c = true) :
    sanitizeMacro name = guardDigit (join underscore (macroWords name)) := by
  rw [sanitizeMacro, sanitize_eq hchars, guardDigit_upper, macroWords]
  split
  · rfl
  · rw [join_upper]

theorem sanitizeMacro_inj {t u : Text} (ht : ∀ c ∈ t, isIdentRest c = true) (hu : ∀ c ∈ u, isIdentRest c = true) :
    sanitizeMacro t = sanitizeMacro u ↔ macroWords t = macroWords u := by
  rw [sanitizeMacro_eq ht, sanitizeMacro_eq hu,
    guardDigit_inj (join_ends macroWords_isWord).1 (join_ends macroWords_isWord).1,
    join_inj macroWords_isWord macroWords_isWord]

theorem streamMacro_inj (s s' : Stream) :
    streamMacro s = streamMacro s' ↔ macroWords s.component.text = macroWords s'.component.text := by
  rw [streamMacro, streamMacro, List.append_cancel_left_eq, sanitizeMacro_inj s.component.chars s'.component.chars]

/-! ### The wrappers -/

theorem wrapper_text_chars (d : DemuxSink) : ∀ c ∈ codes "virtioso_demux_" ++ d.demuxComponent.text ++ codes "_" ++
    d.demuxInterface.text ++ codes "_" ++ d.component.text, isIdentRest c = true := by
  have hlead : ∀ c ∈ codes "virtioso_demux_", isIdentRest c = true := by decide
  have hsep : ∀ c ∈ codes "_", isIdentRest c = true := by decide
  intro c hc
  simp only [List.mem_append] at hc
  rcases hc with ((((hc | hc) | hc) | hc) | hc) | hc
  · exact hlead c hc
  · exact d.demuxComponent.chars c hc
  · exact hsep c hc
  · exact d.demuxInterface.chars c hc
  · exact hsep c hc
  · exact d.component.chars c hc

theorem wrapper_text_words (d : DemuxSink) : words underscore (codes "virtioso_demux_" ++ d.demuxComponent.text ++
    codes "_" ++ d.demuxInterface.text ++ codes "_" ++ d.component.text) =
      codes "virtioso" :: codes "demux" :: sinkWords d.names := by
  have hone : words underscore (codes "virtioso") = [codes "virtioso"] := words_of_isWord ⟨by decide, by decide⟩
  have htwo : words underscore (codes "demux") = [codes "demux"] := words_of_isWord ⟨by decide, by decide⟩
  have htext : codes "virtioso_demux_" ++ d.demuxComponent.text ++ codes "_" ++ d.demuxInterface.text ++ codes "_" ++
      d.component.text = codes "virtioso" ++ underscore :: (codes "demux" ++ underscore :: (d.demuxComponent.text ++
        underscore :: (d.demuxInterface.text ++ underscore :: d.component.text))) := by
    have hlead : codes "virtioso_demux_" = codes "virtioso" ++ underscore :: (codes "demux" ++ [underscore]) := rfl
    have hsep : codes "_" = [underscore] := rfl
    rw [hlead, hsep]
    simp only [List.append_assoc, List.cons_append, List.nil_append]
  rw [htext, words_append_cons, words_append_cons, words_append_cons, words_append_cons, hone, htwo]
  simp [sinkWords, DemuxSink.names]

theorem demuxWrapper_eq (d : DemuxSink) : demuxWrapper d =
    guardDigit (join underscore (codes "virtioso" :: codes "demux" :: sinkWords d.names)) := by
  rw [demuxWrapper, sanitizeCIdent, sanitize_eq (wrapper_text_chars d), wrapper_text_words, if_neg (List.cons_ne_nil _ _)]

theorem wrapper_isWord (d : DemuxSink) :
    ∀ w ∈ codes "virtioso" :: codes "demux" :: sinkWords d.names, IsWord underscore w := by
  rw [← wrapper_text_words]
  exact fun w hw => isWord_of_mem_words hw

theorem demuxWrapper_inj (d d' : DemuxSink) : demuxWrapper d = demuxWrapper d' ↔ sinkWords d.names = sinkWords d'.names := by
  rw [demuxWrapper_eq, demuxWrapper_eq,
    guardDigit_inj (join_ends (wrapper_isWord d)).1 (join_ends (wrapper_isWord d')).1,
    join_inj (wrapper_isWord d) (wrapper_isWord d'), List.cons_inj_right, List.cons_inj_right]

/-! ### Accepted registries -/

theorem nodup_map_congr {α β γ : Type*} {l : List α} {f : α → β} {g : α → γ} (h : ∀ x y, f x = f y ↔ g x = g y) :
    (l.map f).Nodup ↔ (l.map g).Nodup := by
  simp only [List.Nodup, List.pairwise_map]
  apply List.Pairwise.iff
  intro x y
  exact not_congr (h x y)

theorem lookup_of_nodup {α β γ : Type*} [BEq β] [LawfulBEq β] {l : List α} {f : α → β} {g : α → γ}
    (h : (l.map f).Nodup)
    {x : α} (hx : x ∈ l) : (l.map fun y => (f y, g y)).lookup (f x) = some (g x) := by
  induction l with
  | nil => cases hx
  | cons y rest ih =>
    obtain ⟨hnew, hrest⟩ := List.nodup_cons.mp h
    rcases List.mem_cons.mp hx with rfl | hx
    · simp
    · have hne : f x ≠ f y := fun heq => hnew (heq ▸ List.mem_map_of_mem hx)
      rw [List.map_cons, List.lookup_cons, beq_false_of_ne hne]
      exact ih hrest hx

/-- The component names and the sinks of a registry are those of the composition. -/
theorem generated_names {a : Assembly} {name source : Text} {r : Registry} (h : generate a name source = .ok r) :
    r.streams.map Stream.component = a.instances.map Instance.componentName ∧
    r.demuxSinks.map DemuxSink.names = (a.connections.filter fromDemux).map Connection.names := by
  obtain ⟨hstreams, -, hsinks, -, -⟩ := generate_ok h
  constructor
  · rw [(componentInstances_streams hstreams).1]
    exact assignedFrom_component a 1 a.instances
  · exact demuxSinks_names hsinks

theorem macros_nodup_iff {a : Assembly} {name source : Text} {r : Registry} (h : generate a name source = .ok r) :
    (r.streams.map streamMacro).Nodup ↔ (a.instances.map fun i => macroWords i.componentName.text).Nodup := by
  have hwords : (a.instances.map fun i => macroWords i.componentName.text) =
      r.streams.map fun s => macroWords s.component.text := by
    have hmap := congrArg (List.map fun i : Ident => macroWords i.text) (generated_names h).1
    simpa only [List.map_map, Function.comp_def] using hmap.symm
  rw [hwords]
  exact nodup_map_congr streamMacro_inj

theorem wrappers_nodup_iff {a : Assembly} {name source : Text} {r : Registry} (h : generate a name source = .ok r) :
    (r.demuxSinks.map demuxWrapper).Nodup ↔ ((a.connections.filter fromDemux).map fun c => sinkWords c.names).Nodup := by
  have hwords : ((a.connections.filter fromDemux).map fun c => sinkWords c.names) =
      r.demuxSinks.map fun d => sinkWords d.names := by
    have hmap := congrArg (List.map sinkWords) (generated_names h).2
    simpa only [List.map_map, Function.comp_def] using hmap.symm
  rw [hwords]
  exact nodup_map_congr demuxWrapper_inj

/-- The identifiers of a registry are distinct if and only if no two instances have the same
words up to case and no two connections from a demuxer the same sequence of words. -/
theorem generated_identifiers_distinct_iff {a : Assembly} {name source : Text} {r : Registry}
    (h : generate a name source = .ok r) :
    NamesDistinct r ↔
      (a.instances.map fun i => macroWords i.componentName.text).Nodup ∧
      ((a.connections.filter fromDemux).map fun c => sinkWords c.names).Nodup := by
  rw [← macros_nodup_iff h, ← wrappers_nodup_iff h]
  constructor
  · intro hd
    exact ⟨hd.macros, hd.wrappers⟩
  · rintro ⟨hm, hw⟩
    exact ⟨hm, fun s hs => lookup_of_nodup hm hs, hw⟩

def inputName : Ident := ⟨codes "input", by decide⟩

def twoDemuxers (first second interface guest other : Ident) : Assembly where
  componentTypes t := if t.text = codes "Reader" then some [⟨.getChar, inputName⟩] else none
  instances := [⟨⟨codes "Demux", by decide⟩, first⟩, ⟨⟨codes "Demux", by decide⟩, second⟩,
    ⟨⟨codes "Reader", by decide⟩, guest⟩, ⟨⟨codes "Reader", by decide⟩, other⟩]
  connections := [⟨guest, inputName, first, ⟨codes "getchar", by decide⟩⟩, ⟨guest, inputName, second, interface⟩]

def abDemux : Ident := ⟨codes "a_b", by decide⟩
def aDemux : Ident := ⟨codes "a", by decide⟩
def cDemux : Ident := ⟨codes "c", by decide⟩
def bGetchar : Ident := ⟨codes "b_getchar", by decide⟩
def lowerVm : Ident := ⟨codes "vm", by decide⟩
def upperVm : Ident := ⟨codes "VM", by decide⟩
def secondVm : Ident := ⟨codes "vm_2", by decide⟩

theorem generated_identifiers_apart :
    ∃ r, generate (twoDemuxers abDemux cDemux bGetchar lowerVm secondVm) [] [] = .ok r ∧ NamesDistinct r := by
  have haccepted : ∃ r, generate (twoDemuxers abDemux cDemux bGetchar lowerVm secondVm) [] [] = .ok r := by
    rw [generate, componentInstances_ok (by decide) (by decide) (by decide)]
    exact ⟨_, rfl⟩
  obtain ⟨r, hr⟩ := haccepted
  exact ⟨r, hr, (generated_identifiers_distinct_iff hr).mpr ⟨by decide, by decide⟩⟩

/-- `vm` and `VM` share a macro, and `a_b` with `getchar` shares a wrapper with `a` and `b_getchar`. -/
theorem generated_identifiers_collide : ∃ r, generate (twoDemuxers abDemux aDemux bGetchar lowerVm upperVm) [] [] = .ok r ∧
    ¬ (r.streams.map streamMacro).Nodup ∧ ¬ (r.demuxSinks.map demuxWrapper).Nodup ∧ ¬ NamesDistinct r := by
  have haccepted : ∃ r, generate (twoDemuxers abDemux aDemux bGetchar lowerVm upperVm) [] [] = .ok r := by
    rw [generate, componentInstances_ok (by decide) (by decide) (by decide)]
    exact ⟨_, rfl⟩
  obtain ⟨r, hr⟩ := haccepted
  have hmacros : ¬ (r.streams.map streamMacro).Nodup := by
    rw [macros_nodup_iff hr]
    decide
  have hwrappers : ¬ (r.demuxSinks.map demuxWrapper).Nodup := by
    rw [wrappers_nodup_iff hr]
    decide
  exact ⟨r, hr, hmacros, hwrappers, fun hd => hmacros hd.macros⟩

end VirtiosoMux.Generator
