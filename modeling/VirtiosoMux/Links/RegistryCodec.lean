import VirtiosoMux.Host.Registry
import VirtiosoMux.Host.JsonBrackets
import VirtiosoMux.Host.JsonSearch
import VirtiosoMux.Generator.Assignment

/-! # The registry between build tool and host

The host reads the generator's JSON with its text search. It takes a string for a key where
the string is written like one, which the names of the assembly decide.
-/
namespace VirtiosoMux.RegistryCodec
open Json Host Generator

/-! ### Names that read as keys -/

theorem readsAs_ident {k : Text} (i : Ident) : ReadsAs k i.text ↔ i.text = k := by
  refine ⟨?_, .inl⟩
  rintro (h | h)
  · exact h
  · have hmem : 0x22 ∈ i.text := h.subset List.mem_cons_self
    exact absurd rfl (i.plain _ hmem).2.2.1

theorem key_streams : ascii "\"streams\"" = quoted (codes "streams") := by decide
theorem key_component : ascii "\"component\"" = quoted (codes "component") := by decide
theorem key_streamId : ascii "\"stream_id\"" = quoted (codes "stream_id") := by decide
theorem key_direction : ascii "\"direction\"" = quoted (codes "direction") := by decide

/-! ### One stream object -/

/-- A name before the identifier reads as its key. -/
def Caught (s : Stream) : Prop :=
  s.component.text = codes "stream_id" ∨ ∃ i ∈ s.interfaces, i.name.text = codes "stream_id"

instance (s : Stream) : Decidable (Caught s) := inferInstanceAs (Decidable (_ ∨ _))

def readInput (s : Stream) : Bool :=
  decide (s.component.text ≠ codes "direction") && (decide (s.direction = .input) || decide (s.direction = .bidirectional))

def readStream (r : RegistryScan) (s : Stream) : Option RegistryScan :=
  if Caught s then none
  else
    match appendVirtiosoStream r s.streamId s.component.bytes with
    | none => none
    | some r' =>
      if r.count < r'.count then some { r' with inputEnabled := Function.update r'.inputEnabled r.count (readInput s) }
      else some r'

/-- The members in the order of their keys. -/
theorem stream_sorted (s : Stream) : sortKeys s.members =
    [(codes "aliases", .arr []), (codes "component", .str s.component.text),
     (codes "direction", .str s.direction.text), (codes "interfaces", .arr (s.interfaces.map Interface.value)),
     (codes "stream_id", .int s.streamId), (codes "stream_id_source", .str s.streamIdSource),
     (codes "type", .str s.componentType.text)] := rfl

theorem direction_readsAs {k : Text} (hk : k = codes "stream_id" ∨ k = codes "direction") (d : Direction) :
    ¬ ReadsAs k d.text := by
  rcases hk with rfl | rfl <;> cases d <;> decide

theorem interface_hasString (i : Interface) :
    i.value.HasString (ReadsAs (codes "stream_id")) ↔ i.name.text = codes "stream_id" := by
  have hkind : ∀ c : ConsoleKind, ¬ ReadsAs (codes "stream_id") c.text := by
    intro c
    cases c <;> decide
  simp [Interface.value, hkind, readsAs_ident]

theorem interface_hasKey (i : Interface) : ¬ i.value.HasKey (ReadsAs (codes "stream_id")) := by
  have hkind : ¬ ReadsAs (codes "stream_id") (codes "kind") := by decide
  have hname : ¬ ReadsAs (codes "stream_id") (codes "name") := by decide
  simp [Interface.value, hkind, hname]

section Object
variable (s : Stream) (rest : Bytes)

def leading : List (Text × Value) :=
  [(codes "aliases", .arr []), (codes "component", .str s.component.text),
   (codes "direction", .str s.direction.text), (codes "interfaces", .arr (s.interfaces.map Interface.value))]

theorem leading_sorted : ∃ back, sortKeys s.members = leading s ++ (codes "stream_id", Value.int s.streamId) :: back := by
  rw [stream_sorted]
  exact ⟨_, rfl⟩

theorem leading_otherKeys : OtherKeys (codes "stream_id") (leading s) := by
  intro m hm
  simp only [leading, List.mem_cons, List.not_mem_nil, or_false] at hm
  rcases hm with rfl | rfl | rfl | rfl
  · exact ⟨show ¬ ReadsAs (codes "stream_id") (codes "aliases") by decide, by simp⟩
  · exact ⟨show ¬ ReadsAs (codes "stream_id") (codes "component") by decide, by simp⟩
  · exact ⟨show ¬ ReadsAs (codes "stream_id") (codes "direction") by decide, by simp⟩
  · refine ⟨show ¬ ReadsAs (codes "stream_id") (codes "interfaces") by decide, ?_⟩
    simp only [hasKey_arr, List.mem_map, not_exists, not_and]
    rintro v ⟨i, -, rfl⟩
    exact interface_hasKey i

theorem leading_caught : (∃ m ∈ leading s, m.2.HasString (ReadsAs (codes "stream_id"))) ↔ Caught s := by
  have hdir := direction_readsAs (.inl rfl) s.direction
  simp only [leading, List.mem_cons, List.not_mem_nil, or_false, exists_eq_or_imp, exists_eq_left, hasString_arr,
    hasString_str, readsAs_ident, hdir, false_and, exists_false, false_or, List.mem_map, Caught]
  refine or_congr Iff.rfl ?_
  constructor
  · rintro ⟨v, ⟨i, hi, rfl⟩, h⟩
    exact ⟨i, hi, (interface_hasString i).mp h⟩
  · rintro ⟨i, hi, h⟩
    exact ⟨_, ⟨i, hi, rfl⟩, (interface_hasString i).mpr h⟩

/-- A text that the search finds lies before the end of the object. -/
theorem findKeyBefore_of_strstr {start pos key : Bytes} (h : strstr key start = some pos)
    (hlen : rest.length + 1 < pos.length) : jsonFindKeyBefore start (0x7d :: rest) key = some pos := by
  have hnot : ¬ AtOrAfter pos (0x7d :: rest) := by
    simp only [AtOrAfter, List.length_cons]
    omega
  simp [jsonFindKeyBefore, h, hnot]

/-- The position of a member, as the object reader gets it. -/
theorem member_position {members front back : List (Text × Value)} {k : Text} {v : Value} (hk : KeyWord k)
    (hsort : sortKeys members = front ++ (k, v) :: back) (hfront : OtherKeys k front)
    (hno : ∀ m ∈ front, ¬ m.2.HasString (ReadsAs k)) :
    ∃ e tail, Ends e ∧ jsonFindKeyBefore (dumps (.obj members) ++ rest) (0x7d :: rest) (quoted k) =
      some (quoted k ++ 0x3a :: 0x20 :: (dumps v ++ e :: tail)) := by
  obtain ⟨e, tail, he, htail⟩ := membersTail_ends (memberTexts back) rest
  refine ⟨e, tail, he, findKeyBefore_of_strstr rest ?_ ?_⟩
  · rw [strstr_member hk hsort hfront hno, htail]
  · have hlen := membersTail_length (memberTexts back) rest
    rw [htail] at hlen
    simp only [List.length_append, List.length_cons] at hlen ⊢
    omega

/-- If a name was taken for the key, the position is not followed by a colon. -/
theorem member_position_caught {members front back : List (Text × Value)} {k : Text} {v : Value} (hk : KeyWord k)
    (hsort : sortKeys members = front ++ (k, v) :: back) (hfront : OtherKeys k front)
    (hcaught : ∃ m ∈ front, m.2.HasString (ReadsAs k)) :
    ∃ pos, jsonFindKeyBefore (dumps (.obj members) ++ rest) (0x7d :: rest) (quoted k) = some pos ∧
      afterKeyColon pos (quoted k) = none := by
  obtain ⟨e, rest', he, hlen, hfind⟩ := strstr_member_caught hk hsort hfront hcaught rest
  refine ⟨_, findKeyBefore_of_strstr rest hfind ?_, afterKeyColon_caught he (strstr_found hk (.inl he) rest')⟩
  simp only [List.length_append, List.length_cons]
  omega

theorem component_read {dup : Nat → Bool} (hdup : ∀ n, dup n = true) :
    ∃ pos, jsonFindKeyBefore (dumps (.obj s.members) ++ rest) (0x7d :: rest) (quoted (codes "component")) = some pos ∧
      jsonStringValueAfter dup pos (quoted (codes "component")) = some s.component.bytes := by
  obtain ⟨back, hsort⟩ : ∃ back, sortKeys s.members =
      [(codes "aliases", Value.arr [])] ++ (codes "component", Value.str s.component.text) :: back := by
    rw [stream_sorted]
    exact ⟨_, rfl⟩
  obtain ⟨e, tail, -, hfind⟩ := member_position rest (by decide) hsort
    (fun m hm => by cases List.mem_singleton.mp hm; exact ⟨by decide, by simp⟩)
    (fun m hm => by cases List.mem_singleton.mp hm; simp)
  exact ⟨_, hfind, jsonStringValueAfter_key (by decide) hdup s.component.plain _⟩

theorem streamId_read (hcaught : ¬ Caught s) (hrange : -1 ≤ s.streamId ∧ s.streamId ≤ 0xff) :
    ∃ pos, jsonFindKeyBefore (dumps (.obj s.members) ++ rest) (0x7d :: rest) (quoted (codes "stream_id")) = some pos ∧
      jsonIntValueAfter pos (quoted (codes "stream_id")) = some s.streamId := by
  obtain ⟨back, hsort⟩ := leading_sorted s
  obtain ⟨e, tail, he, hfind⟩ := member_position rest (by decide) hsort (leading_otherKeys s)
    (fun m hm h => hcaught ((leading_caught s).mp ⟨m, hm, h⟩))
  refine ⟨_, hfind, ?_⟩
  have hvalue : ¬ (s.streamId < -1 ∨ s.streamId > 0xff) := by omega
  have hkey : KeyWord (codes "stream_id") := by decide
  simp only [jsonIntValueAfter, afterKeyColon_key (strstr_found hkey (.inr rfl) _), dumps,
    strtol_decimal s.streamId he tail, if_neg hvalue]

theorem streamId_caught (hcaught : Caught s) :
    ∃ pos, jsonFindKeyBefore (dumps (.obj s.members) ++ rest) (0x7d :: rest) (quoted (codes "stream_id")) = some pos ∧
      jsonIntValueAfter pos (quoted (codes "stream_id")) = none := by
  obtain ⟨back, hsort⟩ := leading_sorted s
  obtain ⟨pos, hfind, hcolon⟩ := member_position_caught rest (by decide) hsort (leading_otherKeys s)
    ((leading_caught s).mpr hcaught)
  exact ⟨pos, hfind, by simp [jsonIntValueAfter, hcolon]⟩

/-- The direction as the host reads it: not at all for a component with that name. -/
theorem direction_read {dup : Nat → Bool} (hdup : ∀ n, dup n = true) :
    ∃ pos, jsonFindKeyBefore (dumps (.obj s.members) ++ rest) (0x7d :: rest) (quoted (codes "direction")) = some pos ∧
      jsonStringValueAfter dup pos (quoted (codes "direction")) =
        if s.component.text = codes "direction" then none else some (s.direction.text.map UInt8.ofNat) := by
  obtain ⟨back, hsort⟩ : ∃ back, sortKeys s.members =
      [(codes "aliases", Value.arr []), (codes "component", Value.str s.component.text)] ++
        (codes "direction", Value.str s.direction.text) :: back := by
    rw [stream_sorted]
    exact ⟨_, rfl⟩
  have hother : OtherKeys (codes "direction")
      [(codes "aliases", .arr []), (codes "component", .str s.component.text)] := by
    intro m hm
    simp only [List.mem_cons, List.not_mem_nil, or_false] at hm
    rcases hm with rfl | rfl
    · exact ⟨show ¬ ReadsAs (codes "direction") (codes "aliases") by decide, by simp⟩
    · exact ⟨show ¬ ReadsAs (codes "direction") (codes "component") by decide, by simp⟩
  by_cases hname : s.component.text = codes "direction"
  · rw [if_pos hname]
    obtain ⟨pos, hfind, hcolon⟩ := member_position_caught rest (by decide) hsort hother
      ⟨(codes "component", .str s.component.text), by simp, by simpa using (readsAs_ident s.component).mpr hname⟩
    exact ⟨pos, hfind, by simp [jsonStringValueAfter, hcolon]⟩
  · rw [if_neg hname]
    obtain ⟨e, tail, -, hfind⟩ := member_position rest (by decide) hsort hother (by
      intro m hm
      simp only [List.mem_cons, List.not_mem_nil, or_false] at hm
      rcases hm with rfl | rfl
      · simp
      · simpa [readsAs_ident] using hname)
    have hplain : ∀ c ∈ s.direction.text, Plain c := by
      cases s.direction <;> decide
    exact ⟨_, hfind, jsonStringValueAfter_key (by decide) hdup hplain _⟩

/-- The object of a stream, as the host reads it. -/
theorem registryObject_stream {dup : Nat → Bool} (hdup : ∀ n, dup n = true)
    (hrange : -1 ≤ s.streamId ∧ s.streamId ≤ 0xff) (r : RegistryScan) :
    registryObject dup r (dumps (.obj s.members) ++ rest) (0x7d :: rest) = readStream r s := by
  obtain ⟨componentPos, hcomponent, hname⟩ := component_read s rest hdup
  obtain ⟨directionPos, hdirection, hdir⟩ := direction_read s rest hdup
  rw [registryObject, key_component, key_streamId, key_direction]
  by_cases hcaught : Caught s
  · obtain ⟨pos, hfind, hint⟩ := streamId_caught s rest hcaught
    simp only [hcomponent, hfind, hint, readStream, if_pos hcaught]
  · obtain ⟨pos, hfind, hint⟩ := streamId_read s rest hcaught hrange
    simp only [hcomponent, hfind, hint, hname, hdirection, hdir, readStream, if_neg hcaught]
    cases happend : appendVirtiosoStream r s.streamId s.component.bytes with
    | none => simp only
    | some r' =>
      by_cases hd : s.component.text = codes "direction"
      · have hflag : readInput s = false := by simp [readInput, hd]
        simp only [hflag, hd, if_true]
      · have hflag : readInput s = (s.direction.text.map UInt8.ofNat == ascii "input" ||
            s.direction.text.map UInt8.ofNat == ascii "bidirectional") := by
          simp only [readInput, ne_eq, hd, not_false_eq_true, decide_true, Bool.true_and]
          cases s.direction <;> decide
        simp only [hflag, if_neg hd]

end Object

/-! ### The array of streams -/

def remainingText (tail : Bytes) : List Stream → Bytes
  | [] => 0x5d :: tail
  | s :: rest => [0x2c, 0x20] ++ (dumps (.obj s.members) ++ remainingText tail rest)

theorem array_text (s : Stream) (rest : List Stream) (tail : Bytes) :
    dumps (.arr ((s :: rest).map (fun s => .obj s.members))) ++ tail =
      0x5b :: (dumps (.obj s.members) ++ remainingText tail rest) := by
  rw [dumps_arr, List.map_map]
  have hjoin : ∀ s : Stream, commaJoin ((s :: rest).map (dumps ∘ fun s => Value.obj s.members)) ++ 0x5d :: tail =
      dumps (.obj s.members) ++ remainingText tail rest := by
    induction rest with
    | nil => simp [commaJoin, remainingText]
    | cons s' rest ih =>
      intro s
      have hstep := ih s'
      simp only [List.map_cons, Function.comp_apply] at hstep ⊢
      simp [commaJoin, remainingText, hstep]
  have hthis := hjoin s
  simp only [List.map_cons, Function.comp_apply] at hthis
  simp [hthis]

theorem remainingText_length (tail : Bytes) (todo : List Stream) : (0x5d :: tail).length ≤ (remainingText tail todo).length := by
  induction todo with
  | nil => simp [remainingText]
  | cons s rest ih =>
    simp only [remainingText, List.length_append]
    exact Nat.le_trans ih (by omega)

def readStreams : RegistryScan → List Stream → RegistryScan × Bool
  | r, [] => (r, true)
  | r, s :: rest =>
    match readStream r s with
    | none => (r, false)
    | some r' => readStreams r' rest

theorem dumps_obj_head (members : List (Text × Value)) : ∃ more, dumps (.obj members) = 0x7b :: more :=
  ⟨_, dumps_obj members⟩

/-- One turn of the loop. -/
theorem registryLoop_object {dup : Nat → Bool} (hdup : ∀ n, dup n = true) {s : Stream}
    (hrange : -1 ≤ s.streamId ∧ s.streamId ≤ 0xff) {lead : Bytes} (hlead : ∀ b ∈ lead, b ≠ 0x7b) {streamsEnd rest : Bytes}
    (hlen : streamsEnd.length ≤ rest.length) (r : RegistryScan) :
    registryLoop dup streamsEnd (lead ++ (dumps (.obj s.members) ++ rest)) r =
      match readStream r s with
      | none => (r, false)
      | some r' => registryLoop dup streamsEnd rest r' := by
  obtain ⟨more, hhead⟩ := dumps_obj_head s.members
  have hdrop : (lead ++ (dumps (.obj s.members) ++ rest)).dropWhile (· != 0x7b) = dumps (.obj s.members) ++ rest := by
    rw [List.dropWhile_append_of_pos (by
      intro b hb
      simpa using hlead b hb), hhead]
    simp
  have hpos : (dumps (.obj s.members)).length ≠ 0 := by simp [hhead]
  have h1 : ¬ AtOrAfter (lead ++ (dumps (.obj s.members) ++ rest)) streamsEnd := by
    simp only [AtOrAfter, List.length_append]
    omega
  have h2 : ¬ AtOrAfter (dumps (.obj s.members) ++ rest) streamsEnd := by
    simp only [AtOrAfter, List.length_append]
    omega
  have hmatch := findMatching_obj s.members rest
  have hobject := registryObject_stream s rest hdup hrange r
  rw [registryLoop, if_neg h1]
  simp only [hdrop, if_neg h2]
  split
  · rename_i hnone
    rw [hdrop, hmatch] at hnone
    cases hnone
  · rename_i objectEnd hsome
    rw [hdrop, hmatch] at hsome
    cases hsome
    rw [hobject]
    rfl

theorem registryLoop_streams {dup : Nat → Bool} (hdup : ∀ n, dup n = true) (tail : Bytes) (todo : List Stream)
    (hrange : ∀ s ∈ todo, -1 ≤ s.streamId ∧ s.streamId ≤ 0xff) (r : RegistryScan) :
    registryLoop dup (0x5d :: tail) (remainingText tail todo) r = readStreams r todo := by
  induction todo generalizing r with
  | nil =>
    have hend : AtOrAfter (0x5d :: tail) (0x5d :: tail) := Nat.le_refl _
    rw [registryLoop, remainingText, if_pos hend]
    rfl
  | cons s rest ih =>
    have hlead : ∀ b ∈ [(0x2c : Byte), 0x20], b ≠ 0x7b := by simp
    rw [remainingText, registryLoop_object hdup (hrange s List.mem_cons_self) hlead (remainingText_length tail rest),
      readStreams]
    cases readStream r s with
    | none => rfl
    | some r' => exact ih (fun s' hs' => hrange s' (List.mem_cons_of_mem _ hs')) r'

/-- From the opening bracket on. -/
theorem registryLoop_array {dup : Nat → Bool} (hdup : ∀ n, dup n = true) (tail : Bytes) {streams : List Stream}
    (hne : streams ≠ []) (hrange : ∀ s ∈ streams, -1 ≤ s.streamId ∧ s.streamId ≤ 0xff) (r : RegistryScan) :
    registryLoop dup (0x5d :: tail) (dumps (.arr (streams.map (fun s => .obj s.members))) ++ tail).tail r =
      readStreams r streams := by
  obtain ⟨s, rest, rfl⟩ := List.exists_cons_of_ne_nil hne
  have hlead : ∀ b ∈ ([] : Bytes), b ≠ 0x7b := by simp
  have hfirst := registryLoop_object hdup (hrange s List.mem_cons_self) hlead (remainingText_length tail rest) r
  rw [List.nil_append] at hfirst
  rw [array_text, List.tail_cons, readStreams]
  refine hfirst.trans ?_
  cases readStream r s with
  | none => rfl
  | some r' => exact registryLoop_streams hdup tail rest (fun s' hs' => hrange s' (List.mem_cons_of_mem _ hs')) r'

/-- A caught stream anywhere in the array rejects the registry. -/
theorem readStreams_caught {streams : List Stream} (h : ∃ s ∈ streams, Caught s) (r : RegistryScan) :
    (readStreams r streams).2 = false := by
  induction streams generalizing r with
  | nil =>
    obtain ⟨s, hs, -⟩ := h
    exact absurd hs List.not_mem_nil
  | cons s rest ih =>
    rw [readStreams]
    by_cases hs : Caught s
    · rw [readStream, if_pos hs]
    · have hrest : ∃ s ∈ rest, Caught s := by
        obtain ⟨x, hx, hc⟩ := h
        rcases List.mem_cons.mp hx with rfl | hx
        · exact absurd hc hs
        · exact ⟨x, hx, hc⟩
      cases readStream r s with
      | none => rfl
      | some r' => exact ih hrest r'

/-! ### The entries -/

/-- The slots behind the built-in ones hold the streams, with the flags as read. -/
structure ScanOf (done : List Stream) (r : RegistryScan) : Prop where
  count : r.count = 3 + done.length
  builtin : ∀ i < 3, r.tags i = initVirtiosoTags.tags i ∧ r.inputEnabled i = initVirtiosoTags.inputEnabled i
  entry : ∀ k s, done[k]? = some s →
    r.tags (3 + k) = ⟨some s.component.bytes, UInt8.ofNat s.streamId.toNat⟩ ∧ r.inputEnabled (3 + k) = readInput s

def builtinNames : List Bytes := [rawCcplexPty, autopilotControlPty, physicalUartDefaultPty]

structure Fits (streams : List Stream) : Prop where
  ids : ∀ s ∈ streams, 1 ≤ s.streamId ∧ s.streamId ≤ 252
  distinct : (streams.map Stream.streamId).Pairwise (· < ·)
  names : (streams.map Stream.component).Nodup
  notBuiltin : ∀ s ∈ streams, s.component.bytes ∉ builtinNames
  length : streams.length ≤ 252

theorem streamByte_toNat {x : Int} (h0 : 0 ≤ x) (hx : x ≤ 252) : (UInt8.ofNat x.toNat).toNat = x.toNat :=
  UInt8.toNat_ofNat_of_lt' (show x.toNat < 256 by omega)

section Append
variable {done : List Stream} {r : RegistryScan} (hr : ScanOf done r) {s : Stream} (hfits : Fits (done ++ [s]))
include hr hfits

/-- The built-in slots have the value zero and names of their own. -/
theorem ScanOf.builtin_new {i : Nat} (h3 : i < 3) :
    (r.tags i).value ≠ UInt8.ofNat s.streamId.toNat ∧ (r.tags i).name ≠ some s.component.bytes := by
  obtain ⟨h1, h252⟩ := hfits.ids s (by simp)
  rw [(hr.builtin i h3).1]
  constructor
  · rw [initVirtiosoTags_clean.zero i h3]
    intro heq
    have hnat := congrArg UInt8.toNat heq
    rw [streamByte_toNat (by omega) h252] at hnat
    have : (0 : Nat) = s.streamId.toNat := hnat
    omega
  · have hnot := hfits.notBuiltin s (by simp)
    simp only [builtinNames, List.mem_cons, List.not_mem_nil, or_false, not_or] at hnot
    have hcases : i = 0 ∨ i = 1 ∨ i = 2 := by omega
    rcases hcases with rfl | rfl | rfl
    · exact fun heq => hnot.1 (Option.some.inj heq).symm
    · exact fun heq => hnot.2.1 (Option.some.inj heq).symm
    · exact fun heq => hnot.2.2 (Option.some.inj heq).symm

/-- The streams before have smaller identifiers and other names. -/
theorem ScanOf.entry_new {k : Nat} (hk : k < done.length) :
    (r.tags (3 + k)).value ≠ UInt8.ofNat s.streamId.toNat ∧ (r.tags (3 + k)).name ≠ some s.component.bytes := by
  obtain ⟨h1, h252⟩ := hfits.ids s (by simp)
  obtain ⟨htag, -⟩ := hr.entry k done[k] (List.getElem?_eq_getElem hk)
  have hmem : done[k] ∈ done := List.getElem_mem hk
  obtain ⟨h1', h252'⟩ := hfits.ids done[k] (List.mem_append_left _ hmem)
  rw [htag]
  constructor
  · intro heq
    have hnat := congrArg UInt8.toNat heq
    rw [streamByte_toNat (by omega) h252', streamByte_toNat (by omega) h252] at hnat
    have hpair := hfits.distinct
    rw [List.map_append, List.pairwise_append] at hpair
    have hlt := hpair.2.2 done[k].streamId (List.mem_map_of_mem hmem) s.streamId (by simp)
    omega
  · intro heq
    have hsame := Ident.bytes_inj (Option.some.inj heq)
    have hnodup := hfits.names
    rw [List.map_append, List.nodup_append] at hnodup
    exact hnodup.2.2 done[k].component (List.mem_map_of_mem hmem) s.component (by simp) hsame

theorem ScanOf.append :
    appendVirtiosoStream r s.streamId s.component.bytes = some { r with
      tags := Function.update r.tags r.count ⟨some s.component.bytes, UInt8.ofNat s.streamId.toNat⟩
      count := r.count + 1 } := by
  obtain ⟨h1, h252⟩ := hfits.ids s (by simp)
  have hcount := hr.count
  have hlen := hfits.length
  simp only [List.length_append, List.length_singleton] at hlen
  have hany : (List.range r.count).any (fun i =>
      (r.tags i).value == UInt8.ofNat s.streamId.toNat || (r.tags i).name == some s.component.bytes) = false := by
    rw [List.any_eq_false]
    intro i hi
    rw [List.mem_range] at hi
    by_cases h3 : i < 3
    · simp [hr.builtin_new hfits h3]
    · obtain ⟨k, rfl⟩ : ∃ k, i = 3 + k := ⟨i - 3, by omega⟩
      have hk : k < done.length := by omega
      simp [hr.entry_new hfits hk]
  have hneg : ¬ s.streamId < 0 := by omega
  have hrange : ¬ (s.streamId ≤ 0 ∨ s.streamId > 0xff ∨ s.streamId = 0xfe ∨ s.streamId = 0xfd) := by omega
  have hfull : r.count ≠ virtiosoMaxPtyCount := by
    simp only [virtiosoMaxPtyCount]
    omega
  simp [appendVirtiosoStream, hneg, hrange, hany, hfull]

end Append

theorem Fits.left {xs ys : List Stream} (h : Fits (xs ++ ys)) : Fits xs := by
  refine ⟨fun s hs => h.ids s (List.mem_append_left _ hs), ?_, ?_, fun s hs => h.notBuiltin s (List.mem_append_left _ hs), ?_⟩
  · have := h.distinct
    rw [List.map_append, List.pairwise_append] at this
    exact this.1
  · have := h.names
    rw [List.map_append, List.nodup_append] at this
    exact this.1
  · have := h.length
    rw [List.length_append] at this
    omega

/-- The entry of a listed stream goes to the next slot. -/
theorem ScanOf.step {done : List Stream} {r : RegistryScan} (hr : ScanOf done r) {s : Stream}
    (hfits : Fits (done ++ [s])) (hcaught : ¬ Caught s) :
    ∃ r', readStream r s = some r' ∧ ScanOf (done ++ [s]) r' := by
  have happend := hr.append hfits
  refine ⟨{ r with
    tags := Function.update r.tags r.count ⟨some s.component.bytes, UInt8.ofNat s.streamId.toNat⟩
    inputEnabled := Function.update r.inputEnabled r.count (readInput s)
    count := r.count + 1 }, ?_, ?_⟩
  · rw [readStream, if_neg hcaught, happend]
    exact if_pos (Nat.lt_succ_self _)
  · refine ⟨?_, ?_, ?_⟩
    · have := hr.count
      simp only [List.length_append, List.length_singleton]
      omega
    · intro i hi
      have hne : i ≠ r.count := by have := hr.count; omega
      simp only [Function.update_of_ne hne]
      exact hr.builtin i hi
    · intro k s' hk
      have hcount := hr.count
      by_cases hlast : k = done.length
      · subst hlast
        rw [List.getElem?_append_right (Nat.le_refl _), Nat.sub_self] at hk
        cases hk
        simp only [← hcount, Function.update_self, and_self]
      · have hlt : k < done.length := by
          have := (List.getElem?_eq_some_iff.mp hk).1
          simp only [List.length_append, List.length_singleton] at this
          omega
        rw [List.getElem?_append_left hlt] at hk
        have hne : 3 + k ≠ r.count := by omega
        simp only [Function.update_of_ne hne]
        exact hr.entry k s' hk

theorem readStream_unlisted {s : Stream} (hneg : s.streamId < 0) (hcaught : ¬ Caught s) (r : RegistryScan) :
    readStream r s = some r := by
  simp [readStream, hcaught, appendVirtiosoStream, hneg]

theorem readStreams_fits (todo : List Stream) {done : List Stream} {r : RegistryScan} (hr : ScanOf done r)
    (hfits : Fits (done ++ listed todo)) (hcaught : ∀ s ∈ todo, ¬ Caught s) :
    ∃ r', readStreams r todo = (r', true) ∧ ScanOf (done ++ listed todo) r' := by
  induction todo generalizing done r with
  | nil => exact ⟨r, rfl, by simpa [listed] using hr⟩
  | cons s rest ih =>
    have hs := hcaught s List.mem_cons_self
    have hrest : ∀ s' ∈ rest, ¬ Caught s' := fun s' hs' => hcaught s' (List.mem_cons_of_mem _ hs')
    rw [readStreams]
    by_cases hneg : s.streamId < 0
    · have hlist : listed (s :: rest) = listed rest := List.filter_cons_of_neg (by simpa using hneg)
      rw [hlist] at hfits ⊢
      rw [readStream_unlisted hneg hs]
      exact ih hr hfits hrest
    · have hlist : listed (s :: rest) = s :: listed rest := List.filter_cons_of_pos (by simpa using hneg)
      have hassoc : done ++ s :: listed rest = (done ++ [s]) ++ listed rest := by simp
      rw [hlist, hassoc] at hfits ⊢
      obtain ⟨r', hread, hr'⟩ := hr.step hfits.left hs
      rw [hread]
      exact ih hr' hfits hrest

/-! ### The whole registry -/

def preamble (r : Registry) : List (Text × Value) :=
  [(codes "demux_sinks", .arr (r.demuxSinks.map DemuxSink.value)),
   (codes "mux_sources", .arr (r.muxSources.map MuxSource.value)), (codes "name", .str r.name),
   (codes "schema", .str (codes "virtioso.camkes_component_identity.v1")), (codes "source", .str r.source)]

theorem registry_sorted (r : Registry) : sortKeys r.members =
    preamble r ++ [(codes "streams", Value.arr (r.streams.map (fun s => .obj s.members)))] := rfl

/-- A string before the streams reads as their key. -/
def Misread (r : Registry) : Prop := ∃ m ∈ preamble r, m.2.HasString (ReadsAs (codes "streams"))

theorem preamble_otherKeys (r : Registry) : OtherKeys (codes "streams") (preamble r) := by
  have hsink : ∀ d : Generator.DemuxSink, ¬ d.value.HasKey (ReadsAs (codes "streams")) := by
    intro d
    have h1 : ¬ ReadsAs (codes "streams") (codes "demux_component") := by decide
    have h2 : ¬ ReadsAs (codes "streams") (codes "demux_interface") := by decide
    have h3 : ¬ ReadsAs (codes "streams") (codes "demux_client_index") := by decide
    have h4 : ¬ ReadsAs (codes "streams") (codes "component") := by decide
    have h5 : ¬ ReadsAs (codes "streams") (codes "stream_id") := by decide
    simp [DemuxSink.value, h1, h2, h3, h4, h5]
  have hsource : ∀ d : MuxSource, ¬ d.value.HasKey (ReadsAs (codes "streams")) := by
    intro d
    have h1 : ¬ ReadsAs (codes "streams") (codes "mux_component") := by decide
    have h2 : ¬ ReadsAs (codes "streams") (codes "mux_interface") := by decide
    have h4 : ¬ ReadsAs (codes "streams") (codes "component") := by decide
    have h5 : ¬ ReadsAs (codes "streams") (codes "stream_id") := by decide
    simp [MuxSource.value, h1, h2, h4, h5]
  intro m hm
  simp only [preamble, List.mem_cons, List.not_mem_nil, or_false] at hm
  rcases hm with rfl | rfl | rfl | rfl | rfl
  · refine ⟨show ¬ ReadsAs (codes "streams") (codes "demux_sinks") by decide, ?_⟩
    simp only [hasKey_arr, List.mem_map, not_exists, not_and]
    rintro v ⟨d, -, rfl⟩
    exact hsink d
  · refine ⟨show ¬ ReadsAs (codes "streams") (codes "mux_sources") by decide, ?_⟩
    simp only [hasKey_arr, List.mem_map, not_exists, not_and]
    rintro v ⟨d, -, rfl⟩
    exact hsource d
  · exact ⟨show ¬ ReadsAs (codes "streams") (codes "name") by decide, by simp⟩
  · exact ⟨show ¬ ReadsAs (codes "streams") (codes "schema") by decide, by simp⟩
  · exact ⟨show ¬ ReadsAs (codes "streams") (codes "source") by decide, by simp⟩

theorem findArray_misread {r : Registry} (h : Misread r) :
    jsonFindArrayAfter r.text (ascii "\"streams\"") = none := by
  obtain ⟨e, rest', he, -, hfind⟩ := strstr_member_caught (by decide) (registry_sorted r) (preamble_otherKeys r) h []
  rw [List.append_nil] at hfind
  rw [key_streams, jsonFindArrayAfter, Registry.text, afterKeyColon_caught he hfind]

theorem findArray_streams {r : Registry} (h : ¬ Misread r) :
    jsonFindArrayAfter r.text (ascii "\"streams\"") =
      some (dumps (.arr (r.streams.map (fun s => .obj s.members))) ++ [0x7d], 0x5d :: [0x7d]) := by
  have hfind := strstr_member (by decide) (registry_sorted r) (preamble_otherKeys r)
    (fun m hm hs => h ⟨m, hm, hs⟩) []
  rw [List.append_nil] at hfind
  have hafter : afterKeyColon r.text (quoted (codes "streams")) =
      some (0x20 :: (dumps (.arr (r.streams.map (fun s => .obj s.members))) ++ [0x7d])) := by
    exact afterKeyColon_key hfind
  have harr := findMatching_arr (r.streams.map (fun s => .obj s.members)) [0x7d]
  have hhead : dumps (.arr (r.streams.map (fun s => .obj s.members))) =
      0x5b :: (commaJoin ((r.streams.map (fun s => Value.obj s.members)).map dumps) ++ [0x5d]) := by
    rw [dumps_arr, List.cons_append]
  rw [key_streams, jsonFindArrayAfter, hafter]
  rw [hhead] at harr ⊢
  simp only [List.cons_append] at harr ⊢
  change Option.map _ (jsonFindMatching _ 0x5b 0x5d) = _
  rw [harr]
  rfl

/-! ### Agreement -/

/-- The names of the assembly and the arguments under which no string is taken for a key:
neither end of a connection of the multiplexer is `streams`, name and source do not read as
that key, no instance or console interface is `stream_id`, and no component with a `GetChar`
interface is `direction`. -/
structure Readable (a : Assembly) (name source : Text) : Prop where
  endpoints : ∀ c ∈ a.connections, intoMux c = true ∨ fromDemux c = true →
    c.fromComponent.text ≠ codes "streams" ∧ c.toComponent.text ≠ codes "streams"
  name : ¬ ReadsAs (codes "streams") name
  source : ¬ ReadsAs (codes "streams") source
  component : ∀ i ∈ a.instances, i.componentName.text ≠ codes "stream_id"
  interface : ∀ i ∈ a.instances, ∀ f ∈ a.consoleInterfaces i.componentType, f.name.text ≠ codes "stream_id"
  input : ∀ i ∈ a.instances, i.componentName.text = codes "direction" →
    ∀ f ∈ a.consoleInterfaces i.componentType, f.kind ≠ .getChar

/-- The table holds the built-in entries and then exactly the listed streams. -/
def Appended (r : Registry) (t : Table) : Prop :=
  t.numProc = 3 + (listed r.streams).length ∧
  (∀ i < 3, t.tags i = initVirtiosoTags.tags i ∧ t.inputEnabled i = initVirtiosoTags.inputEnabled i) ∧
  ∀ k s, (listed r.streams)[k]? = some s →
    (t.tags (3 + k)).name = some s.component.bytes ∧ ((t.tags (3 + k)).value.toNat : Int) = s.streamId ∧
    (t.inputEnabled (3 + k) = true ↔ s.direction = .input ∨ s.direction = .bidirectional)

/-- An interface with `getchar` in its name is not `streams`, nor is `mux_batch`. -/
theorem endpoint_interface {c : Connection} (hc : intoMux c = true ∨ fromDemux c = true) :
    c.toInterface.text ≠ codes "streams" := by
  intro heq
  rcases hc with hc | hc
  · rw [intoMux, heq] at hc
    exact absurd hc (by decide)
  · have hpart : codes "getchar" <:+: c.toInterface.text := by simpa [fromDemux] using hc
    rw [heq] at hpart
    have hlen : (codes "getchar").length = (codes "streams").length := by decide
    exact absurd (hpart.eq_of_length hlen) (by decide)

theorem misread_iff {a : Assembly} {name source : Text} {r : Registry} (h : generate a name source = .ok r) :
    Misread r ↔ (∃ c ∈ a.connections, (intoMux c = true ∨ fromDemux c = true) ∧
        (c.fromComponent.text = codes "streams" ∨ c.toComponent.text = codes "streams")) ∨
      ReadsAs (codes "streams") name ∨ ReadsAs (codes "streams") source := by
  obtain ⟨-, hmux, hdemux, rfl, rfl⟩ := generate_ok h
  have hschema : ¬ ReadsAs (codes "streams") (codes "virtioso.camkes_component_identity.v1") := by decide
  -- the strings of the two arrays are the names of the connections they come from
  let bad (n : Ident × Ident × Ident) : Prop :=
    n.1.text = codes "streams" ∨ n.2.1.text = codes "streams" ∨ n.2.2.text = codes "streams"
  have hsource : ∀ m : MuxSource, m.value.HasString (ReadsAs (codes "streams")) ↔ bad m.names := by
    intro m
    simp [MuxSource.value, MuxSource.names, readsAs_ident, bad]
  have hsink : ∀ d : Generator.DemuxSink, d.value.HasString (ReadsAs (codes "streams")) ↔ bad d.names := by
    intro d
    simp [DemuxSink.value, DemuxSink.names, readsAs_ident, bad]
  have hsources : (∃ m ∈ r.muxSources, bad m.names) ↔ ∃ c ∈ a.connections, intoMux c = true ∧ bad c.names := by
    have hmem : (∃ n ∈ r.muxSources.map MuxSource.names, bad n) ↔
        ∃ n ∈ (a.connections.filter intoMux).map Connection.names, bad n := by rw [muxSources_names hmux]
    simp only [List.mem_map, exists_exists_and_eq_and] at hmem
    simpa only [List.mem_filter, and_assoc] using hmem
  have hsinks : (∃ d ∈ r.demuxSinks, bad d.names) ↔ ∃ c ∈ a.connections, fromDemux c = true ∧ bad c.names := by
    have hmem : (∃ n ∈ r.demuxSinks.map DemuxSink.names, bad n) ↔
        ∃ n ∈ (a.connections.filter fromDemux).map Connection.names, bad n := by rw [demuxSinks_names hdemux]
    simp only [List.mem_map, exists_exists_and_eq_and] at hmem
    simpa only [List.mem_filter, and_assoc] using hmem
  have hbad : ∀ c : Connection, (intoMux c = true ∨ fromDemux c = true) →
      (bad c.names ↔ c.fromComponent.text = codes "streams" ∨ c.toComponent.text = codes "streams") := by
    intro c hc
    have := endpoint_interface hc
    simp only [bad, Connection.names, this, false_or]
    exact or_comm
  have hmis : Misread r ↔ (∃ d ∈ r.demuxSinks, bad d.names) ∨ (∃ m ∈ r.muxSources, bad m.names) ∨
      ReadsAs (codes "streams") r.name ∨ ReadsAs (codes "streams") r.source := by
    simp only [Misread, preamble, List.mem_cons, List.not_mem_nil, or_false, exists_eq_or_imp, exists_eq_left,
      hasString_arr, hasString_str, hschema, false_or, List.mem_map, exists_exists_and_eq_and, hsource, hsink]
  rw [hmis, hsources, hsinks]
  constructor
  · rintro (⟨c, hc, hd, hb⟩ | ⟨c, hc, hm, hb⟩ | h)
    · exact .inl ⟨c, hc, .inr hd, (hbad c (.inr hd)).mp hb⟩
    · exact .inl ⟨c, hc, .inl hm, (hbad c (.inl hm)).mp hb⟩
    · exact .inr h
  · rintro (⟨c, hc, hm | hd, hb⟩ | h)
    · exact .inr (.inl ⟨c, hc, hm, (hbad c (.inl hm)).mpr hb⟩)
    · exact .inl ⟨c, hc, hd, (hbad c (.inr hd)).mpr hb⟩
    · exact .inr (.inr h)

theorem streamDirection_input (interfaces : List Interface) :
    (streamDirection interfaces = .input ∨ streamDirection interfaces = .bidirectional) ↔
      ∃ f ∈ interfaces, f.kind = .getChar := by
  simp only [streamDirection, List.mem_map]
  split
  · rename_i h
    simp [h.2]
  · split
    · rename_i h1 h2
      have hno : ¬ ∃ f ∈ interfaces, f.kind = .getChar := fun h => h1 ⟨h2, h⟩
      simp [hno]
    · split
      · rename_i h
        simp [h]
      · rename_i h
        simp [h]

/-- The streams of an emitted registry. -/
theorem generated_fits {a : Assembly} {name source : Text} {r : Registry} (h : generate a name source = .ok r)
    (hmax : consoleCount a a.instances ≤ 252) (hnames : ∀ i ∈ a.instances, i.componentName.bytes ∉ builtinNames) :
    r.streams = assigned a 0 a.instances ∧ Fits (listed r.streams) ∧
      ∀ s ∈ r.streams, -1 ≤ s.streamId ∧ s.streamId ≤ 0xff := by
  obtain ⟨hstreams, hnodup⟩ := componentInstances_eq (generate_ok h).1 hmax
  have hids : ∀ s ∈ assigned a 0 a.instances, 0 ≤ s.streamId → 1 ≤ s.streamId ∧ s.streamId ≤ 252 := by
    intro s hs hpos
    obtain ⟨-, -, -, -, -, -, hrange⟩ := mem_assigned hs
    have := hrange hpos
    omega
  rw [hstreams]
  refine ⟨rfl, ⟨?_, listed_ascending a 0 a.instances, ?_, ?_, ?_⟩, ?_⟩
  · intro s hs
    obtain ⟨hmem, hpos⟩ := List.mem_filter.mp hs
    exact hids s hmem (of_decide_eq_true hpos)
  · rw [← assigned_component a 0] at hnodup
    exact hnodup.sublist (List.filter_sublist.map _)
  · intro s hs
    obtain ⟨i, hi, hcomponent, -⟩ := mem_assigned (List.mem_of_mem_filter hs)
    rw [hcomponent]
    exact hnames i hi
  · rw [listed_length]
    exact hmax
  · intro s hs
    have hneg := assigned_streamId_ge hs
    rcases lt_or_ge s.streamId 0 with hlt | hge
    · omega
    · have := hids s hs hge
      omega

/-! ### The verdict on an emitted registry -/

def startScan : RegistryScan := ⟨initVirtiosoTags.tags, initVirtiosoTags.inputEnabled, initVirtiosoTags.numProc⟩

theorem startScan_nil : ScanOf [] startScan := ⟨rfl, fun _ _ => ⟨rfl, rfl⟩, fun k s hk => by simp at hk⟩

theorem registryTable_misread {r : Registry} (h : Misread r) (t : Table) : registryTable t r.text = none := by
  rw [registryTable, findArray_misread h]

section Verdict
variable {r : Registry} (hno : ¬ Misread r) (hne : r.streams ≠ [])
  (hrange : ∀ s ∈ r.streams, -1 ≤ s.streamId ∧ s.streamId ≤ 0xff)
include hno hne hrange

theorem registryTable_read : registryTable initVirtiosoTags r.text =
    if !(readStreams startScan r.streams).2 || (readStreams startScan r.streams).1.count = initVirtiosoTags.numProc
    then none else some ((readStreams startScan r.streams).1.table initVirtiosoTags) := by
  rw [registryTable, findArray_streams hno]
  simp only [registryLoop_array (fun _ => rfl) [0x7d] hne hrange]
  rfl

theorem registryTable_caught (h : ∃ s ∈ r.streams, Caught s) : registryTable initVirtiosoTags r.text = none := by
  rw [registryTable_read hno hne hrange, readStreams_caught h startScan]
  rfl

/-- If no name is taken for a key, the listed streams are appended, with the flags as read. -/
theorem registryTable_streams (hcaught : ∀ s ∈ r.streams, ¬ Caught s) (hfits : Fits (listed r.streams))
    (hlisted : listed r.streams ≠ []) :
    ∃ scan, registryTable initVirtiosoTags r.text = some (scan.table initVirtiosoTags) ∧
      ScanOf (listed r.streams) scan := by
  obtain ⟨scan, hread, hscan⟩ := readStreams_fits r.streams startScan_nil (by simpa using hfits) hcaught
  rw [List.nil_append] at hscan
  refine ⟨scan, ?_, hscan⟩
  have hcount : scan.count ≠ initVirtiosoTags.numProc := by
    have hpos := List.length_pos_of_ne_nil hlisted
    rw [hscan.count]
    simp only [initVirtiosoTags]
    omega
  rw [registryTable_read hno hne hrange, hread]
  simp [hcount]

end Verdict

/-- The table of a scan is the wanted one if the flags were read as they were written. -/
theorem appended_iff {r : Registry} {scan : RegistryScan} (hscan : ScanOf (listed r.streams) scan)
    (hfits : Fits (listed r.streams)) :
    Appended r (scan.table initVirtiosoTags) ↔
      ∀ s ∈ listed r.streams, (readInput s = true ↔ s.direction = .input ∨ s.direction = .bidirectional) := by
  constructor
  · rintro ⟨-, -, hentries⟩ s hs
    obtain ⟨k, hk⟩ := List.mem_iff_getElem?.mp hs
    rw [← (hscan.entry k s hk).2]
    exact (hentries k s hk).2.2
  · intro hflags
    refine ⟨hscan.count, hscan.builtin, ?_⟩
    intro k s hk
    obtain ⟨htag, hinput⟩ := hscan.entry k s hk
    obtain ⟨h1, h252⟩ := hfits.ids s (List.mem_of_getElem? hk)
    have hbyte : (UInt8.ofNat s.streamId.toNat).toNat = s.streamId.toNat :=
      UInt8.toNat_ofNat_of_lt' (show s.streamId.toNat < 256 by omega)
    refine ⟨?_, ?_, ?_⟩
    · exact congrArg Tag.name htag
    · change ((scan.tags (3 + k)).value.toNat : Int) = s.streamId
      rw [htag, hbyte]
      omega
    · change scan.inputEnabled (3 + k) = true ↔ _
      rw [hinput]
      exact hflags s (List.mem_of_getElem? hk)

theorem readInput_iff (s : Stream) :
    (readInput s = true ↔ s.direction = .input ∨ s.direction = .bidirectional) ↔
      (s.component.text = codes "direction" → ¬ (s.direction = .input ∨ s.direction = .bidirectional)) := by
  simp only [readInput, Bool.and_eq_true, Bool.or_eq_true, decide_eq_true_eq]
  tauto

/-- The condition on the assembly, in terms of the registry. -/
theorem readable_iff {a : Assembly} {name source : Text} {r : Registry} (h : generate a name source = .ok r)
    (hstreams : r.streams = assigned a 0 a.instances) :
    Readable a name source ↔ ¬ Misread r ∧ (∀ s ∈ r.streams, ¬ Caught s) ∧
      ∀ s ∈ listed r.streams, (readInput s = true ↔ s.direction = .input ∨ s.direction = .bidirectional) := by
  rw [misread_iff h]
  constructor
  · intro hread
    refine ⟨?_, ?_, ?_⟩
    · rintro (⟨c, hc, hkind, hbad⟩ | hbad | hbad)
      · obtain ⟨hfrom, hto⟩ := hread.endpoints c hc hkind
        exact hbad.elim hfrom hto
      · exact hread.name hbad
      · exact hread.source hbad
    · intro s hs
      rw [hstreams] at hs
      obtain ⟨i, hi, hcomponent, hinterfaces, -⟩ := mem_assigned hs
      rintro (hbad | ⟨f, hf, hbad⟩)
      · rw [hcomponent] at hbad
        exact hread.component i hi hbad
      · rw [hinterfaces] at hf
        exact hread.interface i hi f hf hbad
    · intro s hs
      have hmem := List.mem_of_mem_filter hs
      rw [hstreams] at hmem
      obtain ⟨i, hi, hcomponent, -, hdirection, -⟩ := mem_assigned hmem
      rw [readInput_iff, hcomponent, hdirection, streamDirection_input]
      rintro hname ⟨f, hf, hkind⟩
      exact hread.input i hi hname f hf hkind
  · rintro ⟨hmis, hcaught, hflags⟩
    -- every instance of the assembly has its stream in the registry
    have hstream : ∀ i ∈ a.instances, ∃ s ∈ r.streams, s.component = i.componentName ∧
        s.interfaces = a.consoleInterfaces i.componentType ∧
        s.direction = streamDirection (a.consoleInterfaces i.componentType) ∧
        (s.streamId < 0 ↔ a.consoleInterfaces i.componentType = []) := by
      intro i hi
      rw [hstreams]
      exact instance_assigned hi
    refine ⟨?_, ?_, ?_, ?_, ?_, ?_⟩
    · intro c hc hkind
      exact ⟨fun hbad => hmis (.inl ⟨c, hc, hkind, .inl hbad⟩), fun hbad => hmis (.inl ⟨c, hc, hkind, .inr hbad⟩)⟩
    · exact fun hbad => hmis (.inr (.inl hbad))
    · exact fun hbad => hmis (.inr (.inr hbad))
    · intro i hi hbad
      obtain ⟨s, hs, hcomponent, -⟩ := hstream i hi
      exact hcaught s hs (.inl (by rw [hcomponent, hbad]))
    · intro i hi f hf hbad
      obtain ⟨s, hs, -, hinterfaces, -⟩ := hstream i hi
      exact hcaught s hs (.inr ⟨f, by rw [hinterfaces]; exact hf, hbad⟩)
    · intro i hi hname f hf hkind
      obtain ⟨s, hs, hcomponent, -, hdirection, hneg⟩ := hstream i hi
      have hpos : ¬ s.streamId < 0 := by
        rw [hneg]
        exact List.ne_nil_of_mem hf
      have hlisted : s ∈ listed r.streams := List.mem_filter.mpr ⟨hs, by simpa using hpos⟩
      have hflag := (readInput_iff s).mp (hflags s hlisted)
      rw [hcomponent, hdirection, streamDirection_input] at hflag
      exact hflag hname ⟨f, hf, hkind⟩

/-- The host takes over an emitted registry as it was meant exactly if the names of the
assembly and the arguments do not read as keys. -/
theorem registry_agreed {a : Assembly} {name source : Text} {r : Registry} (hgen : generate a name source = .ok r)
    (hone : 1 ≤ consoleCount a a.instances) (hmax : consoleCount a a.instances ≤ 252)
    (hnames : ∀ i ∈ a.instances, i.componentName.bytes ∉ builtinNames) {env : Env} {g : State}
    (htable : g.table = initVirtiosoTags) (hdup : ∀ k, (env.now g).xstrndup k = true) (hopen : PtysOpen env g) :
    ((applyVirtiosoRegistryJson env g r.text).2 = true ∧ Appended r (applyVirtiosoRegistryJson env g r.text).1.table) ↔
      Readable a name source := by
  obtain ⟨hstreams, hfits, hrange⟩ := generated_fits hgen hmax hnames
  have hlisted : listed r.streams ≠ [] := by
    apply List.ne_nil_of_length_pos
    rw [hstreams, listed_length]
    exact hone
  have hne : r.streams ≠ [] := by
    rintro hnil
    exact hlisted (by rw [hnil]; rfl)
  have happly := applyVirtiosoRegistryJson_open hdup hopen (by rw [htable]; exact initVirtiosoTags_clean) r.text
  rw [htable] at happly
  rw [readable_iff hgen hstreams]
  by_cases hmis : Misread r
  · rw [registryTable_misread hmis] at happly
    simp [happly, hmis]
  by_cases hcaught : ∃ s ∈ r.streams, Caught s
  · rw [registryTable_caught hmis hne hrange hcaught] at happly
    obtain ⟨s, hs, hc⟩ := hcaught
    constructor
    · rintro ⟨hok, -⟩
      rw [happly] at hok
      cases hok
    · rintro ⟨-, hno, -⟩
      exact absurd hc (hno s hs)
  · have hno : ∀ s ∈ r.streams, ¬ Caught s := fun s hs hc => hcaught ⟨s, hs, hc⟩
    obtain ⟨scan, hread, hscan⟩ := registryTable_streams hmis hne hrange hno hfits hlisted
    rw [hread] at happly
    obtain ⟨g', hrun, htab, -⟩ := happly
    rw [hrun, htab, appended_iff hscan hfits]
    constructor
    · rintro ⟨-, hflags⟩
      exact ⟨hmis, hno, hflags⟩
    · rintro ⟨-, -, hflags⟩
      exact ⟨rfl, hflags⟩

def vm0 : Ident := ⟨codes "vm0", by decide⟩
def guest : Instance := ⟨⟨codes "Guest", by decide⟩, vm0⟩
def guestToMux : Connection := ⟨vm0, ⟨codes "batch", by decide⟩, ⟨codes "mux", by decide⟩, ⟨codes "mux_batch", by decide⟩⟩

def oneGuest : Assembly where
  componentTypes t :=
    if t.text = codes "Guest" then
      some [⟨.putChar, codes "guest_putchar", by decide⟩, ⟨.getChar, codes "guest_getchar", by decide⟩]
    else none
  instances := [guest]
  connections := [guestToMux]

def oneGuestRegistry (name source : Text) : Registry where
  name := name
  source := source
  streams := [streamOf oneGuest 1 (codes "component.common.c") guest]
  muxSources := [⟨guestToMux.toComponent, guestToMux.toInterface, vm0, 1⟩]
  demuxSinks := []

theorem generate_oneGuest (name source : Text) :
    generate oneGuest name source = .ok (oneGuestRegistry name source) := by
  have hconsole : oneGuest.hasConsole guest = true := by decide
  have hassigned : assigned oneGuest 0 oneGuest.instances = [streamOf oneGuest 1 (codes "component.common.c") guest] := by
    change assigned oneGuest 0 [guest] = _
    rw [assigned, if_pos hconsole]
    rfl
  have hstreams := componentInstances_ok (a := oneGuest) (by simp [oneGuest]) (by decide) (by simp [oneGuest])
  have hinto : oneGuest.connections.filter intoMux = [guestToMux] := by simp [oneGuest, guestToMux, intoMux]
  have hfrom : oneGuest.connections.filter fromDemux = [] := by
    have hno : ¬ codes "getchar" <:+: codes "mux_batch" := by decide
    simp [oneGuest, guestToMux, fromDemux, hno]
  have hmux : muxSource [streamOf oneGuest 1 (codes "component.common.c") guest] guestToMux =
      .ok ⟨guestToMux.toComponent, guestToMux.toInterface, vm0, 1⟩ := by
    simp [muxSource, connectedStream, streamOf, guest, guestToMux]
  rw [generate, hstreams, hassigned]
  simp only [muxSources, demuxSinks, hinto, hfrom, List.mapM_cons, List.mapM_nil, hmux]
  rfl

theorem registry_agreed_oneGuest :
    (applyVirtiosoRegistryJson quietEnv (start quietEnv) (oneGuestRegistry (codes "console") (codes "app.camkes")).text).2 = true ∧
    Appended (oneGuestRegistry (codes "console") (codes "app.camkes"))
      (applyVirtiosoRegistryJson quietEnv (start quietEnv)
        (oneGuestRegistry (codes "console") (codes "app.camkes")).text).1.table := by
  have hreadable : Readable oneGuest (codes "console") (codes "app.camkes") :=
    ⟨by decide, by decide, by decide, by decide, by decide, by decide⟩
  exact (registry_agreed (generate_oneGuest _ _) (by decide) (by decide) (by decide) rfl (fun _ => rfl)
    (fun _ => ⟨rfl, rfl, rfl⟩)).mpr hreadable

/-- A name that reads as the key of the streams: the host finds no array and rejects the
registry. -/
theorem registry_named_streams :
    ¬ ∀ (a : Assembly) (name source : Text) (r : Registry), generate a name source = .ok r →
      1 ≤ consoleCount a a.instances → consoleCount a a.instances ≤ 252 →
      (∀ i ∈ a.instances, i.componentName.bytes ∉ builtinNames) →
      ∀ (env : Env) (g : State), g.table = initVirtiosoTags → (∀ k, (env.now g).xstrndup k = true) → PtysOpen env g →
      (applyVirtiosoRegistryJson env g r.text).2 = true ∧ Appended r (applyVirtiosoRegistryJson env g r.text).1.table := by
  intro hall
  have hok := (hall oneGuest (codes "streams") (codes "app.camkes") _ (generate_oneGuest _ _) (by decide) (by decide)
    (by decide) quietEnv (start quietEnv) rfl (fun _ => rfl) (fun _ => ⟨rfl, rfl, rfl⟩)).1
  have hmis : Misread (oneGuestRegistry (codes "streams") (codes "app.camkes")) :=
    (misread_iff (generate_oneGuest _ _)).mpr (.inr (.inl (.inl rfl)))
  rw [applyVirtiosoRegistryJson, findArray_misread hmis] at hok
  cases hok

end VirtiosoMux.RegistryCodec
