import VirtiosoMux.Host.JsonText
import VirtiosoMux.Library.Json

/-! # Key search on serialized values

The key search does not know keys from strings: it also stops at a string that reads as the
quoted key, either because it is the key or because an escaped quote in it is followed by the
key and the end. A string is not followed by a colon, so reading a value there fails.
-/
namespace VirtiosoMux.Host
open Json

def KeyWord (k : Text) : Prop := k ≠ [] ∧ ∀ c ∈ k, 0x5f ≤ c ∧ c ≤ 0x7a

instance (k : Text) : Decidable (KeyWord k) := inferInstanceAs (Decidable (_ ∧ _))

/-- A string that the search for the quoted `k` stops at. -/
def ReadsAs (k s : Text) : Prop := s = k ∨ 0x22 :: k <:+ s

instance (k s : Text) : Decidable (ReadsAs k s) := inferInstanceAs (Decidable (_ ∨ _))

def Skips (k : Text) (b : Bytes) : Prop := ∀ rest, strstr (quoted k) (b ++ rest) = strstr (quoted k) rest

def Ends (e : Byte) : Prop := e = 0x2c ∨ e = 0x5d ∨ e = 0x7d

/-- The search stops in the text, at a string that is not a key. -/
def Stops (k : Text) (b : Bytes) : Prop :=
  ∀ rest, ∃ e rest', Ends e ∧ rest.length ≤ rest'.length ∧ strstr (quoted k) (b ++ rest) = some (quoted k ++ e :: rest')

section Search
variable {k : Text}

theorem KeyWord.plain (hk : KeyWord k) : ∀ c ∈ k, Plain c := by
  intro c hc
  have := hk.2 c hc
  exact ⟨by omega, by omega, by omega, by omega⟩

theorem strstr_cons_of_ne {x : Byte} (hx : x ≠ 0x22) (rest : Bytes) :
    strstr (quoted k) (x :: rest) = strstr (quoted k) rest := by
  simp [strstr, quoted, Ne.symm hx]

theorem skips_of_noQuote {b : Bytes} (hb : (0x22 : Byte) ∉ b) : Skips k b := by
  intro rest
  induction b with
  | nil => rfl
  | cons x b ih =>
    simp only [List.mem_cons, not_or] at hb
    rw [List.cons_append, strstr_cons_of_ne (Ne.symm hb.1), ih hb.2]

theorem Skips.append {a b : Bytes} (ha : Skips k a) (hb : Skips k b) : Skips k (a ++ b) := by
  intro rest
  rw [List.append_assoc, ha, hb]

theorem Skips.stops {a b : Bytes} (ha : Skips k a) (hb : Stops k b) : Stops k (a ++ b) := by
  intro rest
  rw [List.append_assoc, ha]
  exact hb rest

theorem Stops.append {a : Bytes} (ha : Stops k a) (b : Bytes) : Stops k (a ++ b) := by
  intro rest
  obtain ⟨e, rest', he, hlen, hs⟩ := ha (b ++ rest)
  refine ⟨e, rest', he, ?_, ?_⟩
  · simp only [List.length_append] at hlen
    omega
  · rw [List.append_assoc]
    exact hs

/-- Behind a quote, the key and a quote are read only if the rest of the string is the key. -/
theorem key_prefix_iff {k : Text} (hk : ∀ c ∈ k, Plain c) (s : Text) (rest : Bytes) :
    k.map UInt8.ofNat ++ [0x22] <+: body s ++ 0x22 :: rest ↔ s = k := by
  induction k generalizing s with
  | nil =>
    cases s with
    | nil => simp [body]
    | cons c s =>
      have hhead : ∃ x tail, escape c = x :: tail ∧ x ≠ 0x22 := by
        rcases escape_cases c with ⟨hp, h⟩ | ⟨-, h⟩ | ⟨-, -, ⟨tail, h⟩, -⟩
        · exact ⟨_, _, h, (plain_byte hp).1⟩
        · exact ⟨_, _, h, by decide⟩
        · exact ⟨_, _, h, by decide⟩
      obtain ⟨x, tail, h, hx⟩ := hhead
      simp [body, h, Ne.symm hx]
  | cons a k ih =>
    have ha := hk a List.mem_cons_self
    have hk' : ∀ c ∈ k, Plain c := fun c hc => hk c (List.mem_cons_of_mem _ hc)
    cases s with
    | nil => simp [body, (plain_byte ha).1]
    | cons c s =>
      have hbody : body (c :: s) = escape c ++ body s := by simp [body]
      rcases escape_cases c with ⟨hp, h⟩ | ⟨hq, h⟩ | ⟨hnp, -, ⟨tail, h⟩, -⟩
      · have hca : UInt8.ofNat a = UInt8.ofNat c ↔ c = a := by
          constructor
          · intro heq
            have hnat := congrArg UInt8.toNat heq
            have h1 : a < 256 := by have := ha.2.1; omega
            have h2 : c < 256 := by have := hp.2.1; omega
            rw [UInt8.toNat_ofNat_of_lt' h1, UInt8.toNat_ofNat_of_lt' h2] at hnat
            exact hnat.symm
          · rintro rfl
            rfl
        rw [hbody, h]
        simp only [List.map_cons, List.cons_append, List.nil_append, List.cons_prefix_cons, hca, ih hk',
          List.cons.injEq]
      · have hne : c ≠ a := fun heq => ha.2.2.1 (heq ▸ hq)
        rw [hbody, h]
        simp [(plain_byte ha).2, hne]
      · have hne : c ≠ a := fun heq => hnp (heq ▸ ha)
        rw [hbody, h]
        simp [(plain_byte ha).2, hne]

/-- `quoted k` as the search sees it. -/
theorem quoted_key (hk : KeyWord k) : quoted k = 0x22 :: (k.map UInt8.ofNat ++ [0x22]) := by
  rw [quoted, body_plain hk.plain, List.cons_append]

theorem strstr_at {b : Bytes} (hk : KeyWord k) :
    strstr (quoted k) (0x22 :: b) = if k.map UInt8.ofNat ++ [0x22] <+: b then some (0x22 :: b) else strstr (quoted k) b := by
  rw [quoted_key hk, strstr]
  simp only [List.isPrefixOf_iff_prefix, List.cons_prefix_cons, true_and]

/-- The end of a string and what follows it. -/
theorem strstr_closing (hk : KeyWord k) {e : Byte} (he : Ends e ∨ e = 0x3a) (rest : Bytes) :
    strstr (quoted k) (0x22 :: e :: rest) = strstr (quoted k) (e :: rest) := by
  rw [strstr_at hk, if_neg]
  obtain ⟨hne, hrange⟩ := hk
  obtain ⟨a, k, rfl⟩ := List.exists_cons_of_ne_nil hne
  have ha := hrange a List.mem_cons_self
  rw [List.map_cons, List.cons_append, List.cons_prefix_cons]
  rintro ⟨heq, -⟩
  have hnat := congrArg UInt8.toNat heq
  have hlt : a < 256 := by omega
  rw [UInt8.toNat_ofNat_of_lt' hlt] at hnat
  rcases he with (rfl | rfl | rfl) | rfl
  · exact absurd hnat (by simp; omega)
  · exact absurd hnat (by simp; omega)
  · exact absurd hnat (by simp; omega)
  · exact absurd hnat (by simp; omega)

theorem quoted_append (s : Text) (rest : Bytes) : quoted s ++ rest = 0x22 :: (body s ++ 0x22 :: rest) := by
  simp [quoted]

/-- The search inside a string: an escaped quote may start a match. -/
theorem strstr_body (hk : KeyWord k) {e : Byte} (he : Ends e ∨ e = 0x3a) (s : Text) (rest : Bytes) :
    strstr (quoted k) (body s ++ 0x22 :: e :: rest) =
      if 0x22 :: k <:+ s then some (quoted k ++ e :: rest) else strstr (quoted k) (e :: rest) := by
  induction s with
  | nil =>
    rw [if_neg (by simp)]
    exact strstr_closing hk he rest
  | cons c s ih =>
    have hbody : body (c :: s) = escape c ++ body s := by simp [body]
    rw [hbody, List.append_assoc]
    by_cases hq : c = 0x22
    · subst hq
      have hesc : escape 0x22 = [0x5c, 0x22] := rfl
      rw [hesc, List.cons_append, List.cons_append, List.nil_append, strstr_cons_of_ne (by decide), strstr_at hk]
      simp only [key_prefix_iff hk.plain]
      by_cases hs : s = k
      · subst hs
        rw [if_pos rfl, if_pos List.suffix_rfl, quoted_append]
      · have hiff : 0x22 :: k <:+ 0x22 :: s ↔ 0x22 :: k <:+ s := by
          rw [List.suffix_cons_iff]
          simp [Ne.symm hs]
        simp only [if_neg hs, ih, hiff]
    · have hskip : (0x22 : Byte) ∉ escape c := by
        rcases escape_cases c with ⟨hp, h⟩ | ⟨h, -⟩ | ⟨-, -, -, -, h⟩
        · rw [h, List.mem_singleton]
          exact (plain_byte hp).1.symm
        · exact absurd h hq
        · exact h
      have hiff : 0x22 :: k <:+ c :: s ↔ 0x22 :: k <:+ s := by
        rw [List.suffix_cons_iff]
        simp [Ne.symm hq]
      rw [skips_of_noQuote hskip, ih]
      simp only [hiff]

theorem strstr_quoted (hk : KeyWord k) {e : Byte} (he : Ends e ∨ e = 0x3a) (s : Text) (rest : Bytes) :
    strstr (quoted k) (quoted s ++ e :: rest) =
      if ReadsAs k s then some (quoted k ++ e :: rest) else strstr (quoted k) (e :: rest) := by
  rw [quoted_append, strstr_at hk]
  simp only [key_prefix_iff hk.plain, strstr_body hk he, ReadsAs]
  by_cases hs : s = k
  · subst hs
    simp [quoted_append]
  · simp [hs]

theorem ends_noQuote {e : Byte} (he : Ends e ∨ e = 0x3a) : e ≠ 0x22 := by
  rcases he with (rfl | rfl | rfl) | rfl <;> decide

theorem skips_quoted (hk : KeyWord k) {e : Byte} (he : Ends e ∨ e = 0x3a) {s : Text} (hs : ¬ ReadsAs k s) :
    Skips k (quoted s ++ [e]) := by
  intro rest
  rw [List.append_assoc, List.singleton_append, strstr_quoted hk he, if_neg hs, strstr_cons_of_ne (ends_noQuote he)]

theorem stops_quoted (hk : KeyWord k) {e : Byte} (he : Ends e) {s : Text} (hs : ReadsAs k s) :
    Stops k (quoted s ++ [e]) := by
  intro rest
  refine ⟨e, rest, he, Nat.le_refl _, ?_⟩
  rw [List.append_assoc, List.singleton_append, strstr_quoted hk (.inl he), if_pos hs]

/-! ### Values -/

/-- How the search deals with a value, whatever ends it. -/
def Passes (k : Text) (b : Bytes) : Prop := ∀ e, Ends e → Skips k (b ++ [e])
def Catches (k : Text) (b : Bytes) : Prop := ∀ e, Ends e → Stops k (b ++ [e])

theorem skips_sep : Skips k [0x20] := skips_of_noQuote (by decide)

theorem commaJoin_cons (b : Bytes) {l : List Bytes} (hl : l ≠ []) (e : Byte) :
    commaJoin (b :: l) ++ [e] = (b ++ [0x2c]) ++ ([0x20] ++ (commaJoin l ++ [e])) := by
  obtain ⟨c, l, rfl⟩ := List.exists_cons_of_ne_nil hl
  simp [commaJoin]

theorem passes_join {l : List Bytes} (hl : ∀ b ∈ l, Passes k b) : Passes k (commaJoin l) := by
  intro e he
  induction l with
  | nil => exact skips_of_noQuote (by simpa [commaJoin] using (ends_noQuote (.inl he)).symm)
  | cons b l ih =>
    by_cases hnil : l = []
    · subst hnil
      exact hl b List.mem_cons_self e he
    · rw [commaJoin_cons b hnil]
      exact (hl b List.mem_cons_self _ (.inl rfl)).append
        (skips_sep.append (ih (fun x hx => hl x (List.mem_cons_of_mem _ hx))))

theorem catches_join {l : List Bytes} (hl : ∀ b ∈ l, Passes k b ∨ Catches k b) (hcatch : ∃ b ∈ l, Catches k b) :
    Catches k (commaJoin l) := by
  intro e he
  induction l with
  | nil =>
    obtain ⟨b, hb, -⟩ := hcatch
    exact absurd hb List.not_mem_nil
  | cons b l ih =>
    by_cases hnil : l = []
    · subst hnil
      obtain ⟨x, hx, hc⟩ := hcatch
      rw [List.mem_singleton.mp hx] at hc
      exact hc e he
    · rw [commaJoin_cons b hnil]
      rcases hl b List.mem_cons_self with hp | hc
      · by_cases hb : Catches k b
        · exact (hb _ (.inl rfl)).append _
        · have hrest : ∃ b ∈ l, Catches k b := by
            obtain ⟨x, hx, hc⟩ := hcatch
            rcases List.mem_cons.mp hx with rfl | hx
            · exact absurd hc hb
            · exact ⟨x, hx, hc⟩
          exact (hp _ (.inl rfl)).stops (skips_sep.stops (ih (fun x hx => hl x (List.mem_cons_of_mem _ hx)) hrest))
      · exact (hc _ (.inl rfl)).append _

theorem skips_memberKey (hk : KeyWord k) {key : Text} (hkey : ¬ ReadsAs k key) : Skips k (quoted key ++ [0x3a, 0x20]) := by
  have h := (skips_quoted hk (.inr rfl) hkey).append skips_sep
  simpa using h

theorem passes_member (hk : KeyWord k) {key : Text} (hkey : ¬ ReadsAs k key) {b : Bytes} (hb : Passes k b) :
    Passes k (memberText key b) := by
  intro e he
  rw [memberText, List.append_assoc]
  exact (skips_memberKey hk hkey).append (hb e he)

theorem catches_member (hk : KeyWord k) {key : Text} (hkey : ¬ ReadsAs k key) {b : Bytes} (hb : Catches k b) :
    Catches k (memberText key b) := by
  intro e he
  rw [memberText, List.append_assoc]
  exact (skips_memberKey hk hkey).stops (hb e he)

theorem decimal_noQuote (n : Int) : (0x22 : Byte) ∉ decimal n := by
  have hdigits : ∀ m, (0x22 : Byte) ∉ digits m := fun m hm => absurd (digits_isDigit m _ hm).1 (by decide)
  cases n with
  | ofNat n => exact hdigits n
  | negSucc n =>
    simp only [decimal, List.mem_cons, not_or]
    exact ⟨by decide, hdigits (n + 1)⟩

/-- Enclosing a joined text in brackets. -/
theorem Passes.enclose {b : Bytes} {o c : Byte} (ho : o ≠ 0x22) (hc : Ends c) (hb : Passes k b) :
    Passes k (o :: b ++ [c]) := by
  intro e he
  have hopen : Skips k [o] := skips_of_noQuote (by simpa using ho.symm)
  have hend : Skips k [e] := skips_of_noQuote (by simpa using (ends_noQuote (.inl he)).symm)
  exact (hopen.append (hb c hc)).append hend

theorem Catches.enclose {b : Bytes} {o c : Byte} (ho : o ≠ 0x22) (hc : Ends c) (hb : Catches k b) :
    Catches k (o :: b ++ [c]) := by
  intro e he
  have hopen : Skips k [o] := skips_of_noQuote (by simpa using ho.symm)
  exact (hopen.stops (hb c hc)).append [e]

/-- A value without the key among its keys is passed over, unless one of its strings reads
as the key. -/
theorem search_value (hk : KeyWord k) (v : Value) (hkeys : ¬ v.HasKey (ReadsAs k)) :
    (¬ v.HasString (ReadsAs k) → Passes k (dumps v)) ∧ (v.HasString (ReadsAs k) → Catches k (dumps v)) := by
  induction v using Value.ind with
  | str s =>
    rw [hasString_str]
    exact ⟨fun hs e he => skips_quoted hk (.inl he) hs, fun hs e he => stops_quoted hk he hs⟩
  | int n =>
    refine ⟨fun _ e he => skips_of_noQuote ?_, fun h => absurd h hasString_int⟩
    rw [dumps, List.mem_append, List.mem_singleton, not_or]
    exact ⟨decimal_noQuote n, (ends_noQuote (.inl he)).symm⟩
  | arr items ih =>
    rw [hasString_arr, dumps_arr]
    rw [hasKey_arr] at hkeys
    have hitem : ∀ v ∈ items, (¬ v.HasString (ReadsAs k) → Passes k (dumps v)) ∧
        (v.HasString (ReadsAs k) → Catches k (dumps v)) := fun v hv => ih v hv (fun h => hkeys ⟨v, hv, h⟩)
    constructor
    · intro hno
      refine (passes_join ?_).enclose (by decide) (.inr (.inl rfl))
      intro b hb
      obtain ⟨v, hv, rfl⟩ := List.mem_map.mp hb
      exact (hitem v hv).1 (fun h => hno ⟨v, hv, h⟩)
    · rintro ⟨v, hv, h⟩
      refine (catches_join ?_ ⟨dumps v, List.mem_map_of_mem hv, (hitem v hv).2 h⟩).enclose (by decide) (.inr (.inl rfl))
      intro b hb
      obtain ⟨v', hv', rfl⟩ := List.mem_map.mp hb
      by_cases hs : v'.HasString (ReadsAs k)
      · exact .inr ((hitem v' hv').2 hs)
      · exact .inl ((hitem v' hv').1 hs)
  | obj members ih =>
    rw [hasString_obj, dumps_obj]
    rw [hasKey_obj] at hkeys
    have hmember : ∀ m ∈ sortKeys members,
        (¬ m.2.HasString (ReadsAs k) → Passes k (memberText m.1 (dumps m.2))) ∧
        (m.2.HasString (ReadsAs k) → Catches k (memberText m.1 (dumps m.2))) := by
      intro m hm
      have hm' : m ∈ members := (List.mem_insertionSort _).mp hm
      have hkey : ¬ ReadsAs k m.1 := fun h => hkeys ⟨m, hm', .inl h⟩
      obtain ⟨hp, hc⟩ := ih m hm' (fun h => hkeys ⟨m, hm', .inr h⟩)
      exact ⟨fun h => passes_member hk hkey (hp h), fun h => catches_member hk hkey (hc h)⟩
    constructor
    · intro hno
      refine (passes_join ?_).enclose (by decide) (.inr (.inr rfl))
      intro b hb
      obtain ⟨m, hm, rfl⟩ := List.mem_map.mp hb
      exact (hmember m hm).1 (fun h => hno ⟨m, (List.mem_insertionSort _).mp hm, h⟩)
    · rintro ⟨m, hm, h⟩
      have hm' : m ∈ sortKeys members := (List.mem_insertionSort _).mpr hm
      refine (catches_join ?_ ⟨_, List.mem_map_of_mem hm', (hmember m hm').2 h⟩).enclose (by decide) (.inr (.inr rfl))
      intro b hb
      obtain ⟨m', hm'', rfl⟩ := List.mem_map.mp hb
      by_cases hs : m'.2.HasString (ReadsAs k)
      · exact .inr ((hmember m' hm'').2 hs)
      · exact .inl ((hmember m' hm'').1 hs)

/-! ### Members of an object -/

def membersTail (post : List Bytes) (rest : Bytes) : Bytes :=
  (if post = [] then [] else [0x2c, 0x20] ++ commaJoin post) ++ 0x7d :: rest

theorem membersTail_ends (post : List Bytes) (rest : Bytes) : ∃ e tail, Ends e ∧ membersTail post rest = e :: tail := by
  by_cases hp : post = []
  · exact ⟨0x7d, rest, .inr (.inr rfl), by simp [membersTail, hp]⟩
  · exact ⟨0x2c, _, .inl rfl, by simp [membersTail, hp]; rfl⟩

theorem membersTail_length (post : List Bytes) (rest : Bytes) : rest.length < (membersTail post rest).length := by
  simp only [membersTail, List.length_append, List.length_cons]
  omega

theorem commaJoin_split (pre : List Bytes) (b : Bytes) (post : List Bytes) (rest : Bytes) :
    0x7b :: commaJoin (pre ++ b :: post) ++ [0x7d] ++ rest =
      [0x7b] ++ pre.flatMap (fun x => x ++ [0x2c] ++ [0x20]) ++ (b ++ membersTail post rest) := by
  have hjoin : commaJoin (pre ++ b :: post) ++ 0x7d :: rest =
      pre.flatMap (fun x => x ++ [0x2c] ++ [0x20]) ++ (b ++ membersTail post rest) := by
    induction pre with
    | nil => cases post <;> simp [commaJoin, membersTail]
    | cons x pre ih =>
      have hcons : commaJoin (x :: (pre ++ b :: post)) = x ++ [0x2c, 0x20] ++ commaJoin (pre ++ b :: post) := by
        cases pre <;> rfl
      simp [hcons, ih]
  simp [hjoin]

theorem skips_members {pre : List Bytes} (hpre : ∀ b ∈ pre, Passes k b) :
    Skips k (pre.flatMap (fun x => x ++ [0x2c] ++ [0x20])) := by
  induction pre with
  | nil => exact fun _ => rfl
  | cons b pre ih =>
    exact ((hpre b List.mem_cons_self _ (.inl rfl)).append skips_sep).append
      (ih (fun x hx => hpre x (List.mem_cons_of_mem _ hx)))

theorem stops_members {pre : List Bytes} (hpre : ∀ b ∈ pre, Passes k b ∨ Catches k b) (hcatch : ∃ b ∈ pre, Catches k b) :
    Stops k (pre.flatMap (fun x => x ++ [0x2c] ++ [0x20])) := by
  induction pre with
  | nil =>
    obtain ⟨b, hb, -⟩ := hcatch
    exact absurd hb List.not_mem_nil
  | cons b pre ih =>
    rw [List.flatMap_cons]
    by_cases hb : Catches k b
    · exact ((hb _ (.inl rfl)).append _).append _
    · have hp := (hpre b List.mem_cons_self).resolve_right hb
      have hrest : ∃ b ∈ pre, Catches k b := by
        obtain ⟨x, hx, hc⟩ := hcatch
        rcases List.mem_cons.mp hx with rfl | hx
        · exact absurd hc hb
        · exact ⟨x, hx, hc⟩
      exact ((hp _ (.inl rfl)).append skips_sep).stops (ih (fun x hx => hpre x (List.mem_cons_of_mem _ hx)) hrest)

def OtherKeys (k : Text) (pre : List (Text × Value)) : Prop :=
  ∀ m ∈ pre, ¬ ReadsAs k m.1 ∧ ¬ m.2.HasKey (ReadsAs k)

def memberTexts (ms : List (Text × Value)) : List Bytes := ms.map (fun m => memberText m.1 (dumps m.2))

/-- The search finds the member `k` if no string before it reads as the key. -/
theorem strstr_member (hk : KeyWord k) {members pre post : List (Text × Value)} {v : Value}
    (hsort : sortKeys members = pre ++ (k, v) :: post) (hpre : OtherKeys k pre)
    (hno : ∀ m ∈ pre, ¬ m.2.HasString (ReadsAs k)) (rest : Bytes) :
    strstr (quoted k) (dumps (.obj members) ++ rest) =
      some (quoted k ++ 0x3a :: 0x20 :: (dumps v ++ membersTail (memberTexts post) rest)) := by
  have hskip : Skips k ([0x7b] ++ (memberTexts pre).flatMap (fun x => x ++ [0x2c] ++ [0x20])) := by
    refine (skips_of_noQuote (by decide)).append (skips_members ?_)
    intro b hb
    obtain ⟨m, hm, rfl⟩ := List.mem_map.mp hb
    exact passes_member hk (hpre m hm).1 ((search_value hk m.2 (hpre m hm).2).1 (hno m hm))
  rw [dumps_obj, hsort, List.map_append, List.map_cons, commaJoin_split]
  change strstr (quoted k) ([0x7b] ++ (memberTexts pre).flatMap _ ++ _) = _
  rw [hskip, memberText, List.append_assoc, List.append_assoc]
  change strstr (quoted k) (quoted k ++ 0x3a :: _) = _
  rw [strstr_quoted hk (.inr rfl), if_pos (.inl rfl)]
  rfl

/-- Otherwise it stops at such a string, before the member. -/
theorem strstr_member_caught (hk : KeyWord k) {members pre post : List (Text × Value)} {v : Value}
    (hsort : sortKeys members = pre ++ (k, v) :: post) (hpre : OtherKeys k pre)
    (hcaught : ∃ m ∈ pre, m.2.HasString (ReadsAs k)) (rest : Bytes) :
    ∃ e rest', Ends e ∧ rest.length < rest'.length ∧
      strstr (quoted k) (dumps (.obj members) ++ rest) = some (quoted k ++ e :: rest') := by
  have hstop : Stops k ([0x7b] ++ (memberTexts pre).flatMap (fun x => x ++ [0x2c] ++ [0x20])) := by
    refine (skips_of_noQuote (by decide)).stops (stops_members ?_ ?_)
    · intro b hb
      obtain ⟨m, hm, rfl⟩ := List.mem_map.mp hb
      obtain ⟨hp, hc⟩ := search_value hk m.2 (hpre m hm).2
      by_cases hs : m.2.HasString (ReadsAs k)
      · exact .inr (catches_member hk (hpre m hm).1 (hc hs))
      · exact .inl (passes_member hk (hpre m hm).1 (hp hs))
    · obtain ⟨m, hm, hs⟩ := hcaught
      exact ⟨_, List.mem_map_of_mem hm, catches_member hk (hpre m hm).1 ((search_value hk m.2 (hpre m hm).2).2 hs)⟩
  obtain ⟨e, rest', he, hlen, hs⟩ := hstop (memberText k (dumps v) ++ membersTail (memberTexts post) rest)
  refine ⟨e, rest', he, ?_, ?_⟩
  · have := membersTail_length (memberTexts post) rest
    simp only [List.length_append] at hlen
    omega
  · rw [dumps_obj, hsort, List.map_append, List.map_cons, commaJoin_split]
    exact hs

end Search

/-! ### Reading a value -/

theorem ends_notSpace {e : Byte} (he : Ends e) : isspace e = false ∧ e ≠ 0x3a := by
  rcases he with rfl | rfl | rfl <;> decide

/-- A position found is found again from itself. -/
theorem strstr_found {k : Text} (hk : KeyWord k) {e : Byte} (he : Ends e ∨ e = 0x3a) (rest : Bytes) :
    strstr (quoted k) (quoted k ++ e :: rest) = some (quoted k ++ e :: rest) := by
  rw [strstr_quoted hk he, if_pos (.inl rfl)]

theorem afterKeyColon_key {k : Text} {start rest : Bytes}
    (h : strstr (quoted k) start = some (quoted k ++ 0x3a :: rest)) : afterKeyColon start (quoted k) = some rest := by
  simp only [afterKeyColon, h, List.drop_left]
  rfl

theorem afterKeyColon_caught {k : Text} {start rest : Bytes} {e : Byte} (he : Ends e)
    (h : strstr (quoted k) start = some (quoted k ++ e :: rest)) : afterKeyColon start (quoted k) = none := by
  obtain ⟨hspace, hcolon⟩ := ends_notSpace he
  simp only [afterKeyColon, h, List.drop_left, List.dropWhile_cons, hspace, Bool.false_eq_true, if_false]
  split
  · rename_i heq
    cases heq
    exact absurd rfl hcolon
  · rfl

/-- A quoted text without escapes is read back. -/
theorem quotedValue_plain {s : Text} (hs : ∀ c ∈ s, Plain c) (rest : Bytes) :
    quotedValue (body s ++ 0x22 :: rest) = some (s.map UInt8.ofNat) := by
  rw [body_plain hs]
  induction s with
  | nil => simp [quotedValue]
  | cons c s ih =>
    have hc := plain_byte (hs c List.mem_cons_self)
    simp [quotedValue, hc.1, hc.2, ih (fun x hx => hs x (List.mem_cons_of_mem _ hx))]

theorem jsonStringValueAfter_key {k : Text} (hk : KeyWord k) {dup : Nat → Bool} (hdup : ∀ n, dup n = true) {s : Text}
    (hs : ∀ c ∈ s, Plain c) (rest : Bytes) :
    jsonStringValueAfter dup (quoted k ++ 0x3a :: 0x20 :: (quoted s ++ rest)) (quoted k) = some (s.map UInt8.ofNat) := by
  have hspace : (0x20 :: (quoted s ++ rest)).dropWhile isspace = 0x22 :: (body s ++ 0x22 :: rest) := by
    rw [quoted_append]
    rfl
  simp only [jsonStringValueAfter, afterKeyColon_key (strstr_found hk (.inr rfl) _), hspace, quotedValue_plain hs, hdup, if_true]

theorem decimalValue_digits (n : Nat) : decimalValue (digits n) = n := by
  have hfold : ∀ (l : List Char) (acc : Nat), (∀ c ∈ l, c.isDigit = true) →
      (l.map (fun c => UInt8.ofNat c.toNat)).foldl (fun acc d => acc * 10 + (d.toNat - 0x30)) acc =
        Nat.ofDigitChars 10 l acc := by
    intro l
    induction l with
    | nil => simp
    | cons c l ih =>
      intro acc hl
      have hc := hl c List.mem_cons_self
      simp only [Char.isDigit, Bool.and_eq_true, decide_eq_true_eq, UInt32.le_iff_toNat_le] at hc
      have hlt : c.toNat < 256 := by have : c.toNat ≤ 57 := hc.2; omega
      rw [List.map_cons, List.foldl_cons, ih _ (fun x hx => hl x (List.mem_cons_of_mem _ hx)), Nat.ofDigitChars_cons,
        UInt8.toNat_ofNat_of_lt' hlt, Nat.mul_comm acc 10]
      rfl
  rw [decimalValue, digits, hfold _ 0 (fun c hc => Nat.isDigit_of_mem_toDigits (by decide) (by decide) hc),
    Nat.ofDigitChars_ten_toDigits]

theorem isdigit_digits {n : Nat} {b : Byte} (hb : b ∈ digits n) : isdigit b = true := by
  obtain ⟨h1, h2⟩ := digits_isDigit n b hb
  simp [isdigit, h1, h2]

theorem takeWhile_digits (n : Nat) {e : Byte} (he : Ends e) (rest : Bytes) :
    (digits n ++ e :: rest).takeWhile isdigit = digits n := by
  have hend : isdigit e = false := by rcases he with rfl | rfl | rfl <;> decide
  rw [List.takeWhile_append_of_pos (fun b hb => isdigit_digits hb)]
  simp [hend]

theorem digits_ne_nil (n : Nat) : digits n ≠ [] := by
  simp [digits, Nat.toDigits_ne_nil]

/-- A decimal number is read back. -/
theorem strtol_decimal (n : Int) {e : Byte} (he : Ends e) (rest : Bytes) :
    strtol (0x20 :: (decimal n ++ e :: rest)) = some n := by
  cases n with
  | ofNat n =>
    obtain ⟨d, ds, hd⟩ := List.exists_cons_of_ne_nil (digits_ne_nil n)
    have hdig := digits_isDigit n d (by rw [hd]; exact List.mem_cons_self)
    have hspace : isspace d = false := by
      have h1 : ¬ d ≤ 0x0d := fun h => absurd (UInt8.le_trans hdig.1 h) (by decide)
      have h2 : d ≠ 0x20 := fun h => absurd (h ▸ hdig.1) (by decide)
      simp [isspace, h1, h2]
    have hminus : d ≠ 0x2d := fun h => absurd (h ▸ hdig.1) (by decide)
    have hplus : d ≠ 0x2b := fun h => absurd (h ▸ hdig.1) (by decide)
    have htake := takeWhile_digits n he rest
    have hval := decimalValue_digits n
    have hdrop : (0x20 :: (decimal (Int.ofNat n) ++ e :: rest)).dropWhile isspace = digits n ++ e :: rest := by
      simp only [decimal, List.dropWhile_cons, show isspace 0x20 = true from rfl, if_true]
      rw [hd]
      simp [hspace]
    simp only [strtol, hdrop]
    split
    · rename_i heq
      rw [hd] at heq
      cases heq
      exact absurd rfl hminus
    · rename_i heq
      rw [hd] at heq
      cases heq
      exact absurd rfl hplus
    · simp only [htake, digits_ne_nil n, if_false, hval]
      rfl
  | negSucc n =>
    have hdrop : (0x20 :: (decimal (Int.negSucc n) ++ e :: rest)).dropWhile isspace =
        0x2d :: (digits (n + 1) ++ e :: rest) := rfl
    simp only [strtol, hdrop, takeWhile_digits (n + 1) he rest, digits_ne_nil (n + 1), if_false,
      decimalValue_digits (n + 1)]
    rfl

end VirtiosoMux.Host
