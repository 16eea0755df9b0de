import Mathlib.Data.List.Chain
import VirtiosoMux.Library.JsonReader

/-! # JSON strings and numbers, written and read

What a reader returns for a string is a sequence of code points without the two halves of a
surrogate pair in a row, as the writer's escapes of these would be read as one. Such strings, all
integers and the floats of a reader are read as they were written.
-/
namespace VirtiosoMux.Json

def Scalar (c : Nat) : Prop := c < 0xd800 ∨ (0xe000 ≤ c ∧ c < 0x110000)

/-- Code points with no surrogate pair among them. -/
structure StringText (s : Text) : Prop where
  points : ∀ c ∈ s, c < 0x110000
  unpaired : s.IsChain (fun u v => ¬ (IsHigh u ∧ IsLow v))

theorem StringText.append {s t : Text} (hs : StringText s) (ht : StringText t)
    (h : ∀ u ∈ s.getLast?, ∀ v ∈ t.head?, ¬ (IsHigh u ∧ IsLow v)) : StringText (s ++ t) :=
  ⟨fun c hc => (List.mem_append.mp hc).elim (hs.points c) (ht.points c), hs.unpaired.append ht.unpaired h⟩

/-- ASCII text has no surrogates. -/
theorem stringText_ascii {s : Text} (h : ∀ c ∈ s, c < 0x80) : StringText s := by
  refine ⟨fun c hc => Nat.lt_trans (h c hc) (by decide), ?_⟩
  have hpairs : s.Pairwise (fun u v => ¬ (IsHigh u ∧ IsLow v)) := by
    refine List.Pairwise.imp_of_mem ?_ (List.pairwise_of_forall (R := fun _ _ => True) (fun _ _ => trivial) (l := s))
    intro u v hu _ _ hpair
    have hlt := h u hu
    have hhigh := hpair.1
    unfold IsHigh at hhigh
    omega
  exact hpairs.isChain

/-! ### Strings that are read -/

def StringUnit.Proper : StringUnit → Prop
  | .plain c => Scalar c
  | .escaped u => u < 0x10000

def StringPlace.Proper : StringPlace → Prop
  | .digits missing value => (value + 1) * 16 ^ (missing + 1) ≤ 0x10000
  | _ => True

theorem hexDigit_lt {c d : Nat} (h : hexDigit c = some d) : d < 16 := by
  unfold hexDigit at h
  split at h
  · cases h
    omega
  split at h
  · cases h
    omega
  split at h
  · cases h
    omega
  · cases h

theorem escapeLetter_lt {c u : Nat} (h : escapeLetter c = some u) : u < 0x10000 := by
  unfold escapeLetter at h
  repeat' split at h
  all_goals
    first
      | cases h
        omega
      | cases h

theorem scanUnits_proper {place : StringPlace} (hplace : place.Proper) {t rest : Text} (ht : ∀ c ∈ t, Scalar c)
    {us : List StringUnit} (h : scanUnits place t = some (us, rest)) : ∀ u ∈ us, u.Proper := by
  induction t generalizing place us with
  | nil => cases place <;> cases h
  | cons c t ih =>
    have htail : ∀ c ∈ t, Scalar c := fun x hx => ht x (List.mem_cons_of_mem _ hx)
    have hmap : ∀ {us x}, x.Proper → (scanUnits .between t).map (fun r => (x :: r.1, r.2)) = some (us, rest) →
        ∀ u ∈ us, u.Proper := by
      intro us x hx h
      obtain ⟨r, hr, heq⟩ := Option.map_eq_some_iff.mp h
      cases heq
      have hbetween : StringPlace.Proper .between := trivial
      exact List.forall_mem_cons.mpr ⟨hx, ih hbetween htail hr⟩
    cases place with
    | between =>
      rw [scanUnits] at h
      split at h
      · cases h
        exact List.forall_mem_nil _
      split at h
      · have hescape : StringPlace.Proper .backslash := trivial
        exact ih hescape htail h
      split at h
      · cases h
      · have hc : (StringUnit.plain c).Proper := ht c List.mem_cons_self
        exact hmap hc h
    | backslash =>
      rw [scanUnits] at h
      split at h
      · have hstart : (StringPlace.digits 3 0).Proper := Nat.le_refl _
        exact ih hstart htail h
      · split at h
        · cases h
        · rename_i u hu
          have hproper : (StringUnit.escaped u).Proper := escapeLetter_lt hu
          exact hmap hproper h
    | digits missing value =>
      change (value + 1) * 16 ^ (missing + 1) ≤ 0x10000 at hplace
      rw [scanUnits.eq_def] at h
      dsimp only at h
      split at h
      · cases h
      · rename_i d hd
        have hlt := hexDigit_lt hd
        refine hmap ?_ h
        change value * 16 + d < 0x10000
        omega
      · rename_i d missing hd
        have hlt := hexDigit_lt hd
        have hnext : (StringPlace.digits missing (value * 16 + d)).Proper := by
          calc (value * 16 + d + 1) * 16 ^ (missing + 1)
              ≤ ((value + 1) * 16) * 16 ^ (missing + 1) := Nat.mul_le_mul_right _ (by omega)
            _ = (value + 1) * 16 ^ (missing + 1 + 1) := by rw [Nat.mul_assoc, ← Nat.pow_succ']
            _ ≤ 0x10000 := hplace
        exact ih hnext htail h

/-- Only an escape of its own brings the lower half of a pair. -/
theorem combine_low {us : List StringUnit} (hus : ∀ u ∈ us, u.Proper) {v : Nat} (hv : (combine us).head? = some v)
    (hlow : IsLow v) : us.head? = some (.escaped v) := by
  have hscalar : ∀ {c}, StringUnit.plain c ∈ us → ¬ IsLow c := by
    intro c hc hlow
    have hproper : Scalar c := hus _ hc
    unfold Scalar at hproper
    unfold IsLow at hlow
    omega
  unfold combine at hv
  split at hv
  · cases hv
  · cases hv
    exact absurd hlow (hscalar List.mem_cons_self)
  · cases hv
    rfl
  · cases hv
    rfl
  · split at hv
    · have heq := Option.some.inj hv
      unfold IsLow at hlow
      omega
    · cases hv
      rfl

theorem combine_text {us : List StringUnit} (hus : ∀ u ∈ us, u.Proper) : StringText (combine us) := by
  have htail : ∀ {u us}, (∀ x ∈ u :: us, StringUnit.Proper x) → ∀ x ∈ us, x.Proper :=
    fun h x hx => h x (List.mem_cons_of_mem _ hx)
  have hscalar : ∀ {c}, StringUnit.Proper (.plain c) → c < 0x110000 ∧ ¬ IsHigh c ∧ ¬ IsLow c := by
    intro c hc
    change Scalar c at hc
    unfold Scalar at hc
    unfold IsHigh IsLow
    omega
  fun_induction combine us with
  | case1 => exact ⟨List.forall_mem_nil _, .nil⟩
  | case2 c rest ih =>
    obtain ⟨hlt, hhigh, -⟩ := hscalar (hus _ List.mem_cons_self)
    obtain ⟨hpoints, hchain⟩ := ih (htail hus)
    exact ⟨List.forall_mem_cons.mpr ⟨hlt, hpoints⟩, hchain.cons (fun _ _ h => hhigh h.1)⟩
  | case3 u =>
    have hlt : u < 0x10000 := hus _ List.mem_cons_self
    exact ⟨List.forall_mem_singleton.mpr (by omega), .singleton _⟩
  | case4 u c rest ih =>
    have hlt : u < 0x10000 := hus _ List.mem_cons_self
    obtain ⟨hc, hhigh, hlow⟩ := hscalar (htail hus _ List.mem_cons_self)
    obtain ⟨hpoints, hchain⟩ := ih (htail (htail hus))
    refine ⟨List.forall_mem_cons.mpr ⟨by omega, List.forall_mem_cons.mpr ⟨hc, hpoints⟩⟩, ?_⟩
    refine (hchain.cons (fun _ _ h => hhigh h.1)).cons ?_
    intro y hy h
    cases hy
    exact hlow h.2
  | case5 u v rest hpair ih =>
    obtain ⟨hpoints, hchain⟩ := ih (htail (htail hus))
    unfold IsHigh IsLow at hpair
    refine ⟨List.forall_mem_cons.mpr ⟨by omega, hpoints⟩, hchain.cons ?_⟩
    intro y _ h
    have hhigh := h.1
    unfold IsHigh at hhigh
    omega
  | case6 u v rest hpair ih =>
    have hlt : u < 0x10000 := hus _ List.mem_cons_self
    obtain ⟨hpoints, hchain⟩ := ih (htail hus)
    refine ⟨List.forall_mem_cons.mpr ⟨by omega, hpoints⟩, hchain.cons ?_⟩
    intro y hy h
    have hhead := combine_low (htail hus) hy h.2
    cases hhead
    exact hpair h

theorem scanString_text {t rest s : Text} (ht : ∀ c ∈ t, Scalar c) (h : scanString t = some (s, rest)) : StringText s := by
  obtain ⟨r, hr, heq⟩ := Option.map_eq_some_iff.mp h
  cases heq
  have hbetween : StringPlace.Proper .between := trivial
  exact combine_text (scanUnits_proper hbetween ht hr)

/-! ### Strings that were written -/

def unitsOf (c : Nat) : List StringUnit :=
  if Plain c then [.plain c]
  else if c < 0x10000 then [.escaped c]
  else [.escaped (0xd800 + (c - 0x10000) / 0x400 % 0x400), .escaped (0xdc00 + (c - 0x10000) % 0x400)]

theorem hexDigit_lowerHex (n : Nat) : hexDigit (lowerHex (n % 16)).toNat = some (n % 16) := by
  have hall : ∀ d < 16, hexDigit (lowerHex d).toNat = some d := by decide
  exact hall _ (Nat.mod_lt n (by decide))

theorem scanUnits_unicode {n : Nat} (hn : n < 0x10000) (t : Text) :
    scanUnits .between (ofBytes (unicodeEscape n) ++ t) = (scanUnits .between t).map (fun r => (.escaped n :: r.1, r.2)) := by
  have hvalue : (((0 * 16 + n / 4096 % 16) * 16 + n / 256 % 16) * 16 + n / 16 % 16) * 16 + n % 16 = n := by omega
  simp only [unicodeEscape, ofBytes_cons, ofBytes_nil, List.cons_append, List.nil_append]
  rw [scanUnits, if_neg (by decide), if_pos (by decide), scanUnits, if_pos (by decide)]
  simp only [scanUnits, hexDigit_lowerHex, hvalue]

theorem scanUnits_short {e : UInt8} {c : Nat} (h : escapeLetter e.toNat = some c) (t : Text) :
    scanUnits .between (ofBytes [0x5c, e] ++ t) = (scanUnits .between t).map (fun r => (.escaped c :: r.1, r.2)) := by
  have hne : e.toNat ≠ 0x75 := by
    intro heq
    have hnone : escapeLetter 0x75 = none := by decide
    rw [heq, hnone] at h
    cases h
  simp only [ofBytes_cons, ofBytes_nil, List.cons_append, List.nil_append]
  rw [scanUnits, if_neg (by decide), if_pos (by decide), scanUnits, if_neg hne, h]

theorem scanUnits_escape {c : Nat} (hc : c < 0x110000) (t : Text) :
    scanUnits .between (ofBytes (escape c) ++ t) = (scanUnits .between t).map (fun r => (unitsOf c ++ r.1, r.2)) := by
  by_cases hplain : Plain c
  · obtain ⟨hlow, hhigh, hquote, hback⟩ := id hplain
    rw [escape_plain hplain, unitsOf, if_pos hplain]
    simp only [ofBytes_cons, ofBytes_nil, List.cons_append, List.nil_append]
    rw [UInt8.toNat_ofNat_of_lt' (show c < 256 by omega), scanUnits, if_neg hquote, if_neg hback, if_neg (by omega)]
  have hshort : ∀ e : UInt8, escapeLetter e.toNat = some c → c < 0x10000 →
      scanUnits .between (ofBytes [0x5c, e] ++ t) = (scanUnits .between t).map (fun r => (unitsOf c ++ r.1, r.2)) := by
    intro e he hlt
    rw [unitsOf, if_neg hplain, if_pos hlt]
    exact scanUnits_short he t
  unfold escape
  split
  · rename_i heq
    exact hshort 0x22 (heq ▸ rfl) (by omega)
  split
  · rename_i heq
    exact hshort 0x5c (heq ▸ rfl) (by omega)
  split
  · rename_i heq
    exact hshort 0x6e (heq ▸ rfl) (by omega)
  split
  · rename_i heq
    exact hshort 0x72 (heq ▸ rfl) (by omega)
  split
  · rename_i heq
    exact hshort 0x74 (heq ▸ rfl) (by omega)
  split
  · rename_i heq
    exact hshort 0x66 (heq ▸ rfl) (by omega)
  split
  · rename_i heq
    exact hshort 0x62 (heq ▸ rfl) (by omega)
  split
  · rename_i hquote hback _ _ _ _ _ hrange
    exact absurd ⟨hrange.1, hrange.2, hquote, hback⟩ hplain
  split
  · rename_i hlt
    rw [unitsOf, if_neg hplain, if_pos hlt]
    exact scanUnits_unicode hlt t
  · rename_i hge
    rw [unitsOf, if_neg hplain, if_neg hge, ofBytes_append, List.append_assoc, scanUnits_unicode (by omega),
      scanUnits_unicode (by omega), Option.map_map]
    rfl

theorem scanUnits_body {s : Text} (hs : ∀ c ∈ s, c < 0x110000) (t : Text) :
    scanUnits .between (ofBytes (body s) ++ 0x22 :: t) = some (s.flatMap unitsOf, t) := by
  induction s with
  | nil => rfl
  | cons c s ih =>
    have hrest := ih (fun x hx => hs x (List.mem_cons_of_mem _ hx))
    rw [body, List.flatMap_cons, ofBytes_append, List.append_assoc, scanUnits_escape (hs c List.mem_cons_self)]
    rw [body] at hrest
    rw [hrest, List.flatMap_cons]
    rfl

theorem combine_escaped {u : Nat} {us : List StringUnit} (h : ∀ v, us.head? = some (.escaped v) → ¬ (IsHigh u ∧ IsLow v)) :
    combine (.escaped u :: us) = u :: combine us := by
  cases us with
  | nil => rfl
  | cons x us =>
    cases x with
    | plain c => rfl
    | escaped v => rw [combine, if_neg (h v rfl)]

/-- The halves that the writer makes of a code point are joined to it again, and to nothing else. -/
theorem combine_unitsOf {s : Text} (hs : StringText s) : combine (s.flatMap unitsOf) = s := by
  obtain ⟨hpoints, hchain⟩ := hs
  induction s with
  | nil => rfl
  | cons c s ih =>
    obtain ⟨hnext, htail⟩ := List.isChain_cons.mp hchain
    have hrest := ih (fun x hx => hpoints x (List.mem_cons_of_mem _ hx)) htail
    have hc := hpoints c List.mem_cons_self
    rw [List.flatMap_cons, unitsOf]
    split
    · exact congrArg (c :: ·) hrest
    split
    · rw [List.singleton_append, combine_escaped, hrest]
      intro v hv hpair
      cases s with
      | nil => cases hv
      | cons e s =>
        rw [List.flatMap_cons, unitsOf] at hv
        -- the next escape is that of the next code point, or an upper half
        split at hv
        · cases hv
        split at hv
        · cases hv
          exact hnext _ rfl hpair
        · have heq : StringUnit.escaped _ = StringUnit.escaped v := Option.some.inj hv
          have hhalf := StringUnit.escaped.inj heq
          have hlow := hpair.2
          unfold IsLow at hlow
          omega
    · have hpair : IsHigh (0xd800 + (c - 0x10000) / 0x400 % 0x400) ∧ IsLow (0xdc00 + (c - 0x10000) % 0x400) := by
        unfold IsHigh IsLow
        omega
      have hjoined : 0x10000 + (0xd800 + (c - 0x10000) / 0x400 % 0x400 - 0xd800) * 0x400 +
          (0xdc00 + (c - 0x10000) % 0x400 - 0xdc00) = c := by omega
      rw [List.cons_append, List.singleton_append, combine, if_pos hpair, hrest, hjoined]

/-- A string is read as it was written. -/
theorem scanString_body {s : Text} (hs : StringText s) (t : Text) :
    scanString (ofBytes (body s) ++ 0x22 :: t) = some (s, t) := by
  rw [scanString, scanUnits_body hs.points, Option.map_some, combine_unitsOf hs]

/-! ### Numbers -/

def Stops (t : Text) : Prop := ∀ c, t.head? = some c → c ∉ codes "0123456789+-.eE"

theorem Stops.notDigit {c : Nat} {t : Text} (h : Stops (c :: t)) : isDigit c = false := by
  have hnot := h c rfl
  have hmem : ∀ d < 10, 0x30 + d ∈ codes "0123456789+-.eE" := by decide
  apply Bool.eq_false_of_not_eq_true
  intro hdigit
  simp only [isDigit, Bool.and_eq_true, decide_eq_true_eq] at hdigit
  have hthis := hmem (c - 0x30) (by omega)
  rw [show 0x30 + (c - 0x30) = c by omega] at hthis
  exact hnot hthis

theorem scanSign_append {t : Text} (ht : t ≠ []) (rest : Text) :
    scanSign (t ++ rest) = ((scanSign t).1, (scanSign t).2 ++ rest) := by
  cases t with
  | nil => exact absurd rfl ht
  | cons c t =>
    rw [List.cons_append, scanSign, scanSign]
    split <;> rfl

section Stopped
variable {rest : Text} (hrest : Stops rest)
include hrest

theorem scanDigits_append (t : Text) : scanDigits (t ++ rest) = ((scanDigits t).1, (scanDigits t).2 ++ rest) := by
  induction t with
  | nil =>
    cases rest with
    | nil => rfl
    | cons c rest => simp [scanDigits, hrest.notDigit]
  | cons c t ih =>
    simp only [scanDigits, Prod.mk.injEq] at ih ⊢
    rw [List.cons_append]
    cases hdigit : isDigit c with
    | true =>
      simp only [List.takeWhile_cons_of_pos hdigit, List.dropWhile_cons_of_pos hdigit]
      exact ⟨congrArg (c :: ·) ih.1, ih.2⟩
    | false => simp [hdigit]

theorem Stops.ne {c : Nat} (hc : c ∈ codes "0123456789+-.eE") : rest.head? ≠ some c := fun h => hrest c h hc

theorem scanWhole_append {t u ds : Text} (h : scanWhole t = some (ds, u)) : scanWhole (t ++ rest) = some (ds, u ++ rest) := by
  cases t with
  | nil => cases h
  | cons c t =>
    rw [scanWhole] at h
    rw [List.cons_append, scanWhole]
    split at h
    · rename_i hzero
      cases h
      rw [if_pos hzero]
    split at h
    · rename_i hzero hdigit
      cases h
      rw [if_neg hzero, if_pos hdigit, ← List.cons_append, scanDigits_append hrest]
      rfl
    · cases h

theorem scanFraction_append (t : Text) : scanFraction (t ++ rest) = ((scanFraction t).1, (scanFraction t).2 ++ rest) := by
  cases t with
  | nil =>
    cases rest with
    | nil => rfl
    | cons c rest =>
      have hdot : ¬ (c = 0x2e ∧ (scanDigits rest).1 ≠ []) := by
        rintro ⟨rfl, -⟩
        exact hrest.ne (by decide) rfl
      simp only [List.nil_append, scanFraction, if_neg hdot]
  | cons c t =>
    rw [List.cons_append, scanFraction, scanFraction, scanDigits_append hrest]
    split <;> rfl

theorem scanExponentSign_append (t : Text) :
    scanExponentSign (t ++ rest) = ((scanExponentSign t).1, (scanExponentSign t).2 ++ rest) := by
  cases t with
  | nil =>
    cases rest with
    | nil => rfl
    | cons c rest =>
      have hsign : ¬ (c = 0x2d ∨ c = 0x2b) := by
        rintro (rfl | rfl) <;> exact hrest.ne (by decide) rfl
      simp only [List.nil_append, scanExponentSign, if_neg hsign]
  | cons c t =>
    rw [List.cons_append, scanExponentSign, scanExponentSign]
    split <;> rfl

theorem scanExponent_append (t : Text) : scanExponent (t ++ rest) = ((scanExponent t).1, (scanExponent t).2 ++ rest) := by
  cases t with
  | nil =>
    cases rest with
    | nil => rfl
    | cons c rest =>
      have hletter : ¬ (c = 0x65 ∨ c = 0x45) := by
        rintro (rfl | rfl) <;> exact hrest.ne (by decide) rfl
      simp only [List.nil_append, scanExponent, hletter, false_and, if_false]
  | cons c t =>
    rw [List.cons_append, scanExponent, scanExponent, scanExponentSign_append hrest, scanDigits_append hrest]
    split <;> rfl

/-- A number ends where it ends alone. -/
theorem scanNumber_append {t u : Text} {n : NumberText} (h : scanNumber t = some (n, u)) :
    scanNumber (t ++ rest) = some (n, u ++ rest) := by
  have ht : t ≠ [] := by
    rintro rfl
    cases h
  unfold scanNumber at h ⊢
  rw [scanSign_append ht]
  cases hwhole : scanWhole (scanSign t).2 with
  | none =>
    rw [hwhole] at h
    cases h
  | some r =>
    obtain ⟨ds, v⟩ := r
    rw [hwhole] at h
    cases h
    rw [scanWhole_append hrest hwhole]
    simp only [scanFraction_append hrest, scanExponent_append hrest]

end Stopped

theorem scanDigits_digits (n : Nat) : scanDigits (ofBytes (digits n)) = (ofBytes (digits n), []) := by
  have hall : ∀ c ∈ ofBytes (digits n), isDigit c = true := by
    intro c hc
    obtain ⟨b, hb, rfl⟩ := List.mem_map.mp hc
    obtain ⟨hlow, hhigh⟩ := digits_isDigit n b hb
    rw [UInt8.le_iff_toNat_le] at hlow hhigh
    exact Bool.and_eq_true_iff.mpr ⟨decide_eq_true hlow, decide_eq_true hhigh⟩
  rw [scanDigits, List.takeWhile_eq_self_iff.mpr hall, List.dropWhile_eq_nil_iff.mpr hall]

theorem scanWhole_digits (n : Nat) : scanWhole (ofBytes (digits n)) = some (ofBytes (digits n), []) := by
  obtain ⟨d, ds, hd, hzero⟩ := Decimals.digits_cons n
  have hdigits := scanDigits_digits n
  rw [hd, ofBytes_cons] at hdigits ⊢
  rw [scanWhole]
  split
  · rename_i hd0
    have hnil : ds = [] := hzero (UInt8.toNat_inj.mp hd0)
    rw [hnil]
    rfl
  · have hdigit : isDigit d.toNat = true := by
      by_contra hnot
      rw [scanDigits, List.takeWhile_cons_of_neg hnot] at hdigits
      cases hdigits
    rw [if_pos hdigit, hdigits]

theorem number_ofBytes_digits (n : Nat) : Decimals.number ((ofBytes (digits n)).map UInt8.ofNat) = n := by
  have hsame : (ofBytes (digits n)).map UInt8.ofNat = digits n := by
    rw [ofBytes, List.map_map]
    exact List.map_id'' (fun b => UInt8.ofNat_toNat) _
  rw [hsame, Decimals.number_digits]

/-- An integer is read as it was written. -/
theorem scanNumber_decimal (n : Int) : ∃ m, scanNumber (ofBytes (decimal n)) = some (m, []) ∧ m.tail = [] ∧ m.int = n := by
  have hsign : ∀ k, scanSign (ofBytes (digits k)) = ([], ofBytes (digits k)) := by
    intro k
    obtain ⟨d, ds, hd, -⟩ := Decimals.digits_cons k
    have hminus : d.toNat ≠ 0x2d := by
      obtain ⟨hlow, -⟩ := digits_isDigit k d (by rw [hd]; exact List.mem_cons_self)
      rw [UInt8.le_iff_toNat_le] at hlow
      have hbound : 0x30 ≤ d.toNat := hlow
      omega
    rw [hd, ofBytes_cons, scanSign, if_neg hminus]
  cases n with
  | ofNat k =>
    refine ⟨⟨[], ofBytes (digits k), []⟩, ?_, rfl, ?_⟩
    · simp only [scanNumber, decimal, hsign, scanWhole_digits, scanFraction, scanExponent, List.append_nil]
    · rw [NumberText.int, number_ofBytes_digits]
      rfl
  | negSucc k =>
    refine ⟨⟨[0x2d], ofBytes (digits (k + 1)), []⟩, ?_, rfl, ?_⟩
    · have hminus : scanSign (ofBytes (decimal (.negSucc k))) = ([0x2d], ofBytes (digits (k + 1))) := rfl
      simp only [scanNumber, hminus, scanWhole_digits, scanFraction, scanExponent, List.append_nil]
    · rw [NumberText.int, number_ofBytes_digits]
      rfl

end VirtiosoMux.Json
