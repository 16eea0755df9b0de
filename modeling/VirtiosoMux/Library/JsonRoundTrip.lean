import VirtiosoMux.Library.JsonMembers
import VirtiosoMux.Library.JsonStrings

/-! # JSON documents, written and read

Every document that the reader returns has distinct keys, strings without surrogate pairs and floats
that are their own `repr`. A document with these properties is written by `json.dumps` so that
`json.loads` returns it again.
-/
namespace VirtiosoMux.Json
variable (F : FloatReader)

inductive Document.Decoded : Document → Prop
  | null : Document.null.Decoded
  | bool (b : Bool) : (Document.bool b).Decoded
  | int (n : Int) : (Document.int n).Decoded
  | float {x : FloatText} (h : IsRepr F.read x) : (Document.float x).Decoded
  | str {s : Text} (h : StringText s) : (Document.str s).Decoded
  | arr {items : List Document} (h : ∀ d ∈ items, d.Decoded) : (Document.arr items).Decoded
  | obj {members : List (Text × Document)} (hkeys : (members.map Prod.fst).Nodup) (htexts : ∀ m ∈ members, StringText m.1)
      (h : ∀ m ∈ members, m.2.Decoded) : (Document.obj members).Decoded

/-! ### Documents that are read -/

def Part.Decoded : Part → Prop
  | .value d => d.Decoded F
  | .items ds => ∀ d ∈ ds, d.Decoded F
  | .members ms => ∀ m ∈ ms, StringText m.1 ∧ m.2.Decoded F

theorem names_decoded : ∀ n ∈ names, n.2.Decoded F := by
  have hname : ∀ {s : String} {letters}, ofBytes ((codes s).map UInt8.ofNat) ∈ floatNames → (floatName s letters).Decoded F :=
    fun h => .float (.inr h)
  intro n hn
  simp only [names, List.mem_cons, List.not_mem_nil, or_false] at hn
  rcases hn with rfl | rfl | rfl | rfl | rfl | rfl
  · exact .null
  · exact .bool true
  · exact .bool false
  · exact hname (by decide)
  · exact hname (by decide)
  · exact hname (by decide)

theorem scanAtom_decoded {t rest : Text} {d : Document} (ht : ∀ c ∈ t, Scalar c) (h : scanAtom F t = some (d, rest)) :
    d.Decoded F := by
  cases t with
  | nil => cases h
  | cons c t =>
    simp only [scanAtom] at h
    split at h
    · obtain ⟨r, hr, heq⟩ := Option.map_eq_some_iff.mp h
      cases heq
      exact .str (scanString_text (fun x hx => ht x (List.mem_cons_of_mem _ hx)) hr)
    split at h
    · rename_i n u _
      cases h
      split
      · exact .int _
      · exact .float (F.repr _)
    · obtain ⟨n, hn, heq⟩ := Option.map_eq_some_iff.mp h
      cases heq
      exact names_decoded F n (List.mem_of_find?_eq_some hn)

theorem scanKey_text {t key s : Text} (ht : ∀ c ∈ t, Scalar c) (h : scanKey t = some (key, s)) : StringText key := by
  cases t with
  | nil => cases h
  | cons c t =>
    rw [scanKey] at h
    split at h
    swap
    · cases h
    split at h
    · cases h
    rename_i hstring
    split at h
    · cases h
    split at h
    · cases h
      exact scanString_text (fun x hx => ht x (List.mem_cons_of_mem _ hx)) hstring
    · cases h

variable {F}

theorem Scans.decoded {t rest : Text} {p : Part} (h : Scans F t p rest) (ht : ∀ c ∈ t, Scalar c) : p.Decoded F := by
  have htail : ∀ {c : Nat} {t u : Text}, (∀ x ∈ c :: t, Scalar x) → u <:+ t → ∀ x ∈ u, Scalar x :=
    fun h hu x hx => h x (List.mem_cons_of_mem _ (hu.subset hx))
  have hsuffix : ∀ {t u : Text}, (∀ x ∈ t, Scalar x) → u <:+ t → ∀ x ∈ u, Scalar x := fun h hu x hx => h x (hu.subset hx)
  induction h with
  | atom _ _ h => exact scanAtom_decoded F ht h
  | noItems => exact .arr (List.forall_mem_nil _)
  | arr _ _ ih => exact .arr (ih (htail ht (skipSpace_suffix _)))
  | lastItem _ _ ih => exact List.forall_mem_singleton.mpr (ih ht)
  | item h hu _ ih ihmore =>
    have hmore := (skipSpace_suffix _).trans ((tail_suffix hu).trans h.rest.1)
    exact List.forall_mem_cons.mpr ⟨ih ht, ihmore (hsuffix ht hmore)⟩
  | noMembers => exact .obj List.nodup_nil (List.forall_mem_nil _) (List.forall_mem_nil _)
  | obj _ _ ih =>
    have hmembers := ih (htail ht (skipSpace_suffix _))
    exact .obj (ofPairs_keys _) (fun m hm => (hmembers m (mem_ofPairs hm)).1) (fun m hm => (hmembers m (mem_ofPairs hm)).2)
  | lastMember hkey _ _ ih =>
    exact List.forall_mem_singleton.mpr ⟨scanKey_text ht hkey, ih (hsuffix ht (scanKey_rest hkey).1)⟩
  | member hkey h hu _ ih ihmore =>
    have hmore := (skipSpace_suffix _).trans ((tail_suffix hu).trans (h.rest.1.trans (scanKey_rest hkey).1))
    exact List.forall_mem_cons.mpr
      ⟨⟨scanKey_text ht hkey, ih (hsuffix ht (scanKey_rest hkey).1)⟩, ihmore (hsuffix ht hmore)⟩

theorem loads_decoded {t : Text} {d : Document} (ht : ∀ c ∈ t, Scalar c) (h : loads F t = some d) : d.Decoded F := by
  obtain ⟨rest, hscans, -⟩ := (loads_eq_some_iff F).mp h
  exact hscans.decoded fun c hc => ht c ((skipSpace_suffix t).subset hc)

/-! ### Documents that were written -/

def Blank (b : List UInt8) : Prop := ∀ x ∈ b, isSpace x.toNat = true

theorem skipSpace_blank {b : List UInt8} (hb : Blank b) (t : Text) : skipSpace (ofBytes b ++ t) = skipSpace t := by
  refine List.dropWhile_append_of_pos ?_
  intro c hc
  obtain ⟨x, hx, rfl⟩ := List.mem_map.mp hc
  exact hb x hx

theorem blank_newline (o : DumpOptions) (level : Nat) : Blank (o.newline level) := by
  intro x hx
  unfold DumpOptions.newline at hx
  split at hx
  · cases hx
  · rcases List.mem_cons.mp hx with rfl | hx
    · rfl
    · rw [List.eq_of_mem_replicate hx]
      rfl

theorem itemSeparator_eq (o : DumpOptions) (level : Nat) : ∃ gap, o.itemSeparator level = 0x2c :: gap ∧ Blank gap := by
  unfold DumpOptions.itemSeparator
  split
  · exact ⟨[0x20], rfl, List.forall_mem_singleton.mpr rfl⟩
  · exact ⟨o.newline level, rfl, blank_newline o level⟩

theorem stops_blank {b : List UInt8} (hb : Blank b) {c : Nat} (hc : c ∉ codes "0123456789+-.eE") (t : Text) :
    Stops (ofBytes b ++ c :: t) := by
  intro d hd
  cases b with
  | nil =>
    cases hd
    exact hc
  | cons x b =>
    cases hd
    have hspace := hb x List.mem_cons_self
    simp only [isSpace, Bool.or_eq_true, beq_iff_eq] at hspace
    have hall : ∀ d ∈ [0x20, 0x09, 0x0a, 0x0d], d ∉ codes "0123456789+-.eE" := by decide
    exact hall _ (by simpa [or_assoc] using hspace)

theorem stops_cons {c : Nat} (hc : c ∉ codes "0123456789+-.eE") (t : Text) : Stops (c :: t) :=
  stops_blank (b := []) (List.forall_mem_nil _) hc t

theorem scanAtom_space {c : Nat} (hc : isSpace c = true) (t : Text) : scanAtom F (c :: t) = none := by
  simp only [isSpace, Bool.or_eq_true, beq_iff_eq] at hc
  rcases hc with ((rfl | rfl) | rfl) | rfl <;> rfl

/-- A value begins behind the white space. -/
theorem Scans.start {t rest : Text} {p : Part} (h : Scans F t p rest) :
    skipSpace t = t ∧ t.head? ≠ some 0x5d ∧ t.head? ≠ some 0x7d := by
  have hopen : ∀ {c : Nat} {t : Text}, isSpace c = false → c ≠ 0x5d → c ≠ 0x7d →
      skipSpace (c :: t) = c :: t ∧ (c :: t).head? ≠ some 0x5d ∧ (c :: t).head? ≠ some 0x7d := by
    intro c t hspace ha ho
    refine ⟨List.dropWhile_cons_of_neg (by simp [hspace]), ?_, ?_⟩
    · exact fun heq => ha (Option.some.inj heq)
    · exact fun heq => ho (Option.some.inj heq)
  have hkeyStart : ∀ {t key s : Text}, scanKey t = some (key, s) →
      skipSpace t = t ∧ t.head? ≠ some 0x5d ∧ t.head? ≠ some 0x7d := by
    intro t key s hkey
    cases t with
    | nil => cases hkey
    | cons c t =>
      rw [scanKey] at hkey
      split at hkey
      · rename_i hc
        subst hc
        exact hopen rfl (by decide) (by decide)
      · cases hkey
  induction h with
  | @atom c t rest d _ _ h =>
    refine hopen ?_ ?_ ?_
    · apply Bool.eq_false_of_not_eq_true
      intro hspace
      rw [scanAtom_space hspace] at h
      cases h
    · rintro rfl
      cases h
    · rintro rfl
      cases h
  | noItems => exact hopen rfl (by decide) (by decide)
  | arr => exact hopen rfl (by decide) (by decide)
  | lastItem _ _ ih => exact ih
  | item _ _ _ ih => exact ih
  | noMembers => exact hopen rfl (by decide) (by decide)
  | obj => exact hopen rfl (by decide) (by decide)
  | lastMember hkey => exact hkeyStart hkey
  | member hkey => exact hkeyStart hkey

/-- A text that is read as the value, whatever stands behind it. -/
def ReadsAs (F : FloatReader) (b : List UInt8) (d : Document) : Prop :=
  ∀ rest, Stops rest → Scans F (ofBytes b ++ rest) (.value d) rest

theorem readsAs_str {s : Text} (hs : StringText s) : ReadsAs F (quoted s) (.str s) := by
  intro rest _
  have hstring : scanAtom F (0x22 :: (ofBytes (body s) ++ 0x22 :: rest)) = some (.str s, rest) := by
    rw [scanAtom, if_pos rfl, scanString_body hs]
    rfl
  have htext : ofBytes (quoted s) ++ rest = 0x22 :: (ofBytes (body s) ++ 0x22 :: rest) := by
    simp [quoted, show (0x22 : UInt8).toNat = 0x22 from rfl]
  rw [htext]
  exact .atom (by decide) (by decide) hstring

theorem scanWhole_head {t u ds : Text} (h : scanWhole t = some (ds, u)) : ∃ c t', t = c :: t' ∧ isDigit c = true := by
  cases t with
  | nil => cases h
  | cons c t =>
    refine ⟨c, t, rfl, ?_⟩
    rw [scanWhole] at h
    split at h
    · rename_i hc
      rw [hc]
      rfl
    split at h
    · assumption
    · cases h

/-- A number begins with a digit or a minus sign. -/
theorem scanNumber_head {t u : Text} {n : NumberText} (h : scanNumber t = some (n, u)) :
    ∃ c t', t = c :: t' ∧ (isDigit c = true ∨ c = 0x2d) := by
  unfold scanNumber at h
  split at h
  · cases h
  rename_i hwhole
  obtain ⟨d, t', heq, hdigit⟩ := scanWhole_head hwhole
  cases t with
  | nil => cases heq
  | cons c t =>
    refine ⟨c, t, rfl, ?_⟩
    rw [scanSign] at heq
    split at heq
    · rename_i hc
      exact .inr hc
    · cases heq
      exact .inl hdigit

theorem scans_number {t u : Text} {n : NumberText} (h : scanNumber t = some (n, u)) :
    Scans F t (.value (if n.tail = [] then .int n.int else .float (F.read n.text))) u := by
  obtain ⟨c, t', rfl, hc⟩ := scanNumber_head h
  have hne : c ≠ 0x22 ∧ c ≠ 0x5b ∧ c ≠ 0x7b := by
    rcases hc with hc | rfl
    · simp only [isDigit, Bool.and_eq_true, decide_eq_true_eq] at hc
      omega
    · decide
  refine .atom hne.2.1 hne.2.2 ?_
  rw [scanAtom, if_neg hne.1, h]

theorem readsAs_int (n : Int) : ReadsAs F (decimal n) (.int n) := by
  intro rest hrest
  obtain ⟨m, hm, htail, hint⟩ := scanNumber_decimal n
  have hscan := scans_number (F := F) (scanNumber_append hrest hm)
  rw [if_pos htail, hint] at hscan
  exact hscan

/-- The text of a number is what has been taken. -/
theorem scanNumber_text {t u : Text} {n : NumberText} (h : scanNumber t = some (n, u)) : t = n.text ++ u := by
  have hsign : (scanSign t).1 ++ (scanSign t).2 = t := by
    cases t with
    | nil => rfl
    | cons c t =>
      rw [scanSign]
      split <;> rfl
  have hdigits : ∀ t : Text, (scanDigits t).1 ++ (scanDigits t).2 = t := fun t => List.takeWhile_append_dropWhile
  have hwhole : ∀ {t ds u : Text}, scanWhole t = some (ds, u) → ds ++ u = t := by
    intro t ds u h
    cases t with
    | nil => cases h
    | cons c t =>
      rw [scanWhole] at h
      split at h
      · cases h
        rfl
      split at h
      · cases h
        exact hdigits (c :: t)
      · cases h
  have hfraction : ∀ t : Text, (scanFraction t).1 ++ (scanFraction t).2 = t := by
    intro t
    cases t with
    | nil => rfl
    | cons c t =>
      rw [scanFraction]
      split
      · exact congrArg (c :: ·) (hdigits t)
      · rfl
  have hexponent : ∀ t : Text, (scanExponent t).1 ++ (scanExponent t).2 = t := by
    intro t
    cases t with
    | nil => rfl
    | cons c t =>
      have hexpSign : (scanExponentSign t).1 ++ (scanExponentSign t).2 = t := by
        cases t with
        | nil => rfl
        | cons d t =>
          rw [scanExponentSign]
          split <;> rfl
      rw [scanExponent]
      split
      · change c :: ((scanExponentSign t).1 ++ (scanDigits (scanExponentSign t).2).1 ++ (scanDigits (scanExponentSign t).2).2) =
          c :: t
        rw [List.append_assoc, hdigits, hexpSign]
      · rfl
  unfold scanNumber at h
  split at h
  · cases h
  rename_i hw
  cases h
  simp only [NumberText.text, List.append_assoc, hexponent, hfraction, hwhole hw, hsign]

theorem readsAs_float {x : FloatText} (hx : IsRepr F.read x) : ReadsAs F x.text (.float x) := by
  intro rest hrest
  rcases hx with ⟨n, hn, htail, hread⟩ | hname
  · have hscan := scans_number (F := F) (scanNumber_append hrest hn)
    have htext := scanNumber_text hn
    rw [List.append_nil] at htext
    rw [if_neg htail, ← htext, hread] at hscan
    exact hscan
  · have hsame : ∀ {s : String} (letters), ofBytes x.text = codes s → (∀ c ∈ codes s, c < 256) →
        .float x = floatName s letters := by
      intro s letters hs hbytes
      have hbytes' : x.text = (codes s).map UInt8.ofNat := by
        rw [← hs, ofBytes, List.map_map]
        exact (List.map_id'' (fun b => UInt8.ofNat_toNat) _).symm
      rw [floatName]
      congr 1
      cases x
      cases hbytes'
      rfl
    simp only [floatNames, List.mem_cons, List.not_mem_nil, or_false] at hname
    rcases hname with hname | hname | hname
    · rw [hname, hsame nan_letters hname (by decide)]
      exact .atom (by decide) (by decide) rfl
    · rw [hname, hsame infinity_letters hname (by decide)]
      exact .atom (by decide) (by decide) rfl
    · rw [hname, hsame minusInfinity_letters hname (by decide)]
      exact .atom (by decide) (by decide) rfl

/-! ### Brackets -/

variable (o : DumpOptions) (level : Nat)

theorem scans_items {texts : List (List UInt8)} {ds : List Document} (h : List.Forall₂ (ReadsAs F) texts ds) (hne : texts ≠ [])
    {b : List UInt8} (hb : Blank b) (rest : Text) :
    Scans F (ofBytes (joinWith (o.itemSeparator level) texts) ++ (ofBytes b ++ 0x5d :: rest)) (.items ds) rest := by
  obtain ⟨gap, hgap, hblank⟩ := itemSeparator_eq o level
  have hclose : skipSpace (ofBytes b ++ 0x5d :: rest) = 0x5d :: rest := skipSpace_blank hb _
  induction h with
  | nil => exact absurd rfl hne
  | @cons text d texts ds htext hmore ih =>
    cases hmore with
    | nil => exact .lastItem (htext _ (stops_blank hb (by decide) rest)) hclose
    | cons =>
      rename_i text' d' texts ds _ _
      have hitems := ih (List.cons_ne_nil _ _)
      have hsep : ofBytes (joinWith (o.itemSeparator level) (text :: text' :: texts)) ++ (ofBytes b ++ 0x5d :: rest) =
          ofBytes text ++ 0x2c :: (ofBytes gap ++ (ofBytes (joinWith (o.itemSeparator level) (text' :: texts)) ++
            (ofBytes b ++ 0x5d :: rest))) := by
        rw [joinWith, hgap]
        simp [show (0x2c : UInt8).toNat = 0x2c from rfl]
      rw [hsep]
      refine .item (htext _ (stops_cons (by decide) _)) rfl ?_
      rw [skipSpace_blank hblank, hitems.start.1]
      exact hitems

theorem scanKey_quoted {key : Text} (hkey : StringText key) (t : Text) :
    scanKey (ofBytes (quoted key) ++ 0x3a :: t) = some (key, skipSpace t) := by
  have htext : ofBytes (quoted key) ++ 0x3a :: t = 0x22 :: (ofBytes (body key) ++ 0x22 :: 0x3a :: t) := by
    simp [quoted, show (0x22 : UInt8).toNat = 0x22 from rfl]
  rw [htext, scanKey, if_pos rfl, scanString_body hkey]
  rfl

def MemberReadsAs (F : FloatReader) (e : Text × List UInt8) (m : Text × Document) : Prop :=
  e.1 = m.1 ∧ StringText m.1 ∧ ReadsAs F e.2 m.2

theorem scans_members {texts : List (Text × List UInt8)} {ms : List (Text × Document)}
    (h : List.Forall₂ (MemberReadsAs F) texts ms) (hne : texts ≠ []) {b : List UInt8} (hb : Blank b) (rest : Text) :
    Scans F (ofBytes (joinWith (o.itemSeparator level) (texts.map fun e => memberText e.1 e.2)) ++ (ofBytes b ++ 0x7d :: rest))
      (.members ms) rest := by
  obtain ⟨gap, hgap, hblank⟩ := itemSeparator_eq o level
  have hclose : skipSpace (ofBytes b ++ 0x7d :: rest) = 0x7d :: rest := skipSpace_blank hb _
  have hmember : ∀ key text t, ofBytes (memberText key text) ++ t = ofBytes (quoted key) ++ 0x3a :: 0x20 :: (ofBytes text ++ t) := by
    intro key text t
    simp [memberText, show (0x3a : UInt8).toNat = 0x3a from rfl, show (0x20 : UInt8).toNat = 0x20 from rfl]
  have hfirst : ∀ {e m t}, MemberReadsAs F e m → Stops t →
      scanKey (ofBytes (memberText e.1 e.2) ++ t) = some (m.1, ofBytes e.2 ++ t) ∧
        Scans F (ofBytes e.2 ++ t) (.value m.2) t := by
    rintro ⟨key, text⟩ ⟨_, d⟩ t ⟨rfl, hkey, htext⟩ ht
    have hvalue := htext t ht
    refine ⟨?_, hvalue⟩
    rw [hmember, scanKey_quoted hkey]
    exact congrArg (fun u => some (key, u)) hvalue.start.1
  induction h with
  | nil => exact absurd rfl hne
  | @cons e m texts ms he hmore ih =>
    cases hmore with
    | nil =>
      have hstop : Stops (ofBytes b ++ 0x7d :: rest) := stops_blank hb (by decide) rest
      obtain ⟨hkey, hvalue⟩ := hfirst he hstop
      exact .lastMember hkey hvalue hclose
    | cons =>
      rename_i e' m' texts ms _ _
      have hmembers := ih (List.cons_ne_nil _ _)
      have hsep : ofBytes (joinWith (o.itemSeparator level) ((e :: e' :: texts).map fun e => memberText e.1 e.2)) ++
          (ofBytes b ++ 0x7d :: rest) = ofBytes (memberText e.1 e.2) ++ 0x2c :: (ofBytes gap ++
            (ofBytes (joinWith (o.itemSeparator level) ((e' :: texts).map fun e => memberText e.1 e.2)) ++
              (ofBytes b ++ 0x7d :: rest))) := by
        rw [List.map_cons, List.map_cons, joinWith, hgap]
        simp [show (0x2c : UInt8).toNat = 0x2c from rfl]
      rw [hsep]
      have hcomma : ∀ t, Stops (0x2c :: t) := stops_cons (by decide)
      obtain ⟨hkey, hvalue⟩ := hfirst he (hcomma _)
      refine .member hkey hvalue rfl ?_
      rw [skipSpace_blank hblank, hmembers.start.1]
      exact hmembers

/-! ### Whole documents -/

theorem Scans.brackets {b : List UInt8} (hb : Blank b) {t rest : Text} {ds : List Document} (h : Scans F t (.items ds) rest) :
    Scans F (0x5b :: (ofBytes b ++ t)) (.value (.arr ds)) rest := by
  have hskip : skipSpace (ofBytes b ++ t) = t := (skipSpace_blank hb t).trans h.start.1
  refine .arr ?_ ?_
  · rw [hskip]
    exact h.start.2.1
  · rw [hskip]
    exact h

theorem Scans.braces {b : List UInt8} (hb : Blank b) {t rest : Text} {ms : List (Text × Document)}
    (hkeys : (ms.map Prod.fst).Nodup) (h : Scans F t (.members ms) rest) :
    Scans F (0x7b :: (ofBytes b ++ t)) (.value (.obj ms)) rest := by
  have hskip : skipSpace (ofBytes b ++ t) = t := (skipSpace_blank hb t).trans h.start.1
  rw [← ofPairs_of_nodup hkeys]
  refine .obj ?_ ?_
  · rw [hskip]
    exact h.start.2.2
  · rw [hskip]
    exact h

theorem enclose_nonempty {texts : List (List UInt8)} (hne : texts ≠ []) (openCh closeCh : UInt8) (rest : Text) :
    ofBytes (enclose o level openCh closeCh texts) ++ rest = openCh.toNat :: (ofBytes (o.newline (level + 1)) ++
      (ofBytes (joinWith (o.itemSeparator (level + 1)) texts) ++ (ofBytes (o.newline level) ++ closeCh.toNat :: rest))) := by
  rw [enclose, if_neg hne]
  simp

theorem readsAs_dumpsAt {d : Document} (hd : d.Decoded F) (ho : o.sortKeys = false) : ReadsAs F (dumpsAt o level d) d := by
  induction hd generalizing level with
  | null => exact fun rest _ => .atom (by decide) (by decide) rfl
  | bool b =>
    cases b with
    | false => exact fun rest _ => .atom (by decide) (by decide) rfl
    | true => exact fun rest _ => .atom (by decide) (by decide) rfl
  | int n => exact readsAs_int n
  | float h => exact readsAs_float h
  | str h => exact readsAs_str h
  | @arr items _ ih =>
    intro rest _
    rw [dumpsAt, dumpsItemsAt_eq]
    cases items with
    | nil => exact .noItems rfl
    | cons d items =>
      have htexts : List.Forall₂ (ReadsAs F) ((d :: items).map (dumpsAt o (level + 1))) (d :: items) :=
        List.forall₂_map_left_iff.mpr (List.forall₂_same.mpr fun e he => ih e he (level + 1))
      have hne : (d :: items).map (dumpsAt o (level + 1)) ≠ [] := List.cons_ne_nil _ _
      have hscan := scans_items o (level + 1) htexts hne (blank_newline o level) rest
      rw [enclose_nonempty o level hne]
      exact hscan.brackets (blank_newline o (level + 1))
  | @obj members hkeys htexts _ ih =>
    intro rest _
    have horder : o.order (dumpsMembersAt o (level + 1) members) = members.map (fun m => (m.1, dumpsAt o (level + 1) m.2)) := by
      rw [DumpOptions.order, ho, dumpsMembersAt_eq]
      rfl
    rw [dumpsAt, horder]
    cases members with
    | nil => exact .noMembers rfl
    | cons m members =>
      have hmembers : List.Forall₂ (MemberReadsAs F) ((m :: members).map (fun m => (m.1, dumpsAt o (level + 1) m.2)))
          (m :: members) :=
        List.forall₂_map_left_iff.mpr (List.forall₂_same.mpr fun e he => ⟨rfl, htexts e he, ih e he (level + 1)⟩)
      have hscan := scans_members o (level + 1) hmembers (List.cons_ne_nil _ _) (blank_newline o level) rest
      have hne : ((m :: members).map (fun m => (m.1, dumpsAt o (level + 1) m.2))).map (fun m => memberText m.1 m.2) ≠ [] :=
        List.cons_ne_nil _ _
      rw [enclose_nonempty o level hne]
      exact hscan.braces (blank_newline o (level + 1)) hkeys

/-- A document is read as it was written, with any white space behind it. -/
theorem loads_dumpsDocument {d : Document} (hd : d.Decoded F) (ho : o.sortKeys = false) {b : List UInt8} (hb : Blank b) :
    loads F (ofBytes (dumpsDocument o d ++ b)) = some d := by
  have hstops : Stops (ofBytes b) := by
    cases b with
    | nil => exact nofun
    | cons x b =>
      have hstop := stops_blank (b := [x]) (List.forall_mem_singleton.mpr (hb x List.mem_cons_self)) (c := 0x20) (by decide) []
      intro c hc
      exact hstop c hc
  have hscan := readsAs_dumpsAt o 0 hd ho (ofBytes b) hstops
  rw [← ofBytes_append] at hscan
  refine (loads_eq_some_iff F).mpr ⟨ofBytes b, ?_, ?_⟩
  · rw [show dumpsDocument o d = dumpsAt o 0 d from rfl, hscan.start.1]
    exact hscan
  · have hblank := skipSpace_blank hb []
    rw [List.append_nil] at hblank
    exact hblank

end VirtiosoMux.Json
