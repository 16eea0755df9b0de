import VirtiosoMux.Host.Agreement
import VirtiosoMux.Protocol.Wire

/-! # The carrier

In nvidia-tcu mode the bytes of the inner layer travel under one tag of the outer layer. The
decoder of the outer layer is stated here on the bytes alone; the inner layer under it behaves as
in raw mode on the bytes that the decoder yields.
-/
namespace VirtiosoMux.Host
open ByteStuffing

/-! ### The outer decoder -/

structure OuterCursor where
  inEscape : Bool
  tag : Option Nat

def OuterCursor.start : OuterCursor := ⟨false, none⟩

def chipTagIdx (ch : Byte) : Option Nat := chipTags.findIdx? (fun tag => tag.value == ch)

/-- The next cursor, and the byte carried under the tag `tagIdx`. -/
def outerByte (tagIdx : Nat) (c : OuterCursor) (ch : Byte) : OuterCursor × Option Byte :=
  if c.inEscape then
    if ch = uartProtoEscEsc then (⟨false, c.tag⟩, if c.tag = some tagIdx then some uartProtoEscStart else none)
    else if ch = uartProtoEscReset then (⟨false, none⟩, none)
    else (⟨false, (chipTagIdx ch).or c.tag⟩, none)
  else if ch = uartProtoEscStart then (⟨true, c.tag⟩, none)
  else (c, if c.tag = some tagIdx then some ch else none)

/-- The carried bytes, each with its position; `n` is the position of the first byte. -/
def carriedAt (tagIdx : Nat) : Nat → OuterCursor → Bytes → List (Nat × Byte)
  | _, _, [] => []
  | n, c, ch :: rest =>
    (((outerByte tagIdx c ch).2).map (fun b => (n, b))).toList ++ carriedAt tagIdx (n + 1) (outerByte tagIdx c ch).1 rest

def carried (tagIdx : Nat) (c : OuterCursor) (bytes : Bytes) : Bytes := (carriedAt tagIdx 0 c bytes).map Prod.snd

/-- No escape pair is a reset; the flag says that an escape is pending. -/
def NoReset : Bool → Bytes → Prop
  | _, [] => True
  | true, ch :: rest => ch ≠ uartProtoEscReset ∧ NoReset false rest
  | false, ch :: rest => NoReset (ch == uartProtoEscStart) rest

instance NoReset.decidable : (e : Bool) → (bytes : Bytes) → Decidable (NoReset e bytes)
  | _, [] => inferInstanceAs (Decidable True)
  | true, _ :: rest =>
    have := NoReset.decidable false rest
    inferInstanceAs (Decidable (_ ∧ _))
  | false, ch :: rest => NoReset.decidable (ch == uartProtoEscStart) rest

@[simp] theorem outerByte_escape (tagIdx : Nat) (tag : Option Nat) :
    outerByte tagIdx ⟨false, tag⟩ uartProtoEscStart = (⟨true, tag⟩, none) := by
  simp [outerByte]

theorem outerByte_literal (tagIdx : Nat) (tag : Option Nat) :
    outerByte tagIdx ⟨true, tag⟩ uartProtoEscEsc =
      (⟨false, tag⟩, if tag = some tagIdx then some uartProtoEscStart else none) := by
  simp [outerByte]

theorem outerByte_plain (tagIdx : Nat) (tag : Option Nat) {ch : Byte} (hch : ch ≠ uartProtoEscStart) :
    outerByte tagIdx ⟨false, tag⟩ ch = (⟨false, tag⟩, if tag = some tagIdx then some ch else none) := by
  simp [outerByte, hch]

theorem outerByte_select (tagIdx : Nat) (tag : Option Nat) {ch : Byte} (hesc : ch ≠ uartProtoEscEsc)
    (hreset : ch ≠ uartProtoEscReset) : outerByte tagIdx ⟨true, tag⟩ ch = (⟨false, (chipTagIdx ch).or tag⟩, none) := by
  simp [outerByte, hesc, hreset]

/-! ### Segments -/

def outerEncode (pairs : List (Byte × Bytes)) : Bytes :=
  pairs.flatMap (fun (tag, segment) => [uartProtoEscStart, tag] ++ stuff uartProtoEscStart segment)

/-- The segments whose tag is selected; an unknown tag keeps the tag before it. -/
def selectedSegments (tagIdx : Nat) : Option Nat → List (Byte × Bytes) → Bytes
  | _, [] => []
  | tag, (next, segment) :: rest =>
    (if (chipTagIdx next).or tag = some tagIdx then segment else []) ++
      selectedSegments tagIdx ((chipTagIdx next).or tag) rest

section Segments
variable {tagIdx : Nat}

theorem carriedAt_snd (n : Nat) (c : OuterCursor) (bytes : Bytes) :
    (carriedAt tagIdx n c bytes).map Prod.snd = carried tagIdx c bytes := by
  unfold carried
  induction bytes generalizing n c with
  | nil => rfl
  | cons ch rest ih =>
    simp only [carriedAt, List.map_append]
    rw [ih (n + 1), ih (0 + 1)]
    cases (outerByte tagIdx c ch).2 <;> rfl

theorem carried_cons (c : OuterCursor) (ch : Byte) (rest : Bytes) :
    carried tagIdx c (ch :: rest) = (outerByte tagIdx c ch).2.toList ++ carried tagIdx (outerByte tagIdx c ch).1 rest := by
  rw [carried, carriedAt, List.map_append, carriedAt_snd]
  cases (outerByte tagIdx c ch).2 <;> rfl

/-- A stuffed segment is carried as a whole or not at all. -/
theorem carried_segment (tag : Option Nat) (segment rest : Bytes) :
    carried tagIdx ⟨false, tag⟩ (stuff uartProtoEscStart segment ++ rest) =
      (if tag = some tagIdx then segment else []) ++ carried tagIdx ⟨false, tag⟩ rest := by
  induction segment with
  | nil => simp
  | cons b segment ih =>
    by_cases hb : b = uartProtoEscStart
    · subst hb
      rw [stuff_cons_esc, List.cons_append, List.cons_append, carried_cons, outerByte_escape, carried_cons]
      rw [outerByte_literal, ih]
      by_cases htag : tag = some tagIdx <;> simp [htag]
    · rw [stuff_cons_of_ne _ hb, List.cons_append, carried_cons, outerByte_plain tagIdx tag hb, ih]
      by_cases htag : tag = some tagIdx <;> simp [htag]

/-- The decoder inverts the encoder. -/
theorem carried_outerEncode (tag : Option Nat) {pairs : List (Byte × Bytes)}
    (htags : ∀ p ∈ pairs, p.1 ≠ uartProtoEscEsc ∧ p.1 ≠ uartProtoEscReset) :
    carried tagIdx ⟨false, tag⟩ (outerEncode pairs) = selectedSegments tagIdx tag pairs := by
  induction pairs generalizing tag with
  | nil => rfl
  | cons p rest ih =>
    obtain ⟨next, segment⟩ := p
    obtain ⟨hesc, hreset⟩ := htags (next, segment) List.mem_cons_self
    have hrest : ∀ p ∈ rest, p.1 ≠ uartProtoEscEsc ∧ p.1 ≠ uartProtoEscReset :=
      fun p hp => htags p (List.mem_cons_of_mem _ hp)
    have hencode : outerEncode ((next, segment) :: rest) =
        uartProtoEscStart :: next :: (stuff uartProtoEscStart segment ++ outerEncode rest) := by
      simp [outerEncode]
    rw [hencode, carried_cons, outerByte_escape, carried_cons, outerByte_select tagIdx tag hesc hreset,
      carried_segment, ih ((chipTagIdx next).or tag) hrest]
    rfl

/-- With known tags only, the segments of the selected tag. -/
theorem selectedSegments_known (tag : Option Nat) {pairs : List (Byte × Bytes)}
    (hknown : ∀ p ∈ pairs, (chipTagIdx p.1).isSome = true) :
    selectedSegments tagIdx tag pairs = (pairs.filter (fun p => chipTagIdx p.1 = some tagIdx)).flatMap Prod.snd := by
  induction pairs generalizing tag with
  | nil => rfl
  | cons p rest ih =>
    obtain ⟨next, segment⟩ := p
    obtain ⟨k, hk⟩ := Option.isSome_iff_exists.mp (hknown (next, segment) List.mem_cons_self)
    have hrest : ∀ p ∈ rest, (chipTagIdx p.1).isSome = true := fun p hp => hknown p (List.mem_cons_of_mem _ hp)
    simp only at hk
    rw [selectedSegments, hk, Option.some_or, ih (some k) hrest]
    by_cases hsel : k = tagIdx <;> simp [hk, hsel]

end Segments

/-! ### One received byte -/

def State.outerCursor (h : State) : OuterCursor := ⟨h.parser.outerInEscape, h.parser.curOuterTag⟩

def State.setOuter (h : State) (c : OuterCursor) : State :=
  { h with parser := { h.parser with outerInEscape := c.inEscape, curOuterTag := c.tag } }

section Byte
variable {env : Env} (hmode : env.virtiosoOuterMode = .nvidiaTcu) (h : State) (ch : Byte)
include hmode

/-- A received byte moves the outer cursor, resets both layers, or carries a byte: an unescaped
`0xff`, or itself after its copy to `raw_ccplex`. -/
theorem outer_cases :
    (∃ c, outerByte env.virtiosoOuterTagIdx h.outerCursor ch = (c, none) ∧
      ¬ (h.parser.outerInEscape = true ∧ ch = uartProtoEscReset) ∧
      feedNvidiaOuterOrVirtiosoRaw env h ch = (h.setOuter c, 0) ∧ handed env h ch = none) ∨
    (h.parser.outerInEscape = true ∧ ch = uartProtoEscReset ∧
      outerByte env.virtiosoOuterTagIdx h.outerCursor ch = (.start, none) ∧
      feedNvidiaOuterOrVirtiosoRaw env h ch = (((h.setEscape false).setStream none).setOuter .start, 0) ∧
      handed env h ch = none) ∨
    (h.parser.outerInEscape = true ∧ ch = uartProtoEscEsc ∧ h.parser.curOuterTag = some env.virtiosoOuterTagIdx ∧
      outerByte env.virtiosoOuterTagIdx h.outerCursor ch = ((h.setOuterEscape false).outerCursor, some uartProtoEscStart) ∧
      feedNvidiaOuterOrVirtiosoRaw env h ch = feedVirtiosoByte env (h.setOuterEscape false) uartProtoEscStart ∧
      handed env h ch = some (h.setOuterEscape false, uartProtoEscStart)) ∨
    (h.parser.outerInEscape = false ∧ ch ≠ uartProtoEscStart ∧ h.parser.curOuterTag = some env.virtiosoOuterTagIdx ∧
      outerByte env.virtiosoOuterTagIdx h.outerCursor ch = (h.outerCursor, some ch) ∧
      feedNvidiaOuterOrVirtiosoRaw env h ch = feedCarrier env h ch ∧ handed env h ch = handedWithCopy env h ch) := by
  unfold feedNvidiaOuterOrVirtiosoRaw handed
  rw [hmode]
  dsimp only
  cases hx : h.parser.outerInEscape with
  | true =>
    have hcursor : h.outerCursor = ⟨true, h.parser.curOuterTag⟩ := by rw [State.outerCursor, hx]
    rw [hcursor]
    by_cases hesc : ch = uartProtoEscEsc
    · subst hesc
      rw [outerByte_literal]
      by_cases htag : h.parser.curOuterTag = some env.virtiosoOuterTagIdx
      · right; right; left
        simp only [if_pos htag, if_true]
        exact ⟨trivial, trivial, htag, rfl, rfl, if_pos ⟨trivial, htag⟩⟩
      · left
        simp only [if_neg htag, if_true]
        exact ⟨_, rfl, by decide, rfl, if_neg (fun hboth => htag hboth.2)⟩
    by_cases hreset : ch = uartProtoEscReset
    · right; left
      subst hreset
      exact ⟨rfl, rfl, rfl, rfl, rfl⟩
    · left
      rw [outerByte_select _ _ hesc hreset]
      simp only [if_true, if_neg hesc, if_neg hreset]
      refine ⟨_, rfl, by simp [hreset], ?_, if_neg (fun hboth => hesc hboth.1)⟩
      cases htag : chipTags.findIdx? (fun tag => tag.value == ch) with
      | none => simp [chipTagIdx, htag, State.setOuter]
      | some k => simp [chipTagIdx, htag, State.setOuter]
  | false =>
    have hcursor : h.outerCursor = ⟨false, h.parser.curOuterTag⟩ := by rw [State.outerCursor, hx]
    rw [hcursor]
    by_cases hstart : ch = uartProtoEscStart
    · left
      subst hstart
      rw [outerByte_escape]
      exact ⟨_, rfl, by simp, rfl, rfl⟩
    · rw [outerByte_plain _ _ hstart]
      by_cases htag : h.parser.curOuterTag = some env.virtiosoOuterTagIdx
      · right; right; right
        simp only [Bool.false_eq_true, if_false, if_neg hstart, if_pos htag]
        exact ⟨trivial, hstart, htag, trivial, trivial, trivial⟩
      · left
        simp only [Bool.false_eq_true, if_false, if_neg hstart, if_neg htag]
        refine ⟨_, rfl, by simp, ?_, trivial⟩
        rw [State.setOuter, ← hx]

end Byte

/-! ### Transparency -/

structure Env.CopyOk (env : Env) : Prop where
  stampOk : ∀ n k, ((env.io n).flush rawCcplexPtyIdx k).stampOk = true
  logOk : ∀ n k, ((env.io n).flush rawCcplexPtyIdx k).logOk = true
  ptyOk : ∀ n k, ((env.io n).flush rawCcplexPtyIdx k).pty ≠ .error

theorem flushStream_ok {io : FlushIo} (hstamp : io.stampOk = true) (hlog : io.logOk = true) (hpty : io.pty ≠ .error)
    (env : Env) (h : State) (i : Nat) (ch : Byte) : (flushStream env io h i ch).2 = 0 := by
  unfold flushStream
  dsimp only
  rw [hstamp, hlog]
  simp only [Bool.true_eq_false, and_false, if_false, if_true]
  split
  · cases hp : io.pty with
    | error => exact absurd hp hpty
    | ok => rfl
    | again => rfl
  · cases hp : io.pty with
    | error => exact absurd hp hpty
    | ok => rfl
    | again => rfl

theorem Env.CopyOk.patch2flush {env : Env} (hok : env.CopyOk) (h : State) (ch : Byte) :
    (patch2flushStream env h rawCcplexPtyIdx ch).2 = 0 := by
  have hflush : ∀ g : State, (flushStream env ((env.now h).flush rawCcplexPtyIdx 2) g rawCcplexPtyIdx ch).2 = 0 :=
    fun g => flushStream_ok (hok.stampOk h.clock 2) (hok.logOk h.clock 2) (hok.ptyOk h.clock 2) env g rawCcplexPtyIdx ch
  rw [patch2flushStream_eq]
  split
  · exact hflush h
  · rw [forgetLineEnd, hflush, if_neg (Int.lt_irrefl 0), apply_ite Prod.snd]
    exact ite_self _

/-- The byte reaches the inner parser behind its copy. -/
theorem Env.CopyOk.feedCarrier {env : Env} (hok : env.CopyOk) (h : State) (ch : Byte) :
    ∃ p n r, feedCarrier env h ch = feedVirtiosoByte env ((h.setPty rawCcplexPtyIdx p).setSeen rawCcplexPtyIdx n r) ch := by
  obtain ⟨p, n, r, ret, heq⟩ := patch2flushStream_slot env h rawCcplexPtyIdx ch
  have hret := hok.patch2flush h ch
  unfold Host.feedCarrier
  split
  · refine ⟨p, n, r, ?_⟩
    rw [heq] at hret ⊢
    simp only at hret
    rw [hret]
    rfl
  · exact ⟨h.ptyData rawCcplexPtyIdx, h.parser.seenN rawCcplexPtyIdx, h.parser.seenR rawCcplexPtyIdx,
      by rw [setPty_self, setSeen_self]⟩

section Copy
variable {h h' : State} {exact : Prop}

/-- The copy and the outer cursor do not concern the inner layer. -/
theorem State.Agree.copy (ha : h.Agree exact h') (p p' : ThreadData) (n r n' r' e e' : Bool) :
    State.Agree exact (((h.setPty rawCcplexPtyIdx p).setSeen rawCcplexPtyIdx n r).setOuterEscape e)
      (((h'.setPty rawCcplexPtyIdx p').setSeen rawCcplexPtyIdx n' r').setOuterEscape e') := by
  obtain ⟨hs, hp⟩ := ha
  refine ⟨⟨hs.table, ?_, hs.registry, hs.acks, hs.stdout⟩, ⟨hp.inEscape, hp.curRxStream, hp.controlState, hp.registryJson,
    ?_, ?_, hp.length, hp.pending⟩⟩
  · intro i hi
    simpa [State.setPty, State.setSeen, Function.update_of_ne hi] using hs.ptyData i hi
  · intro i hi
    simpa [State.setPty, State.setSeen, Function.update_of_ne hi] using hp.seenN i hi
  · intro i hi
    simpa [State.setPty, State.setSeen, Function.update_of_ne hi] using hp.seenR i hi

theorem State.Agree.moments (ha : h.Agree exact h') (n n' : Nat) :
    State.Agree exact { h with clock := n } { h' with clock := n' } :=
  ⟨⟨ha.streams.table, ha.streams.ptyData, ha.streams.registry, ha.streams.acks, ha.streams.stdout⟩, ha.inner⟩

theorem State.Agree.setOuter (ha : h.Agree exact h') (c : OuterCursor) : State.Agree exact (h.setOuter c) h' :=
  have hp := ha.inner
  ⟨⟨ha.streams.table, ha.streams.ptyData, ha.streams.registry, ha.streams.acks, ha.streams.stdout⟩,
    ⟨hp.inEscape, hp.curRxStream, hp.controlState, hp.registryJson, hp.seenN, hp.seenR, hp.length, hp.pending⟩⟩

theorem State.Sound.copy (hs : h.Sound) (p : ThreadData) (n r e : Bool) :
    (((h.setPty rawCcplexPtyIdx p).setSeen rawCcplexPtyIdx n r).setOuterEscape e).Sound :=
  ⟨hs.counts, hs.capacity, hs.slots, hs.current, hs.record, hs.autopilot⟩

end Copy

theorem feedVirtiosoByte_clock (env : Env) (h : State) (ch : Byte) : (feedVirtiosoByte env h ch).1.clock = h.clock := by
  rcases feedVirtiosoByte_cases env h ch with ⟨p, acks, heq, -⟩ | ⟨i, -, heq⟩ | ⟨sid, name, -, heq⟩ | ⟨json, -, heq⟩
  · rw [heq]
  · obtain ⟨p, n, r, ret, hwrite⟩ := patch2flushStream_slot env (h.setEscape false) i ch
    rw [heq, hwrite]
    rfl
  · obtain ⟨t, pd, out, happly, -⟩ := applyVirtiosoStreamConnected_cases env (storePayload h ch) sid name
    rw [heq, happly]
    rfl
  · have hclock := (applyVirtiosoRegistryJson_rest env (withRegistry h ch json) json).2
    rw [heq]
    split
    · exact hclock
    · exact hclock

/-- A received byte moves the outer cursor or hands one byte to the inner parser. -/
theorem outer_carries {env : Env} (hmode : env.virtiosoOuterMode = .nvidiaTcu) (hok : env.CopyOk) (h : State) (ch : Byte)
    (hreset : ¬ (h.parser.outerInEscape = true ∧ ch = uartProtoEscReset)) :
    (∃ c, outerByte env.virtiosoOuterTagIdx h.outerCursor ch = (c, none) ∧
      feedNvidiaOuterOrVirtiosoRaw env h ch = (h.setOuter c, 0)) ∨
    (∃ g b, outerByte env.virtiosoOuterTagIdx h.outerCursor ch = (g.outerCursor, some b) ∧
      feedNvidiaOuterOrVirtiosoRaw env h ch = feedVirtiosoByte env g b ∧
      ∃ p n r e, g = ((h.setPty rawCcplexPtyIdx p).setSeen rawCcplexPtyIdx n r).setOuterEscape e) := by
  rcases outer_cases hmode h ch with ⟨c, hbyte, -, hfeed, -⟩ | ⟨hesc, hch, -⟩ | ⟨-, -, -, hbyte, hfeed, -⟩ |
    ⟨hesc, -, -, hbyte, hfeed, -⟩
  · exact .inl ⟨c, hbyte, hfeed⟩
  · exact absurd ⟨hesc, hch⟩ hreset
  · refine .inr ⟨h.setOuterEscape false, _, hbyte, hfeed, h.ptyData rawCcplexPtyIdx, h.parser.seenN rawCcplexPtyIdx,
      h.parser.seenR rawCcplexPtyIdx, false, ?_⟩
    rw [setPty_self, setSeen_self]
  · obtain ⟨p, n, r, hcopy⟩ := hok.feedCarrier h ch
    refine .inr ⟨((h.setPty rawCcplexPtyIdx p).setSeen rawCcplexPtyIdx n r).setOuterEscape false, ch, ?_, ?_, p, n, r,
      false, rfl⟩
    · rw [hbyte, State.outerCursor, hesc]
      rfl
    · rw [hfeed, hcopy]
      congr 1
      rw [← hesc]
      rfl

theorem noReset_tail (tagIdx : Nat) {c : OuterCursor} {ch : Byte} {rest : Bytes} (hn : NoReset c.inEscape (ch :: rest)) :
    NoReset (outerByte tagIdx c ch).1.inEscape rest := by
  obtain ⟨esc, tag⟩ := c
  cases esc with
  | true =>
    obtain ⟨hreset, hrest⟩ := hn
    by_cases hesc : ch = uartProtoEscEsc
    · subst hesc
      rw [outerByte_literal]
      exact hrest
    · rw [outerByte_select tagIdx tag hesc hreset]
      exact hrest
  | false =>
    simp only [NoReset] at hn
    by_cases hstart : ch = uartProtoEscStart
    · subst hstart
      rw [outerByte_escape]
      exact hn
    · rw [outerByte_plain tagIdx tag hstart]
      have hne : (ch == uartProtoEscStart) = false := by simpa using hstart
      rwa [hne] at hn

structure SameOptions (env env' : Env) : Prop where
  patch : env'.disablePatch = env.disablePatch
  stamp : env'.logTimestampEnabled = env.logTimestampEnabled
  save : env'.saveOutputPath = env.saveOutputPath

/-- The run over the carried bytes in raw mode follows the run over the received bytes. -/
theorem transparent_run {env env' : Env} (hmode : env.virtiosoOuterMode = .nvidiaTcu) (hraw : env'.virtiosoOuterMode = .raw)
    (hopt : SameOptions env env') (hok : env.CopyOk) (hok' : env'.CopyOk) {h h' : State} (hs : h.Sound)
    (ha : h.Agree True h') {bytes : Bytes} (hreset : NoReset h.parser.outerInEscape bytes)
    (hio : ∀ k n b, (carriedAt env.virtiosoOuterTagIdx h.clock h.outerCursor bytes)[k]? = some (n, b) →
      env'.io (h'.clock + k) = env.io n) :
    (ttyInputHandler env' h' (carried env.virtiosoOuterTagIdx h.outerCursor bytes)).2 = (ttyInputHandler env h bytes).2 ∧
    State.Agree True (ttyInputHandler env h bytes).1
      (ttyInputHandler env' h' (carried env.virtiosoOuterTagIdx h.outerCursor bytes)).1 := by
  induction bytes generalizing h h' with
  | nil => exact ⟨rfl, ha⟩
  | cons ch rest ih =>
    have htail := noReset_tail env.virtiosoOuterTagIdx (c := h.outerCursor) hreset
    have hnot : ¬ (h.parser.outerInEscape = true ∧ ch = uartProtoEscReset) := by
      rintro ⟨hesc, rfl⟩
      rw [hesc] at hreset
      exact hreset.1 rfl
    rw [carried_cons]
    rw [carriedAt] at hio
    rcases outer_carries hmode hok h ch hnot with ⟨c, hbyte, hfeed⟩ | ⟨g, b, hbyte, hfeed, p, n, r, e, hg⟩
    · -- the outer layer keeps the byte
      rw [hbyte] at hio htail ⊢
      simp only [Option.toList_none, List.nil_append, Option.map_none] at hio ⊢
      rw [ttyInputHandler, hfeed]
      exact ih (h := { h.setOuter c with clock := h.clock + 1 })
        ⟨hs.counts, hs.capacity, hs.slots, hs.current, hs.record, hs.autopilot⟩
        ((ha.setOuter c).moments (h.clock + 1) h'.clock) htail hio
    · -- the same byte reaches both inner parsers
      rw [hbyte] at hio htail ⊢
      simp only [Option.toList_some, List.singleton_append, Option.map_some] at hio ⊢
      obtain ⟨p', n', r', hcopy⟩ := hok'.feedCarrier h' b
      have hfeed' : feedNvidiaOuterOrVirtiosoRaw env' h' b =
          feedVirtiosoByte env' ((h'.setPty rawCcplexPtyIdx p').setSeen rawCcplexPtyIdx n' r') b := by
        rw [feedNvidiaOuterOrVirtiosoRaw, hraw]
        exact hcopy
      have hgs : g.Sound := by
        rw [hg]
        exact hs.copy p n r e
      have hga : g.Agree True ((h'.setPty rawCcplexPtyIdx p').setSeen rawCcplexPtyIdx n' r') := by
        rw [hg]
        exact ha.copy p p' n r n' r' e h'.parser.outerInEscape
      have hclock : g.clock = h.clock := by
        rw [hg]
        rfl
      have hcalls : SameCalls env g.clock env' h'.clock :=
        ⟨hopt.patch, hopt.stamp, hopt.save, by rw [hclock]; exact hio 0 h.clock b rfl⟩
      obtain ⟨hagree, hret⟩ := feedVirtiosoByte_agree hgs hga hcalls b
      rw [ttyInputHandler, ttyInputHandler, hfeed, hfeed']
      dsimp only
      rw [hret]
      by_cases hneg : (feedVirtiosoByte env g b).2 < 0
      · rw [if_pos hneg, if_pos hneg]
        exact ⟨rfl, hagree⟩
      · rw [if_neg hneg, if_neg hneg]
        have hmoves := feedVirtiosoByte_cursor env g b
        have hcur : (feedVirtiosoByte env g b).1.outerCursor = g.outerCursor := by
          rw [State.outerCursor, hmoves.outerInEscape, hmoves.curOuterTag]
          rfl
        have hk := feedVirtiosoByte_clock env g b
        have hk' := feedVirtiosoByte_clock env' ((h'.setPty rawCcplexPtyIdx p').setSeen rawCcplexPtyIdx n' r') b
        have hsound : (feedVirtiosoByte env g b).1.Sound := hgs.feed (.inl (Int.not_lt.mp hneg))
        rw [← hcur] at hio htail ⊢
        refine ih hsound.tick (hagree.moments _ _) htail ?_
        intro k m x hx
        have hnext := hio (k + 1) m x (by rw [List.getElem?_cons_succ, ← hx, hk, hclock]; rfl)
        rw [← hnext, hk']
        exact congrArg env'.io (by simp only [State.setSeen, State.setPty]; omega)

structure InnerState where
  inEscape : Bool
  curRxStream : Option Nat
  controlState : ControlState
  registryLen : Nat
  registryPos : Nat
  registryJson : Option Bytes
  pendingCtrlType : Byte
deriving DecidableEq

def Parser.innerState (p : Parser) : InnerState :=
  ⟨p.inEscape, p.curRxStream, p.controlState, p.registryLen, p.registryPos, p.registryJson, p.pendingCtrlType⟩

theorem Parser.Agree.innerState {p p' : Parser} (hp : Parser.Agree True p p') : p'.innerState = p.innerState := by
  obtain ⟨hlen, hpos⟩ := hp.length (.inl trivial)
  simp only [Parser.innerState, hp.inEscape, hp.curRxStream, hp.controlState, hlen, hpos, hp.registryJson,
    hp.pending (.inl trivial)]

/-- The host in raw mode; the calls for the `k`-th byte have the outcomes of the `k`-th of the given
moments. -/
def Env.rawAt (env : Env) (moments : List Nat) : Env :=
  { env with virtiosoOuterMode := .raw, io := fun k => env.io (moments.getD k 0) }

theorem start_outer (env : Env) : (start env).outerCursor = .start ∧ (start env).clock = 0 := by
  obtain ⟨pd, out, heq, -⟩ := start_state env
  rw [heq]
  exact ⟨rfl, rfl⟩

/-- Without resets the inner layer of nvidia-tcu mode is in the state of raw mode over the carried
bytes. For segments under known tags these are the segments of the selected tag; an unknown tag
keeps the selection. -/
theorem outer_transparent {env : Env} (hmode : env.virtiosoOuterMode = .nvidiaTcu) (hok : env.CopyOk) :
    (∀ bytes, NoReset false bytes →
      let outer := ttyInputHandler env (start env) bytes
      let inner := ttyInputHandler (env.rawAt ((carriedAt env.virtiosoOuterTagIdx 0 .start bytes).map Prod.fst)) (start env)
        (carried env.virtiosoOuterTagIdx .start bytes)
      inner.2 = outer.2 ∧ inner.1.parser.innerState = outer.1.parser.innerState ∧ inner.1.table = outer.1.table ∧
        ∀ i, i ≠ rawCcplexPtyIdx → inner.1.ptyData i = outer.1.ptyData i) ∧
    (∀ pairs : List (Byte × Bytes), (∀ p ∈ pairs, p.1 ≠ uartProtoEscEsc ∧ p.1 ≠ uartProtoEscReset) →
      carried env.virtiosoOuterTagIdx .start (outerEncode pairs) = selectedSegments env.virtiosoOuterTagIdx none pairs) ∧
    (∀ pairs : List (Byte × Bytes), (∀ p ∈ pairs, (chipTagIdx p.1).isSome = true) →
      carried env.virtiosoOuterTagIdx .start (outerEncode pairs) =
        (pairs.filter (fun p => chipTagIdx p.1 = some env.virtiosoOuterTagIdx)).flatMap Prod.snd) := by
  refine ⟨?_, fun pairs htags => carried_outerEncode none htags, ?_⟩
  · intro bytes hreset
    obtain ⟨hcursor, hclock⟩ := start_outer env
    have hparser : (start env).parser.outerInEscape = false := congrArg OuterCursor.inEscape hcursor
    let raw := env.rawAt ((carriedAt env.virtiosoOuterTagIdx 0 .start bytes).map Prod.fst)
    have hok' : raw.CopyOk := ⟨fun n => hok.stampOk _, fun n => hok.logOk _, fun n => hok.ptyOk _⟩
    have hopt : SameOptions env raw := ⟨rfl, rfl, rfl⟩
    have hio : ∀ k n b,
        (carriedAt env.virtiosoOuterTagIdx (start env).clock (start env).outerCursor bytes)[k]? = some (n, b) →
        raw.io ((start env).clock + k) = env.io n := by
      intro k n b hk
      rw [hcursor, hclock] at hk
      have hmoment : ((carriedAt env.virtiosoOuterTagIdx 0 .start bytes).map Prod.fst).getD k 0 = n := by
        simp [List.getD, hk]
      rw [hclock, Nat.zero_add]
      exact congrArg env.io hmoment
    obtain ⟨hflag, hagree⟩ := transparent_run hmode rfl hopt hok hok' (start_sound env) (.refl True (start env))
      (by rw [hparser]; exact hreset) hio
    rw [hcursor] at hflag hagree
    exact ⟨hflag, hagree.inner.innerState, hagree.streams.table, hagree.streams.ptyData⟩
  · intro pairs hknown
    have htags : ∀ p ∈ pairs, p.1 ≠ uartProtoEscEsc ∧ p.1 ≠ uartProtoEscReset := by
      intro p hp
      have hp' := hknown p hp
      refine ⟨?_, ?_⟩ <;>
      · intro heq
        rw [heq] at hp'
        exact absurd hp' (by decide)
    exact (carried_outerEncode none htags).trans (selectedSegments_known none hknown)

def quietCarrierEnv : Env := { quietEnv with virtiosoOuterMode := .nvidiaTcu }

theorem quietCarrierEnv_copyOk : quietCarrierEnv.CopyOk := by
  refine ⟨fun _ _ => rfl, fun _ _ => rfl, ?_⟩
  intro n k
  simp [quietCarrierEnv, quietEnv]

/-- A switch to the tag `BPMP` between an escape of the inner layer and its identifier. -/
theorem outer_transparent_split :
    (ttyInputHandler (quietCarrierEnv.rawAt [2, 7, 8]) (start quietCarrierEnv) [0xfe, 0x07, 0x41]).1.parser.innerState =
      (ttyInputHandler quietCarrierEnv (start quietCarrierEnv)
        [0xff, 0xe1, 0xfe, 0xff, 0xe2, 0xff, 0xe1, 0x07, 0x41]).1.parser.innerState :=
  ((outer_transparent rfl quietCarrierEnv_copyOk).1 [0xff, 0xe1, 0xfe, 0xff, 0xe2, 0xff, 0xe1, 0x07, 0x41] (by decide)).2.1

/-- A segment under an unknown tag is taken as a segment of the tag before it. -/
theorem unknown_tag_carried :
    ¬ ∀ pairs : List (Byte × Bytes), NoReset false (outerEncode pairs) →
      ((ttyInputHandler quietCarrierEnv (start quietCarrierEnv) (outerEncode pairs)).1.log virtiosoDefaultPtyIdx =
        (ttyInputHandler quietEnv (start quietEnv)
          ((pairs.filter (fun p => chipTagIdx p.1 = some 0)).flatMap Prod.snd)).1.log virtiosoDefaultPtyIdx) := by
  intro hall
  exact absurd (hall [(0xe1, [0x41]), (0x90, [0x42])] (by decide)) (by decide)

end VirtiosoMux.Host
