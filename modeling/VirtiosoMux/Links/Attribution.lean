import VirtiosoMux.Muxd.Sessions
import VirtiosoMux.Muxd.WireIds
import VirtiosoMux.Links.MuxdUplink

/-! # Which log a session's bytes reach

The daemon recycles identifiers; the host keeps the name of an identifier's first
announcement for ever. A session's bytes therefore reach a log of its own name exactly
as long as the first announcement of its identifier carried that name.
-/
namespace VirtiosoMux.Attribution
open ByteStuffing Host Muxd

/-! ### The wire with its payload bytes marked -/

def markedPayload (c : Nat) : Bytes → List (Byte × Option Nat)
  | [] => []
  | b :: bs => (if b = vcmuxProtoEscStart then [(vcmuxProtoEscStart, none)] else []) ++ (b, some c) :: markedPayload c bs

/-- The bytes of a frame; the payload bytes carry their sender, the protocol bytes do not. -/
def marked (c : Nat) : Frame → List (Byte × Option Nat)
  | .data id p =>
    [(vcmuxProtoEscStart, none), (id, none)] ++ markedPayload c p ++
      [(vcmuxProtoEscStart, none), (vcmuxProtoEscDefault, none)]
  | f => f.encode.map (fun b => (b, none))

def markedWire (channel : List (Nat × Frame)) : List (Byte × Option Nat) :=
  channel.flatMap (fun p => marked p.1 p.2)

theorem markedPayload_bytes (c : Nat) (p : Bytes) : (markedPayload c p).map Prod.fst = stuff vcmuxProtoEscStart p := by
  induction p with
  | nil => rfl
  | cons b p ih => by_cases hb : b = vcmuxProtoEscStart <;> simp [markedPayload, hb, ih]

theorem marked_bytes (c : Nat) (f : Frame) : (marked c f).map Prod.fst = f.encode := by
  cases f with
  | data id p => simp [marked, markedPayload_bytes, Frame.encode, encodeDataFrame_eq, frameBytes]
  | connected id name => simp [marked, Function.comp_def]
  | disconnected id name => simp [marked, Function.comp_def]

theorem markedWire_bytes (channel : List (Nat × Frame)) :
    (markedWire channel).map Prod.fst = channel.flatMap (fun p => p.2.encode) := by
  simp [markedWire, List.map_flatMap, marked_bytes]

/-- A marked byte of a payload, with what stands before it. -/
theorem markedPayload_split {c c' : Nat} {b : Byte} {p : Bytes} {pre post : List (Byte × Option Nat)}
    (h : markedPayload c p = pre ++ (b, some c') :: post) :
    ∃ p₁ p₂, p = p₁ ++ b :: p₂ ∧ c' = c ∧
      pre.map Prod.fst = stuff vcmuxProtoEscStart p₁ ++ (if b = vcmuxProtoEscStart then [vcmuxProtoEscStart] else []) := by
  induction p generalizing pre with
  | nil => simp [markedPayload] at h
  | cons x p ih =>
    by_cases hx : x = vcmuxProtoEscStart
    · subst hx
      simp only [markedPayload, if_true, List.cons_append, List.nil_append] at h
      match pre with
      | [] => simp at h
      | [_] =>
        simp only [List.cons_append, List.nil_append, List.cons.injEq, Prod.mk.injEq, Option.some.injEq] at h
        obtain ⟨rfl, ⟨rfl, rfl⟩, -⟩ := h
        exact ⟨[], p, rfl, rfl, by simp⟩
      | _ :: _ :: pre =>
        simp only [List.cons_append, List.cons.injEq] at h
        obtain ⟨rfl, rfl, h⟩ := h
        obtain ⟨p₁, p₂, rfl, hc, hpre⟩ := ih h
        exact ⟨vcmuxProtoEscStart :: p₁, p₂, rfl, hc, by simp [hpre]⟩
    · simp only [markedPayload, if_neg hx, List.nil_append] at h
      match pre with
      | [] =>
        simp only [List.nil_append, List.cons.injEq, Prod.mk.injEq, Option.some.injEq] at h
        obtain ⟨⟨rfl, rfl⟩, -⟩ := h
        exact ⟨[], p, rfl, rfl, by simp [hx]⟩
      | _ :: pre =>
        simp only [List.cons_append, List.cons.injEq] at h
        obtain ⟨rfl, h⟩ := h
        obtain ⟨p₁, p₂, rfl, hc, hpre⟩ := ih h
        exact ⟨x :: p₁, p₂, rfl, hc, by simp [hpre, hx]⟩

/-- Marked bytes stand in data frames only. -/
theorem marked_split {c c' : Nat} {b : Byte} {f : Frame} {pre post : List (Byte × Option Nat)}
    (h : marked c f = pre ++ (b, some c') :: post) :
    ∃ id p₁ p₂, f = .data id (p₁ ++ b :: p₂) ∧ c' = c ∧
      pre.map Prod.fst = [vcmuxProtoEscStart, id] ++ stuff vcmuxProtoEscStart p₁ ++
        (if b = vcmuxProtoEscStart then [vcmuxProtoEscStart] else []) := by
  have hunmarked : ∀ xs : Bytes, xs.map (fun x => (x, (none : Option Nat))) ≠ pre ++ (b, some c') :: post := by
    intro xs heq
    have hmem : (b, some c') ∈ xs.map (fun x => (x, (none : Option Nat))) := by rw [heq]; simp
    simp at hmem
  cases f with
  | connected id name => exact absurd h (hunmarked _)
  | disconnected id name => exact absurd h (hunmarked _)
  | data id p =>
    simp only [marked, List.cons_append, List.nil_append] at h
    match pre with
    | [] => simp at h
    | [_] => simp at h
    | _ :: _ :: pre =>
      simp only [List.cons_append, List.cons.injEq] at h
      obtain ⟨rfl, rfl, h⟩ := h
      rcases List.append_eq_append_iff.mp h with ⟨mid, -, htail⟩ | ⟨mid, hbody, htail⟩
      · -- the mark cannot stand among the closing bytes
        have hmem : (b, some c') ∈ [(vcmuxProtoEscStart, (none : Option Nat)), (vcmuxProtoEscDefault, none)] := by
          rw [htail]; simp
        simp at hmem
      · match mid with
        | [] => simp at htail
        | _ :: mid =>
          simp only [List.cons_append, List.cons.injEq] at htail
          obtain ⟨rfl, -⟩ := htail
          obtain ⟨p₁, p₂, rfl, hc, hpre⟩ := markedPayload_split hbody
          exact ⟨id, p₁, p₂, rfl, hc, by simp [hpre]⟩

theorem markedWire_split {channel : List (Nat × Frame)} {b : Byte} {c : Nat} {pre post : List (Byte × Option Nat)}
    (h : markedWire channel = pre ++ (b, some c) :: post) :
    ∃ (before : List (Nat × Frame)) (id : Byte) (p₁ p₂ : Bytes) (after : List (Nat × Frame)),
      channel = before ++ (c, Frame.data id (p₁ ++ b :: p₂)) :: after ∧
      pre.map Prod.fst = before.flatMap (fun p => p.2.encode) ++ ([vcmuxProtoEscStart, id] ++
        stuff vcmuxProtoEscStart p₁ ++ (if b = vcmuxProtoEscStart then [vcmuxProtoEscStart] else [])) := by
  induction channel generalizing pre with
  | nil => simp [markedWire] at h
  | cons q channel ih =>
    obtain ⟨c', f⟩ := q
    have h' : marked c' f ++ markedWire channel = pre ++ (b, some c) :: post := h
    rcases List.append_eq_append_iff.mp h' with ⟨mid, rfl, hrest⟩ | ⟨mid, hbody, hrest⟩
    · obtain ⟨before, id, p₁, p₂, after, rfl, hpre⟩ := ih hrest
      refine ⟨(c', f) :: before, id, p₁, p₂, after, rfl, ?_⟩
      simp only [List.map_append, marked_bytes, hpre, List.flatMap_cons, List.append_assoc]
    · match mid with
      | [] =>
        have hnext : markedWire channel = [] ++ (b, some c) :: post := hrest.symm
        obtain ⟨before, id, p₁, p₂, after, rfl, hpre⟩ := ih hnext
        refine ⟨(c', f) :: before, id, p₁, p₂, after, rfl, ?_⟩
        have hf := marked_bytes c' f
        rw [hbody, List.append_nil] at hf
        rw [hf, List.flatMap_cons, List.append_assoc, ← hpre]
        simp
      | _ :: mid =>
        simp only [List.cons_append, List.cons.injEq] at hrest
        obtain ⟨rfl, -⟩ := hrest
        obtain ⟨id, p₁, p₂, rfl, rfl, hpre⟩ := marked_split hbody
        exact ⟨[], id, p₁, p₂, channel, rfl, by simpa using hpre⟩

/-! ### First announcements -/

def Frame.announcedName (id : Byte) : Frame → Option Bytes
  | .connected id' name => if id' = id then some name else none
  | _ => none

def firstName (channel : List (Nat × Frame)) (id : Byte) : Option Bytes :=
  channel.findSome? (fun p => Frame.announcedName id p.2)

theorem firstName_append (xs ys : List (Nat × Frame)) (id : Byte) :
    firstName (xs ++ ys) id = (firstName xs id).or (firstName ys id) := List.findSome?_append

theorem firstName_of_mem {channel : List (Nat × Frame)} {c : Nat} {id : Byte} {name : Bytes}
    (h : (c, Frame.connected id name) ∈ channel) : ∃ first, firstName channel id = some first := by
  cases hf : firstName channel id with
  | some first => exact ⟨first, rfl⟩
  | none =>
    have := List.findSome?_eq_none_iff.mp hf _ h
    simp [Frame.announcedName] at this

/-- The host stores the name unchanged. -/
def Registrable (name : Bytes) : Prop := name.length ≤ 255 ∧ (0 : Byte) ∉ name
instance (name : Bytes) : Decidable (Registrable name) := inferInstanceAs (Decidable (_ ∧ _))

theorem Registrable.stored {name : Bytes} (h : Registrable name) : cString (name.take 255) = name := by
  rw [List.take_of_length_le h.1]
  exact cString_of_notMem h.2

/-- A session reads payload only if its identifier is not zero, its name fits the host's
name buffer, and the identifier was first announced under that very name. -/
def readsUnderFirstName (s : Daemon) (a : Action) : Prop :=
  ∀ c chunk name id, a = .read c chunk → s.task c = .reading name id →
    id ≠ 0 ∧ Registrable name ∧ ∀ first, firstName s.channel id = some first → first = name

/-- A data frame of client `c` behind the frames `before` will reach a log of its name. -/
def DataOk (before : List (Nat × Frame)) (c : Nat) (id : Byte) : Prop :=
  id ≠ 0 ∧ ∃ name, Registrable name ∧ (c, .connected id name) ∈ before ∧ firstName before id = some name

theorem DataOk.append {before : List (Nat × Frame)} {c : Nat} {id : Byte} (h : DataOk before c id)
    (more : List (Nat × Frame)) : DataOk (before ++ more) c id := by
  obtain ⟨hid, name, hreg, hmem, hfirst⟩ := h
  exact ⟨hid, name, hreg, List.mem_append_left _ hmem, by rw [firstName_append, hfirst]; rfl⟩

def Attributable (channel : List (Nat × Frame)) : Prop :=
  ∀ before c id p after, channel = before ++ (c, .data id p) :: after → DataOk before c id

theorem Attributable.of_prefix {xs ys : List (Nat × Frame)} (h : Attributable (xs ++ ys)) : Attributable xs := by
  intro before c id p after heq
  exact h before c id p (after ++ ys) (by rw [heq]; simp)

theorem Attributable.snoc {xs : List (Nat × Frame)} (h : Attributable xs) {c : Nat} {f : Frame}
    (hf : ∀ id p, f = .data id p → DataOk xs c id) : Attributable (xs ++ [(c, f)]) := by
  intro before c' id p after heq
  rcases List.eq_nil_or_concat' after with rfl | ⟨after', last, rfl⟩
  · obtain ⟨rfl, hlast⟩ := List.append_inj' heq rfl
    cases hlast
    exact hf id p rfl
  · have heq' : xs ++ [(c, f)] = (before ++ (c', .data id p) :: after') ++ [last] := by rw [heq]; simp
    exact h before c' id p after' (List.append_inj' heq' rfl).1

structure AttributionInv (s : Daemon) : Prop where
  announced : s.receiving = true → ∀ c name id, (s.task c).active = some (name, id) →
    (c, .connected id name) ∈ s.channel
  pending : s.receiving = true → ∀ c name id chunk, s.task c = .sending name id chunk → DataOk s.channel c id
  frames : Attributable s.channel

theorem AttributionInv.start : AttributionInv Daemon.start :=
  ⟨by simp [Daemon.start, Task.active], by simp [Daemon.start], by
    intro before c id p after heq
    simp [Daemon.start] at heq⟩

/-- A step of task `c` that sends nothing. -/
theorem AttributionInv.keep {s s' : Daemon} (h : AttributionInv s) {c : Nat} {t : Task}
    (hch : s'.channel = s.channel) (hrec : s'.receiving = s.receiving) (htask : s'.task = (s.setTask c t).task)
    (hact : s.receiving = true → ∀ name id, t.active = some (name, id) → (s.task c).active = some (name, id))
    (hsend : s.receiving = true → ∀ name id chunk, t = .sending name id chunk → DataOk s.channel c id) :
    AttributionInv s' := by
  refine ⟨?_, ?_, by rw [hch]; exact h.frames⟩
  · intro hr c' name id ha
    rw [hrec] at hr
    rw [htask, setTask_task] at ha
    rw [hch]
    split at ha
    · rename_i hc
      subst hc
      exact h.announced hr c' name id (hact hr name id ha)
    · exact h.announced hr c' name id ha
  · intro hr c' name id chunk ht
    rw [hrec] at hr
    rw [htask, setTask_task] at ht
    rw [hch]
    split at ht
    · rename_i hc
      subst hc
      exact hsend hr name id chunk ht
    · exact h.pending hr c' name id chunk ht

theorem AttributionInv.sent {s : Daemon} (h : AttributionInv s) {c : Nat} {t next failed : Task} {f : Frame}
    (ht : s.task c = t) (hf : Sends t f next failed) (hopen : s.receiving = true) :
    AttributionInv { s.setTask c next with channel := s.channel ++ [(c, f)] } := by
  have hnext : ∀ name id chunk, next ≠ .sending name id chunk := by
    intro name id chunk heq
    cases hf <;> cases heq
  refine ⟨?_, ?_, ?_⟩
  · intro _ c' name id ha
    change ((s.setTask c next).task c').active = _ at ha
    rw [setTask_task] at ha
    split at ha
    · rename_i hc
      subst hc
      cases hf with
      | connected name' id' =>
        cases ha
        exact List.mem_append_right _ (by simp)
      | data name' id' chunk =>
        cases ha
        exact List.mem_append_left _ (h.announced hopen c' _ _ (by rw [ht]; rfl))
      | disconnected name' id' => cases ha
    · exact List.mem_append_left _ (h.announced hopen c' name id ha)
  · intro _ c' name id chunk ht'
    change (s.setTask c next).task c' = _ at ht'
    rw [setTask_task] at ht'
    split at ht'
    · exact absurd ht' (hnext name id chunk)
    · exact (h.pending hopen c' name id chunk ht').append _
  · refine h.frames.snoc ?_
    rintro id p rfl
    cases hf
    exact h.pending hopen c _ id p ht

theorem AttributionInv.step {s s' : Daemon} {a : Action} (h : AttributionInv s) (hok : readsUnderFirstName s a)
    (hs : step s a = some s') : AttributionInv s' := by
  cases step_cases hs with
  | enroll ht _ => exact h.keep rfl rfl rfl (by simp [Task.active]) (by simp)
  | abandon ht => exact h.keep rfl rfl rfl (by simp [Task.active]) (by simp)
  | alloc ht _ => exact h.keep rfl rfl rfl (by simp [Task.active]) (by simp)
  | accept ht => exact h.keep rfl rfl rfl (by simp [Task.active]) (by simp)
  | refuse ht => exact h.keep rfl rfl rfl (by simp [Task.active]) (by simp)
  | @read c name id chunk ht _ =>
    refine h.keep rfl rfl rfl (by simp [Task.active, ht]) ?_
    intro hr name' id' chunk' heq
    cases heq
    obtain ⟨hid, hreg, hfirst⟩ := hok c chunk name id rfl ht
    have hmem := h.announced hr c name id (by rw [ht]; rfl)
    obtain ⟨first, hf⟩ := firstName_of_mem hmem
    exact ⟨hid, name, hreg, hmem, hfirst first hf ▸ hf⟩
  | hangup ht => exact h.keep rfl rfl rfl (by simp [Task.active, ht]) (by simp)
  | sent ht hf hopen _ => exact h.sent ht hf hopen
  | unsent ht hf hclosed => exact h.keep rfl rfl rfl (by simp [hclosed]) (by simp [hclosed])
  | free ht => exact h.keep rfl rfl rfl (by simp [Task.active]) (by simp)
  | recv => exact ⟨h.announced, h.pending, h.frames⟩
  | sinkWrite => exact ⟨h.announced, h.pending, h.frames⟩
  | sinkFail => exact ⟨by simp, by simp, h.frames⟩

/-! ### The host along the channel -/

/-- The host between two frames: every announced identifier is registered under the name
of its first announcement, as the host stores it. -/
structure Following (h : State) (channel : List (Nat × Frame)) : Prop where
  ready : h.Ready
  rest : AtRest h none
  clean : h.table.Clean
  names : ∀ id, ¬ Reserved id →
    h.table.slotName id = (firstName channel id).map (fun name => some (cString (name.take 255)))

theorem Following.slot {h : State} {channel : List (Nat × Frame)} (hf : Following h channel) {c : Nat} {id : Byte}
    (hid : ¬ Reserved id) (hok : DataOk channel c id) :
    ∃ name i, (c, .connected id name) ∈ channel ∧ findVirtiosoPtyIdxByStreamId h.table id = some i ∧ 3 ≤ i ∧
      i < h.table.numProc ∧ (h.table.tags i).name = some name := by
  obtain ⟨-, name, hreg, hmem, hfirst⟩ := hok
  have hn := hf.names id hid
  rw [hfirst, Option.map_some, hreg.stored] at hn
  obtain ⟨i, hi, hname⟩ := Option.map_eq_some_iff.mp hn
  exact ⟨name, i, hmem, hi, hf.clean.three_le_of_find hid hi, (find_value hi).1, hname⟩

section Host
variable {env : Env} (he : env.Healthy) (hraw : env.virtiosoOuterMode = .raw)
include he hraw

/-- An announcement record, of a selectable identifier or of zero. -/
theorem following_announce {h : State} {channel : List (Nat × Frame)} (hf : Following h channel) {c : Nat}
    {kind id : Byte} {name : Bytes} {f : Frame} (hid : id = 0 ∨ ¬ Reserved id)
    (hkind : (kind = vcmuxProtoControlStreamConnected ∧ f = .connected id name) ∨
      (kind = vcmuxProtoControlStreamDisconnected ∧ f = .disconnected id name)) :
    ∃ h' d, Consumes env h f.encode h' d 0 ∧ Following h' (channel ++ [(c, f)]) := by
  have hk : kind = vcmuxProtoControlStreamConnected ∨ kind = vcmuxProtoControlStreamDisconnected :=
    hkind.imp And.left And.left
  have hlen : (name.take 65534).length + 1 < 65536 := by simp only [List.length_take]; omega
  obtain ⟨h', hc, hrest, ht, -⟩ := consumes_announce he hraw hf.ready hf.rest hk id (name.take 65534) hlen
  have hbytes : f.encode = recordBytes kind (id :: name.take 65534) := by
    rcases hkind with ⟨rfl, rfl⟩ | ⟨rfl, rfl⟩ <;> simp [Frame.encode, encodeControlFrame_eq]
  refine ⟨h', _, by rw [hbytes]; exact hc, hc.ready, hrest, ?_, ?_⟩
  · rw [ht, announce]
    split
    · exact hf.clean.connect hid _
    · exact hf.clean
  · intro id' hid'
    rw [firstName_append]
    rcases hkind with ⟨rfl, rfl⟩ | ⟨rfl, rfl⟩
    · have ht : h'.table = h.table.connect id (name.take 65534) := by rw [ht]; simp [announce]
      rw [ht, hf.clean.slotName_connect, hf.names id' hid', List.take_take]
      cases firstName channel id' with
      | some first => rfl
      | none => by_cases heq : id = id' <;> simp [firstName, Frame.announcedName, heq]
    · have ht : h'.table = h.table := by rw [ht]; rfl
      rw [ht, hf.names id' hid']
      simp [firstName, Frame.announcedName]

theorem following_data {h : State} {channel : List (Nat × Frame)} (hf : Following h channel) {c : Nat} {id : Byte}
    {p : Bytes} (hid : ¬ Reserved id) (hok : DataOk channel c id) :
    ∃ h' d, Consumes env h (Frame.data id p).encode h' d 0 ∧ Following h' (channel ++ [(c, Frame.data id p)]) := by
  obtain ⟨-, i, -, hi, h3, -, -⟩ := hf.slot hid hok
  have hne : i ≠ rawCcplexPtyIdx := by simp only [rawCcplexPtyIdx]; omega
  obtain ⟨h', hs⟩ := segment_frame he hraw hf.ready hf.rest hid hi hne p
  have hbytes : (Frame.data id p).encode = frameBytes id p := by simp [Frame.encode, encodeDataFrame_eq]
  refine ⟨h', _, by rw [hbytes]; exact hs.toConsumes, hs.ready, hs.rest, by rw [hs.table]; exact hf.clean, ?_⟩
  intro id' hid'
  rw [hs.table, hf.names id' hid', firstName_append]
  simp [firstName, Frame.announcedName]

/-- The host follows the daemon over every prefix of the channel. -/
theorem following_channel (channel : List (Nat × Frame)) (hids : ∀ p ∈ channel, p.2.id = 0 ∨ ¬ Reserved p.2.id)
    (hattr : Attributable channel) :
    ∃ h d, Consumes env (start env) (channel.flatMap (fun p => p.2.encode)) h d 0 ∧ Following h channel := by
  induction channel using List.reverseRecOn with
  | nil =>
    obtain ⟨ht, hp, hr, -, -, -⟩ := start_healthy he
    refine ⟨start env, _, Consumes.refl env hr, hr,
      ⟨by rw [hp]; rfl, by rw [hp]; rfl, by rw [hp]; rfl, by rw [hp]; rfl⟩, by rw [ht]; exact initVirtiosoTags_clean, ?_⟩
    intro id hid
    have hb := (MuxdUplink.between_start he).known id hid
    have hnone : findVirtiosoPtyIdxByStreamId (start env).table id = none := by simpa using hb
    simp [Table.slotName, hnone, firstName]
  | append_singleton channel q ih =>
    obtain ⟨c, f⟩ := q
    obtain ⟨h, d, hc, hf⟩ := ih (fun p hp => hids p (List.mem_append_left _ hp)) hattr.of_prefix
    have hid := hids (c, f) (by simp)
    have hstep : ∃ h' d, Consumes env h f.encode h' d 0 ∧ Following h' (channel ++ [(c, f)]) := by
      cases f with
      | connected id name => exact following_announce he hraw hf hid (.inl ⟨rfl, rfl⟩)
      | disconnected id name => exact following_announce he hraw hf hid (.inr ⟨rfl, rfl⟩)
      | data id p =>
        have hok := hattr channel c id p [] rfl
        exact following_data he hraw hf (hid.resolve_left hok.1) hok
    obtain ⟨h', d', hc', hf'⟩ := hstep
    have hall := hc.trans hc'
    refine ⟨h', fun i => d i ++ d' i, ?_, hf'⟩
    simpa using hall

/-- A payload byte inside a frame reaches the log of the session's name. -/
theorem following_byte {h : State} {channel : List (Nat × Frame)} (hf : Following h channel) {c : Nat} {id : Byte}
    (hid : ¬ Reserved id) (hok : DataOk channel c id) (p : Bytes) (b : Byte) :
    ∃ name i h₁ h₂ d, (c, .connected id name) ∈ channel ∧
      Consumes env h ([vcmuxProtoEscStart, id] ++ stuff vcmuxProtoEscStart p ++
        (if b = vcmuxProtoEscStart then [vcmuxProtoEscStart] else [])) h₁ d 0 ∧
      Consumes env h₁ [b] h₂ (only i [b]) 0 ∧ 3 ≤ i ∧ i < h₂.table.numProc ∧ (h₂.table.tags i).name = some name := by
  obtain ⟨name, i, hmem, hi, h3, hlt, hname⟩ := hf.slot hid hok
  have hne : i ≠ rawCcplexPtyIdx := by simp only [rawCcplexPtyIdx]; omega
  obtain ⟨g₁, s₁⟩ := segment_select he hraw hf.ready hf.rest hid
  have hlt₁ : i < g₁.table.numProc := by rw [s₁.table]; exact hlt
  obtain ⟨g₂, s₂⟩ := segment_payload he hraw s₁.ready s₁.rest hi hlt₁ hne p
  have hlt₂ : i < g₂.table.numProc := by rw [s₂.table]; exact hlt₁
  obtain ⟨g₃, g₄, c₃, c₄, -, ht, -⟩ := consumes_payload_byte he hraw s₂.ready s₂.rest rfl hlt₂ hne b
  have htable : g₄.table = h.table := ht.trans (s₂.table.trans s₁.table)
  refine ⟨name, i, g₃, g₄, _, hmem, (s₁.toConsumes.trans s₂.toConsumes).trans c₃, c₄, h3, ?_, ?_⟩
  · rw [htable]; exact hlt
  · rw [htable]; exact hname

end Host

/-! ### Attribution -/

/-- Every payload byte that the sink has received is appended, when the host consumes it,
to the log of a stream whose registered name is the one announced for the byte's session. -/
def Attributed (env : Env) (s : Daemon) : Prop :=
  ∀ pre b c post, markedWire s.channel = pre ++ (b, some c) :: post → pre.length < s.sink.length →
    ∃ id name i h h', (c, .connected id name) ∈ s.channel ∧
      ttyInputHandler env (start env) (s.sink.take pre.length) = (h, true) ∧
      ttyInputHandler env (start env) (s.sink.take (pre.length + 1)) = (h', true) ∧
      3 ≤ i ∧ i < h'.table.numProc ∧ (h'.table.tags i).name = some name ∧ h'.log i = h.log i ++ [b]

/-- The sink up to a marked byte is the wire up to it. -/
theorem sink_take {s : Daemon} (hd : s.sink <+: s.channel.flatMap (fun p => p.2.encode)) {pre post : List (Byte × Option Nat)}
    {m : Byte × Option Nat} (h : markedWire s.channel = pre ++ m :: post) (hlt : pre.length < s.sink.length) :
    s.sink.take pre.length = pre.map Prod.fst ∧ s.sink.take (pre.length + 1) = pre.map Prod.fst ++ [m.1] := by
  have hwire : s.channel.flatMap (fun p => p.2.encode) = pre.map Prod.fst ++ m.1 :: post.map Prod.fst := by
    rw [← markedWire_bytes, h, List.map_append, List.map_cons]
  obtain ⟨tail, htail⟩ := hd
  rw [hwire] at htail
  have htake : ∀ n ≤ s.sink.length, s.sink.take n = (pre.map Prod.fst ++ m.1 :: post.map Prod.fst).take n := by
    intro n hn
    rw [← htail, List.take_append_of_le_length hn]
  have hlen : (pre.map Prod.fst).length = pre.length := List.length_map _
  refine ⟨?_, ?_⟩
  · rw [htake _ hlt.le, ← hlen, List.take_left]
  · rw [htake (pre.length + 1) hlt, ← hlen, List.take_length_add_append]
    simp

/-- In every run in which sessions only read payload under the first name of their
identifier, every payload byte reaches a log of its session's name. -/
theorem sessions_attributed {env : Env} (he : env.Healthy) (hraw : env.virtiosoOuterMode = .raw) {as : List Action}
    {s : Daemon} (hr : RunsTo readsUnderFirstName as s) : Attributed env s := by
  have hinv : AttributionInv s := hr.invariant (fun _ _ _ h hok hs => h.step hok hs) AttributionInv.start
  have hids : ∀ p ∈ s.channel, p.2.id = 0 ∨ ¬ Reserved p.2.id :=
    (ids_good (fun _ _ _ _ hp _ h => alloc_selectable hp h) hr).sent
  intro pre b c post hsplit hlt
  obtain ⟨hpre, hpre'⟩ := sink_take (drained hr).prefix_channel hsplit hlt
  obtain ⟨before, id, p₁, p₂, after, hch, hbytes⟩ := markedWire_split hsplit
  have hok : DataOk before c id := hinv.frames before c id _ after hch
  have hid : ¬ Reserved id := by
    have := hids (c, .data id (p₁ ++ b :: p₂)) (by rw [hch]; simp)
    exact this.resolve_left hok.1
  obtain ⟨h₀, d₀, c₀, hf⟩ := following_channel he hraw before
    (fun p hp => hids p (by rw [hch]; exact List.mem_append_left _ hp)) (by
      have := hinv.frames
      rw [hch] at this
      exact this.of_prefix)
  obtain ⟨name, i, h₁, h₂, d₁, hmem, c₁, c₂, h3, hi, hname⟩ := following_byte he hraw hf hid hok p₁ b
  have hrun := (c₀.trans c₁).run
  rw [← hbytes] at hrun
  refine ⟨id, name, i, h₁, h₂, ?_, by rw [hpre, hrun], ?_, h3, hi, hname, ?_⟩
  · rw [hch]
    exact List.mem_append_left _ hmem
  · rw [hpre', handler_append _ hrun, c₂.run]
  · have hne : i ≠ rawCcplexPtyIdx := by simp only [rawCcplexPtyIdx]; omega
    rw [c₂.log, if_neg hne, only_self]

def firstClient : List Action := announcing 0 [0x61] ++ [.hangup 0, .send 0, .free 0]

theorem firstClient_runs : RunsTo anyStep firstClient { Daemon.start with
    task := Function.update Daemon.start.task 0 .finished
    pool := ⟨2, IdPool.new.used⟩
    channel := [(0, .connected 1 [0x61]), (0, .disconnected 1 [0x61])] } := by
  have hused : Function.update (Function.update IdPool.new.used 1 true) 1 false = IdPool.new.used := by
    rw [Function.update_idem]
    exact Function.update_eq_self 1 IdPool.new.used
  have halloc : Daemon.start.pool.alloc = some (1, ⟨2, Function.update IdPool.new.used 1 true⟩) := rfl
  have hname : fromUtf8Lossy [0x61] = [0x61] := rfl
  refine (announcing_runs rfl (by decide) rfl (by decide) halloc).trans
    (Machine.runs_of_foldlM (fun _ _ _ => trivial) ?_)
  simp [step, Daemon.setTask, Daemon.send, Daemon.start, channelCapacity, IdPool.free, hused, hname]

/-- 252 more clients come and go, and the cursor is back at 0x01. -/
theorem wrapped_runs : ∃ s, RunsTo anyStep (firstClient ++ passings 1 251 ++ passing 252) s ∧
    s.task 253 = .enrolling ∧ s.pool = ⟨1, IdPool.new.used⟩ ∧
    s.channel = [(0, .connected 1 [0x61]), (0, .disconnected 1 [0x61])] ∧
    s.received = 0 ∧ s.receiving = true ∧ s.unwritten = [] ∧ s.sink = [] := by
  obtain ⟨task, hkeep, hpass⟩ := passings_runs 251 (c := 1) (fun k _ => Function.update_of_ne (by omega) _ _)
    (owned firstClient_runs).sound (by decide +kernel)
  have hcand : candidate 2 251 = 0xfd := by decide +kernel
  have hr := firstClient_runs.trans hpass
  simp only [hcand] at hr
  have hnext : IdPool.NextFree ⟨0xfd, IdPool.new.used⟩ 0xff := ⟨2, by decide, rfl, rfl, by decide⟩
  refine ⟨_, hr.trans (passing_runs (hkeep 252 (by omega)) (owned hr).sound hnext), ?_, rfl, rfl, rfl, rfl, rfl, rfl⟩
  change Function.update task 252 .finished 253 = .enrolling
  rw [Function.update_of_ne (by decide)]
  exact hkeep 253 (by omega)

/-- The second client on 0x01 is announced and sends one byte, and the sink receives all frames. -/
def recycledChannel (name : Bytes) : List (Nat × Frame) :=
  [(0, .connected 1 [0x61]), (0, .disconnected 1 [0x61]), (253, .connected 1 name), (253, .data 1 [0x41])]

def untilSecond (name : Bytes) : List Action := firstClient ++ passings 1 251 ++ passing 252 ++ announcing 253 name

def lastClient (name : Bytes) : List Action := [.read 253 [0x41], .send 253] ++ draining (recycledChannel name)

section Recycled
variable {name : Bytes} (hlen : 0 < name.length ∧ name.length ≤ 255) (hname : fromUtf8Lossy name = name)
include hlen hname

theorem untilSecond_runs : ∃ s, RunsTo anyStep (untilSecond name) s ∧ s.task 253 = .reading name 1 ∧
    s.channel = [(0, .connected 1 [0x61]), (0, .disconnected 1 [0x61]), (253, .connected 1 name)] ∧
    s.received = 0 ∧ s.receiving = true ∧ s.unwritten = [] ∧ s.sink = [] := by
  obtain ⟨s, hr, ht, hp, hch, hn, hrec, hidle, hsink⟩ := wrapped_runs
  have halloc : s.pool.alloc = some (1, ⟨2, Function.update IdPool.new.used 1 true⟩) := by rw [hp]; rfl
  have hann := announcing_runs ht hlen hrec (by simp [hch, channelCapacity]) halloc
  refine ⟨_, hr.trans hann, ?_, ?_, hn, hrec, hidle, hsink⟩
  · simp [hname]
  · simp [hch, hname]

theorem recycled_runs : ∃ s t, RunsTo anyStep (untilSecond name) s ∧ s.task 253 = .reading name 1 ∧
    s.channel = [(0, .connected 1 [0x61]), (0, .disconnected 1 [0x61]), (253, .connected 1 name)] ∧
    Machine.Runs step anyStep s (lastClient name) t ∧
    t.channel = recycledChannel name ∧ t.sink = (recycledChannel name).flatMap (fun p => p.2.encode) := by
  obtain ⟨s, hr, ht, hch, hn, hrec, hidle, hsink⟩ := untilSecond_runs hlen hname
  have hchunk := chunk_runs ht (show 0 < ([0x41] : Bytes).length ∧ ([0x41] : Bytes).length ≤ maxRead by decide) hrec
    (by simp [hch, channelCapacity])
  have hdrain := hchunk.trans (draining_runs [] (recycledChannel name) (by simp [hch]; rfl) hn hrec hidle)
  refine ⟨s, _, hr, ht, hch, hdrain, ?_, ?_⟩
  · simp [hch]; rfl
  · simp [hsink]

end Recycled

def isRead : Action → Bool
  | .read _ _ => true
  | _ => false

/-- The condition is about reads only. -/
theorem readsUnderFirstName_of_notRead {as : List Action} (h : as.all (fun a => !isRead a) = true) :
    ∀ u, ∀ a ∈ as, readsUnderFirstName u a := by
  intro u a ha c chunk name id heq
  subst heq
  have hnot : (!isRead (Action.read c chunk)) = true := List.all_eq_true.mp h _ ha
  cases hnot

/-- The identifier 0x01 is handed out again to a client of the same name. -/
theorem sessions_attributed_reusedId : ∃ as s, RunsTo readsUnderFirstName as s ∧
    s.sink = (recycledChannel [0x61]).flatMap (fun p => p.2.encode) ∧ Attributed quietEnv s := by
  obtain ⟨s, t, hr, ht, hch, hlast, -, hsink⟩ :=
    recycled_runs (show 0 < ([0x61] : Bytes).length ∧ ([0x61] : Bytes).length ≤ 255 by decide) rfl
  have hfirst : RunsTo readsUnderFirstName (untilSecond [0x61]) s :=
    hr.permitted (readsUnderFirstName_of_notRead (by decide +kernel))
  obtain ⟨u, -, hread, hrest⟩ := hlast.head
  have hok : readsUnderFirstName s (.read 253 [0x41]) := by
    intro c chunk name id ha htask
    cases ha
    rw [ht] at htask
    cases htask
    refine ⟨by decide, by decide, ?_⟩
    intro first hf
    rw [hch] at hf
    cases hf
    rfl
  have hall := (Machine.Runs.snoc hfirst hok hread).trans (hrest.permitted (readsUnderFirstName_of_notRead (by decide +kernel)))
  exact ⟨_, t, hall, hsink, sessions_attributed quietEnv_healthy rfl hall⟩

/-- The identifier 0x01 is handed out again, and the byte of the session `b` is logged
under the name `a`. -/
theorem recycled_id_misattributed : ∃ s, RunsTo anyStep (untilSecond [0x62] ++ lastClient [0x62]) s ∧
    ¬ Attributed quietEnv s := by
  obtain ⟨_, s, hfirst, -, -, hlast, hch, hsink⟩ :=
    recycled_runs (show 0 < ([0x62] : Bytes).length ∧ ([0x62] : Bytes).length ≤ 255 by decide) rfl
  refine ⟨s, hfirst.trans hlast, ?_⟩
  intro hattr
  have hbyte : markedWire s.channel = (markedWire s.channel).take 23 ++ (0x41, some 253) :: [(0xfe, none), (0, none)] := by
    rw [hch]
    decide +kernel
  obtain ⟨id, name, i, h, h', hmem, -, hrun, -, hi, hname, -⟩ := hattr _ _ _ _ hbyte (by rw [hch, hsink]; decide +kernel)
  have hb : id = 1 ∧ name = [0x62] := by
    rw [hch] at hmem
    simpa [recycledChannel] using hmem
  -- the table the host has built holds the three built-in names and `a`
  have hnone : ∀ j < (ttyInputHandler quietEnv (start quietEnv)
      (((recycledChannel [0x62]).flatMap (fun p => p.2.encode)).take 24)).1.table.numProc,
      ((ttyInputHandler quietEnv (start quietEnv)
        (((recycledChannel [0x62]).flatMap (fun p => p.2.encode)).take 24)).1.table.tags j).name ≠ some [0x62] := by
    decide +kernel
  have hlen : ((markedWire s.channel).take 23).length + 1 = 24 := by
    rw [hch]
    decide +kernel
  rw [hlen, hsink] at hrun
  rw [hrun] at hnone
  exact hnone i hi (hb.2 ▸ hname)

end VirtiosoMux.Attribution
