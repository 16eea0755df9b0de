import VirtiosoMux.Generator.Registry

/-! # What the generator emits

The instances in their order, with the identifiers 1, 2, … for those with a console. The
endpoints of the connections are the only other names that reach the registry.
-/
namespace VirtiosoMux.Generator
open Json

/-! ### Identifiers are plain -/

theorem ident_char {c : Nat} (hc : isIdentRest c = true) : Plain c ∧ c < 256 := by
  simp only [isIdentRest, isIdentStart, Bool.or_eq_true, Bool.and_eq_true, decide_eq_true_eq, beq_iff_eq] at hc
  unfold Plain
  omega

theorem Ident.chars (i : Ident) : ∀ c ∈ i.text, isIdentRest c = true := by
  obtain ⟨text, hvalid⟩ := i
  cases text with
  | nil => simp
  | cons c rest =>
    simp only [isIdent, Bool.and_eq_true, List.all_eq_true] at hvalid
    intro x hx
    rcases List.mem_cons.mp hx with rfl | hx
    · simp [isIdentRest, hvalid.1]
    · exact hvalid.2 x hx

theorem Ident.plain (i : Ident) : ∀ c ∈ i.text, Plain c := fun c hc => (ident_char (i.chars c hc)).1

def Ident.bytes (i : Ident) : List UInt8 := i.text.map UInt8.ofNat

theorem Ident.bytes_inj {i j : Ident} (h : i.bytes = j.bytes) : i = j := by
  have hnat : ∀ k : Ident, k.bytes.map UInt8.toNat = k.text := by
    intro k
    rw [Ident.bytes, List.map_map]
    refine (List.map_congr_left ?_).trans (List.map_id _)
    intro c hc
    exact UInt8.toNat_ofNat_of_lt' (ident_char (k.chars c hc)).2
  have htext : i.text = j.text := by rw [← hnat i, ← hnat j, h]
  cases i
  cases j
  cases htext
  rfl

/-! ### Stream identifiers -/

theorem nextStreamId_eq {n : Nat} (h1 : 1 ≤ n) (h2 : n ≤ 252) : nextStreamId n = n := by
  rw [nextStreamId, if_neg]
  simp only [reservedStreamIds, List.mem_cons, List.not_mem_nil, or_false]
  omega

def Assembly.hasConsole (a : Assembly) (i : Instance) : Bool := !(a.consoleInterfaces i.componentType).isEmpty

def consoleCount (a : Assembly) (instances : List Instance) : Nat := instances.countP a.hasConsole

def streamOf (a : Assembly) (streamId : Int) (streamIdSource : Text) (i : Instance) : Stream :=
  ⟨streamId, i.componentName, i.componentType, streamIdSource, streamDirection (a.consoleInterfaces i.componentType),
    a.consoleInterfaces i.componentType⟩

/-- The streams of instances when `n` identifiers are in use. -/
def assigned (a : Assembly) : Nat → List Instance → List Stream
  | _, [] => []
  | n, i :: rest =>
    if a.hasConsole i then streamOf a ((n + 1 : Nat) : Int) (codes "component.common.c") i :: assigned a (n + 1) rest
    else streamOf a (-1) (codes "none") i :: assigned a n rest

/-- The same when `next` is the next identifier to try, which may have passed the last valid one. -/
def assignedFrom (a : Assembly) : Nat → List Instance → List Stream
  | _, [] => []
  | next, i :: rest =>
    if a.hasConsole i then
      streamOf a (nextStreamId next) (codes "component.common.c") i :: assignedFrom a (nextStreamId next + 1) rest
    else streamOf a (-1) (codes "none") i :: assignedFrom a next rest

/-- While identifiers last they are consecutive. -/
theorem assignedFrom_eq (a : Assembly) {n : Nat} {instances : List Instance} (hcount : n + consoleCount a instances ≤ 252) :
    assignedFrom a (n + 1) instances = assigned a n instances := by
  induction instances generalizing n with
  | nil => rfl
  | cons i rest ih =>
    rw [assignedFrom, assigned]
    cases hcons : a.hasConsole i with
    | true =>
      have hcount' : n + 1 + consoleCount a rest ≤ 252 := by
        simp only [consoleCount, List.countP_cons, hcons, if_true] at hcount ⊢
        omega
      rw [if_pos rfl, if_pos rfl, nextStreamId_eq (by omega) (by omega), ih hcount']
    | false =>
      have hcount' : n + consoleCount a rest ≤ 252 := by
        simpa [consoleCount, List.countP_cons, hcons] using hcount
      rw [if_neg Bool.false_ne_true, if_neg Bool.false_ne_true, ih hcount']

/-- What one instance adds if its name is new. -/
theorem addInstance_new {a : Assembly} {s : Instances} {i : Instance} (hseen : i.componentName ∉ s.seen) :
    addInstance a s i =
      if a.hasConsole i then
        .ok ⟨s.streams ++ [streamOf a (nextStreamId s.nextStreamId) (codes "component.common.c") i],
          s.seen ++ [i.componentName], nextStreamId s.nextStreamId + 1⟩
      else .ok ⟨s.streams ++ [streamOf a (-1) (codes "none") i], s.seen ++ [i.componentName], s.nextStreamId⟩ := by
  by_cases hcons : a.consoleInterfaces i.componentType = []
  · simp [addInstance, hseen, hcons, streamOf, Assembly.hasConsole]
  · simp [addInstance, hseen, hcons, streamOf, Assembly.hasConsole]

theorem addInstances_eq (a : Assembly) (rest : List Instance) {s s' : Instances}
    (h : rest.foldlM (addInstance a) s = .ok s') :
    s'.streams = s.streams ++ assignedFrom a s.nextStreamId rest ∧
      (s.seen.Nodup → (s.seen ++ rest.map Instance.componentName).Nodup) := by
  induction rest generalizing s with
  | nil =>
    cases h
    simp [assignedFrom]
  | cons i rest ih =>
    rw [List.foldlM_cons] at h
    by_cases hseen : i.componentName ∈ s.seen
    · simp only [addInstance, if_pos hseen] at h
      cases h
    have hfresh : s.seen.Nodup → (s.seen ++ [i.componentName]).Nodup := by
      intro hnodup
      exact List.nodup_append.mpr ⟨hnodup, by simp, by
        intro x hx y hy
        rw [List.mem_singleton.mp hy]
        rintro rfl
        exact hseen hx⟩
    rw [addInstance_new hseen] at h
    rw [assignedFrom]
    split at h
    · rename_i hcons
      obtain ⟨hstreams, hnodup⟩ := ih h
      rw [if_pos hcons, hstreams]
      exact ⟨by simp, fun hs => by simpa using hnodup (hfresh hs)⟩
    · rename_i hcons
      obtain ⟨hstreams, hnodup⟩ := ih h
      rw [if_neg hcons, hstreams]
      exact ⟨by simp, fun hs => by simpa using hnodup (hfresh hs)⟩

theorem addInstances_ok (a : Assembly) (rest : List Instance) {s : Instances}
    (hnodup : (s.seen ++ rest.map Instance.componentName).Nodup) :
    ∃ s', rest.foldlM (addInstance a) s = .ok s' := by
  induction rest generalizing s with
  | nil => exact ⟨s, rfl⟩
  | cons i rest ih =>
    have hseen : i.componentName ∉ s.seen := by
      intro hmem
      exact (List.nodup_append.mp hnodup).2.2 _ hmem i.componentName (by simp) rfl
    have hnodup' : ((s.seen ++ [i.componentName]) ++ rest.map Instance.componentName).Nodup := by simpa using hnodup
    rw [List.foldlM_cons, addInstance_new hseen]
    split
    · exact ih hnodup'
    · exact ih hnodup'

/-- What an accepted composition leads to, whatever its size. -/
theorem componentInstances_streams {a : Assembly} {streams : List Stream} (h : componentInstances a = .ok streams) :
    streams = assignedFrom a 1 a.instances ∧ (a.instances.map Instance.componentName).Nodup := by
  unfold componentInstances at h
  split at h
  · cases h
  · rename_i s hs
    split at h
    · cases h
    · cases h
      obtain ⟨hstreams, hnodup⟩ := addInstances_eq a a.instances hs
      exact ⟨by simpa using hstreams, by simpa using hnodup List.nodup_nil⟩

/-- Instances with distinct names are accepted. -/
theorem componentInstances_accepted {a : Assembly} (hne : a.instances ≠ [])
    (hnodup : (a.instances.map Instance.componentName).Nodup) :
    componentInstances a = .ok (assignedFrom a 1 a.instances) := by
  obtain ⟨s, hs⟩ := addInstances_ok a a.instances (s := ⟨[], [], 1⟩) (by simpa using hnodup)
  have hstreams : s.streams = assignedFrom a 1 a.instances := (addInstances_eq a a.instances hs).1
  have hassigned : assignedFrom a 1 a.instances ≠ [] := by
    obtain ⟨i, rest, hinst⟩ := List.exists_cons_of_ne_nil hne
    rw [hinst, assignedFrom]
    split <;> simp
  rw [componentInstances, hs]
  simp only [hstreams, if_neg hassigned]

theorem componentInstances_eq {a : Assembly} {streams : List Stream} (h : componentInstances a = .ok streams)
    (hcount : consoleCount a a.instances ≤ 252) :
    streams = assigned a 0 a.instances ∧ (a.instances.map Instance.componentName).Nodup := by
  obtain ⟨hstreams, hnodup⟩ := componentInstances_streams h
  exact ⟨hstreams.trans (assignedFrom_eq a (by omega)), hnodup⟩

theorem componentInstances_ok {a : Assembly} (hne : a.instances ≠ []) (hcount : consoleCount a a.instances ≤ 252)
    (hnodup : (a.instances.map Instance.componentName).Nodup) :
    componentInstances a = .ok (assigned a 0 a.instances) := by
  rw [componentInstances_accepted hne hnodup, assignedFrom_eq a (n := 0) (by omega)]

/-! ### Properties of the assigned streams -/

theorem assigned_component (a : Assembly) (n : Nat) (instances : List Instance) :
    (assigned a n instances).map Stream.component = instances.map Instance.componentName := by
  induction instances generalizing n with
  | nil => rfl
  | cons i rest ih =>
    rw [assigned]
    split <;> simp [streamOf, ih]

theorem assignedFrom_component (a : Assembly) (next : Nat) (instances : List Instance) :
    (assignedFrom a next instances).map Stream.component = instances.map Instance.componentName := by
  induction instances generalizing next with
  | nil => rfl
  | cons i rest ih =>
    rw [assignedFrom]
    split <;> simp [streamOf, ih]

theorem mem_assigned {a : Assembly} {n : Nat} {instances : List Instance} {s : Stream}
    (h : s ∈ assigned a n instances) :
    ∃ i ∈ instances, s.component = i.componentName ∧ s.interfaces = a.consoleInterfaces i.componentType ∧
      s.direction = streamDirection (a.consoleInterfaces i.componentType) ∧
      (s.streamId < 0 ↔ a.consoleInterfaces i.componentType = []) ∧
      (0 ≤ s.streamId → (n : Int) < s.streamId ∧ s.streamId ≤ n + consoleCount a instances) := by
  induction instances generalizing n with
  | nil => simp [assigned] at h
  | cons i rest ih =>
    rw [assigned] at h
    cases hcons : a.hasConsole i with
    | true =>
      have hne : a.consoleInterfaces i.componentType ≠ [] := by simpa [Assembly.hasConsole] using hcons
      have hcount : consoleCount a (i :: rest) = consoleCount a rest + 1 := by simp [consoleCount, hcons]
      rw [if_pos hcons] at h
      rcases List.mem_cons.mp h with rfl | h
      · refine ⟨i, List.mem_cons_self, rfl, rfl, rfl, ?_, fun _ => ?_⟩
        · simp only [streamOf, hne, iff_false]
          omega
        · rw [hcount]
          simp only [streamOf]
          omega
      · obtain ⟨i', hi', hc, hf, hd, hneg, hrange⟩ := ih h
        refine ⟨i', List.mem_cons_of_mem _ hi', hc, hf, hd, hneg, fun hpos => ?_⟩
        have := hrange hpos
        rw [hcount]
        omega
    | false =>
      have hnil : a.consoleInterfaces i.componentType = [] := by simpa [Assembly.hasConsole] using hcons
      have hcount : consoleCount a (i :: rest) = consoleCount a rest := by simp [consoleCount, hcons]
      rw [if_neg (by simp [hcons])] at h
      rw [hcount]
      rcases List.mem_cons.mp h with rfl | h
      · refine ⟨i, List.mem_cons_self, rfl, rfl, rfl, ?_, ?_⟩
        · simp [streamOf, hnil]
        · simp [streamOf]
      · obtain ⟨i', hi', hrest⟩ := ih h
        exact ⟨i', List.mem_cons_of_mem _ hi', hrest⟩

theorem instance_assigned {a : Assembly} {n : Nat} {instances : List Instance} {i : Instance} (h : i ∈ instances) :
    ∃ s ∈ assigned a n instances, s.component = i.componentName ∧
      s.interfaces = a.consoleInterfaces i.componentType ∧
      s.direction = streamDirection (a.consoleInterfaces i.componentType) ∧
      (s.streamId < 0 ↔ a.consoleInterfaces i.componentType = []) := by
  induction instances generalizing n with
  | nil => simp at h
  | cons j rest ih =>
    rw [assigned]
    rcases List.mem_cons.mp h with rfl | h
    · cases hcons : a.hasConsole i with
      | true =>
        have hne : a.consoleInterfaces i.componentType ≠ [] := by simpa [Assembly.hasConsole] using hcons
        refine ⟨streamOf a ((n + 1 : Nat) : Int) (codes "component.common.c") i, by simp, rfl, rfl, rfl, ?_⟩
        simp only [streamOf, hne, iff_false]
        omega
      | false =>
        have hnil : a.consoleInterfaces i.componentType = [] := by simpa [Assembly.hasConsole] using hcons
        exact ⟨streamOf a (-1) (codes "none") i, by simp, rfl, rfl, rfl, by simp [streamOf, hnil]⟩
    · split
      · obtain ⟨s, hs, hrest⟩ := ih (n := n + 1) h
        exact ⟨s, List.mem_cons_of_mem _ hs, hrest⟩
      · obtain ⟨s, hs, hrest⟩ := ih (n := n) h
        exact ⟨s, List.mem_cons_of_mem _ hs, hrest⟩

theorem assigned_streamId_ge {a : Assembly} {n : Nat} {instances : List Instance} {s : Stream}
    (h : s ∈ assigned a n instances) : -1 ≤ s.streamId := by
  induction instances generalizing n with
  | nil => simp [assigned] at h
  | cons i rest ih =>
    rw [assigned] at h
    split at h
    · rcases List.mem_cons.mp h with rfl | h
      · simp only [streamOf]
        omega
      · exact ih h
    · rcases List.mem_cons.mp h with rfl | h
      · simp [streamOf]
      · exact ih h

def listed (streams : List Stream) : List Stream := streams.filter (fun s => decide (0 ≤ s.streamId))

/-- Their identifiers ascend. -/
theorem listed_ascending (a : Assembly) (n : Nat) (instances : List Instance) :
    ((listed (assigned a n instances)).map Stream.streamId).Pairwise (· < ·) := by
  induction instances generalizing n with
  | nil => simp [assigned, listed]
  | cons i rest ih =>
    rw [assigned]
    split
    · have hpos : (0 : Int) ≤ (streamOf a ((n + 1 : Nat) : Int) (codes "component.common.c") i).streamId := by
        simp only [streamOf]
        omega
      rw [listed, List.filter_cons_of_pos (by simpa using hpos), List.map_cons, List.pairwise_cons]
      refine ⟨?_, ih (n + 1)⟩
      intro x hx
      obtain ⟨s, hs, rfl⟩ := List.mem_map.mp hx
      obtain ⟨hmem, hnonneg⟩ := List.mem_filter.mp hs
      obtain ⟨-, -, -, -, -, -, hrange⟩ := mem_assigned hmem
      have := (hrange (by simpa using hnonneg)).1
      simp only [streamOf]
      omega
    · rw [listed, List.filter_cons_of_neg (by simp [streamOf])]
      exact ih n

theorem listed_length (a : Assembly) (n : Nat) (instances : List Instance) :
    (listed (assigned a n instances)).length = consoleCount a instances := by
  induction instances generalizing n with
  | nil => rfl
  | cons i rest ih =>
    rw [assigned]
    cases hcons : a.hasConsole i with
    | true =>
      have hpos : (0 : Int) ≤ (streamOf a ((n + 1 : Nat) : Int) (codes "component.common.c") i).streamId := by
        simp only [streamOf]
        omega
      rw [if_pos rfl, listed, List.filter_cons_of_pos (by simpa using hpos), List.length_cons]
      simp only [listed] at ih
      simp [ih, consoleCount, hcons]
    | false =>
      rw [if_neg (by decide), listed, List.filter_cons_of_neg (by simp [streamOf])]
      simp only [listed] at ih
      simp [ih, consoleCount, hcons]

/-! ### Connections -/

def Connection.names (c : Connection) : Ident × Ident × Ident := (c.toComponent, c.toInterface, c.fromComponent)
def MuxSource.names (m : MuxSource) : Ident × Ident × Ident := (m.muxComponent, m.muxInterface, m.component)
def DemuxSink.names (d : DemuxSink) : Ident × Ident × Ident := (d.demuxComponent, d.demuxInterface, d.component)

theorem muxSources_names {a : Assembly} {streams : List Stream} {sources : List MuxSource}
    (h : muxSources a streams = .ok sources) :
    sources.map MuxSource.names = (a.connections.filter intoMux).map Connection.names := by
  have hall : ∀ (cs : List Connection) (ms : List MuxSource), cs.mapM (muxSource streams) = .ok ms →
      ms.map MuxSource.names = cs.map Connection.names := by
    intro cs
    induction cs with
    | nil =>
      intro ms hms
      cases hms
      rfl
    | cons c cs ih =>
      intro ms hms
      rw [List.mapM_cons] at hms
      cases hc : muxSource streams c with
      | error e =>
        rw [hc] at hms
        cases hms
      | ok m =>
        cases hrest : cs.mapM (muxSource streams) with
        | error e =>
          rw [hc, hrest] at hms
          cases hms
        | ok rest =>
          rw [hc, hrest] at hms
          cases hms
          have hm : m.names = c.names := by
            unfold muxSource at hc
            split at hc
            · cases hc
            · cases hc
              rfl
          simp [hm, ih rest hrest]
  exact hall _ _ h

theorem demuxSinks_names {a : Assembly} {streams : List Stream} {sinks : List DemuxSink}
    (h : demuxSinks a streams = .ok sinks) :
    sinks.map DemuxSink.names = (a.connections.filter fromDemux).map Connection.names := by
  have hall : ∀ (cs : List Connection) (s s' : Sinks), cs.foldlM (demuxSink streams) s = .ok s' →
      s'.sinks.map DemuxSink.names = s.sinks.map DemuxSink.names ++ cs.map Connection.names := by
    intro cs
    induction cs with
    | nil =>
      intro s s' hs
      cases hs
      simp
    | cons c cs ih =>
      intro s s' hs
      rw [List.foldlM_cons] at hs
      cases hc : demuxSink streams s c with
      | error e =>
        rw [hc] at hs
        cases hs
      | ok s₁ =>
        rw [hc] at hs
        have hnames : s₁.sinks.map DemuxSink.names = s.sinks.map DemuxSink.names ++ [c.names] := by
          unfold demuxSink at hc
          split at hc
          · cases hc
          · cases hc
            simp [DemuxSink.names, Connection.names]
        rw [ih s₁ s' hs, hnames]
        simp
  unfold demuxSinks at h
  split at h
  · cases h
  · rename_i s hs
    cases h
    simpa using hall _ _ _ hs

/-! ### The registry -/

theorem generate_ok {a : Assembly} {name source : Text} {r : Registry} (h : generate a name source = .ok r) :
    componentInstances a = .ok r.streams ∧ muxSources a r.streams = .ok r.muxSources ∧
      demuxSinks a r.streams = .ok r.demuxSinks ∧ r.name = name ∧ r.source = source := by
  unfold generate at h
  split at h
  · cases h
  · rename_i streams hstreams
    split at h
    · cases h
    · rename_i sources hsources
      split at h
      · cases h
      · rename_i sinks hsinks
        cases h
        exact ⟨hstreams, hsources, hsinks, rfl, rfl⟩

end VirtiosoMux.Generator
