import Mathlib
import VirtiosoMux.Host.Announce
import VirtiosoMux.Host.LogFiles
import VirtiosoMux.Host.Registry
import VirtiosoMux.Camkes.Uplink

/-! # Uplink from the CAmkES multiplexer to the host

The chunks of the batches and the acknowledgements of the receiver share the line, and an
acknowledgement may fall between two chunks of one batch. It leaves the cursor of the host
alone, so the payload goes on where it was interrupted.
-/
namespace VirtiosoMux.CamkesUplink
open Host Camkes

/-- One `console_mux_uplink_bytes` call of a batch, or one `console_mux_emit_downlink_ack`. -/
inductive LineItem
  | call (bytes : Bytes)
  | ack (streamId : Int)

def LineItem.bytes : LineItem → Bytes
  | .call bytes => bytes
  | .ack streamId => (consoleMuxEmitDownlinkAck streamId).flatten

def LineItem.callBytes : LineItem → Option Bytes
  | .call bytes => some bytes
  | .ack _ => none

/-- The number of acknowledgements emitted: none for an invalid stream. -/
def LineItem.acks : LineItem → Nat
  | .call _ => 0
  | .ack streamId => (consoleMuxEmitDownlinkAck streamId).length

def lineBytes (items : List LineItem) : Bytes := items.flatMap LineItem.bytes
def ackCount (items : List LineItem) : Nat := (items.map LineItem.acks).sum

def ListedId (t : Table) (id : Byte) : Prop := ∃ i, 3 ≤ i ∧ i < t.numProc ∧ (t.tags i).value = id

structure Served (t : Table) (b : BatchBuffer) : Prop where
  listed : ∃ i, 3 ≤ i ∧ i < t.numProc ∧ (t.tags i).value.toNat = b.streamId.toNat
  order : b.head.toNat ≤ b.tail.toNat
  bounded : b.tail.toNat ≤ batchSize

theorem Served.proper {t : Table} (hc : t.Clean) {b : BatchBuffer} (hb : Served t b) :
    b.Proper ∧ ListedId t b.id ∧ b.id.toNat = b.streamId.toNat := by
  obtain ⟨i, h3, hi, hv⟩ := hb.listed
  have hlt := (t.tags i).value.toNat_lt
  obtain ⟨h0, h1, h2⟩ := not_reserved_iff.mp (hc.selectable i h3 hi)
  have hint : toInt b.streamId = b.streamId.toNat := by
    rw [toInt, if_pos (by omega)]
  have hid : b.id = (t.tags i).value := by
    rw [BatchBuffer.id, hint, streamByte, Int.toNat_natCast, ← hv]
    simp
  refine ⟨⟨?_, hb.order⟩, ⟨i, h3, hi, hid.symm⟩, by rw [hid, hv]⟩
  have hne : ∀ x : Byte, (t.tags i).value ≠ x → b.streamId.toNat ≠ x.toNat := by
    intro x hx heq
    exact hx (UInt8.toNat_inj.mp (hv.trans heq))
  have h0 : b.streamId.toNat ≠ 0 := hne 0 h0
  have h1 : b.streamId.toNat ≠ 0xfd := hne 0xfd h1
  have h2 : b.streamId.toNat ≠ 0xfe := hne 0xfe h2
  rw [hint]
  simp only [consoleMuxValidStreamId, Bool.and_eq_true, decide_eq_true_eq]
  omega

/-! ### Chunks at the host -/

def delivered (t : Table) (cs : List Chunk) (i : Nat) : Bytes :=
  if 3 ≤ i ∧ i < t.numProc then cs.flatMap (Chunk.payload (t.tags i).value) else []

def cursorAfter (t : Table) : Chunk → Option Nat
  | .opened id _ => findVirtiosoPtyIdxByStreamId t id
  | .closed _ _ => none
  | .close => none

theorem delivered_append (t : Table) (cs cs' : List Chunk) (i : Nat) :
    delivered t (cs ++ cs') i = delivered t cs i ++ delivered t cs' i := by
  by_cases hi : 3 ≤ i ∧ i < t.numProc <;> simp [delivered, hi]

/-- A part of a listed stream goes to the slot of that stream only. -/
theorem only_eq_delivered {t : Table} (hc : t.Clean) {id : Byte} {i : Nat} (h3 : 3 ≤ i) (hi : i < t.numProc)
    (hv : (t.tags i).value = id) {c : Chunk} {part : Bytes} (hpay : ∀ x, c.payload x = if id = x then part else [])
    (j : Nat) : only i part j = delivered t [c] j := by
  by_cases hj : j = i
  · subst hj
    simp [delivered, h3, hi, hpay, hv]
  · rw [only_of_ne hj, delivered]
    split
    · rename_i hj'
      have hne : id ≠ (t.tags j).value := by
        rintro rfl
        exact hj (hc.distinct j i hj'.1 hj'.2 h3 hi hv.symm)
      simp [hpay, hne]
    · rfl

theorem callBytes_cons (items : List LineItem) (item : LineItem) :
    (item :: items).filterMap LineItem.callBytes = item.callBytes.toList ++ items.filterMap LineItem.callBytes := by
  cases item <;> rfl

/-- A registry that the host accepts, batches of its streams, and the calls that send them, with
acknowledgements between the calls. -/
structure OnLine (env : Env) (json : Bytes) (batches : List BatchBuffer) (items : List LineItem) : Prop where
  noNul : (0 : Byte) ∉ json
  length : json.length ≤ 4083
  accepted : (applyVirtiosoRegistryJson env (start env) json).2 = true
  served : ∀ b ∈ batches, Served (applyVirtiosoRegistryJson env (start env) json).1.table b
  calls : items.filterMap LineItem.callBytes = batchCalls json false batches

section Host
variable {env : Env} (he : env.Healthy) (hraw : env.virtiosoOuterMode = .raw)
include he hraw

theorem segment_chunk {h : State} {cur : Option Nat} (hr : h.Ready) (ha : AtRest h cur) (hc : h.table.Clean)
    (c : Chunk) (hlisted : ∀ id ∈ c.streams, ListedId h.table id) :
    ∃ h', Segment env h c.bytes h' (delivered h.table [c]) 0 (cursorAfter h.table c) := by
  cases c with
  | opened id part =>
    obtain ⟨i, h3, hi, hv⟩ := hlisted id (by simp [Chunk.streams])
    have hid : ¬ Reserved id := hv ▸ hc.selectable i h3 hi
    have hfind : findVirtiosoPtyIdxByStreamId h.table id = some i := hv ▸ hc.find_slot h3 hi
    obtain ⟨h₁, s₁⟩ := segment_select he hraw hr ha hid
    obtain ⟨h₂, s₂⟩ := segment_payload he hraw s₁.ready s₁.rest hfind (by rw [s₁.table]; exact hi)
      (by simp only [rawCcplexPtyIdx]; omega) part
    refine ⟨h₂, ?_⟩
    rw [cursorAfter, hfind]
    exact (s₁.trans s₂).congr (fun j _ => by
      rw [List.nil_append]
      exact only_eq_delivered hc h3 hi hv (fun _ => rfl) j)
  | closed id part =>
    obtain ⟨i, h3, hi, hv⟩ := hlisted id (by simp [Chunk.streams])
    have hid : ¬ Reserved id := hv ▸ hc.selectable i h3 hi
    have hfind : findVirtiosoPtyIdxByStreamId h.table id = some i := hv ▸ hc.find_slot h3 hi
    obtain ⟨h₁, s₁⟩ := segment_frame he hraw hr ha hid hfind (by simp only [rawCcplexPtyIdx]; omega) part
    exact ⟨h₁, s₁.congr (fun j _ => only_eq_delivered hc h3 hi hv (fun _ => rfl) j)⟩
  | close =>
    obtain ⟨h₁, s₁⟩ := segment_close he hraw hr ha
    exact ⟨h₁, s₁.congr (fun j _ => by simp [delivered, Chunk.payload])⟩

theorem segment_lineAck {h : State} {cur : Option Nat} (hr : h.Ready) (ha : AtRest h cur) (streamId : Int) :
    ∃ h', Segment env h (LineItem.ack streamId).bytes h' (fun _ => []) (LineItem.ack streamId).acks cur := by
  by_cases hv : consoleMuxValidStreamId streamId = true
  · obtain ⟨h₁, s₁⟩ := segment_ack he hraw hr ha
    refine ⟨h₁, ?_⟩
    simpa [LineItem.bytes, LineItem.acks, consoleMuxEmitDownlinkAck, hv, ackBytes] using s₁
  · refine ⟨h, ?_⟩
    simpa [LineItem.bytes, LineItem.acks, consoleMuxEmitDownlinkAck, hv] using Segment.refl env hr ha

/-- Chunks of listed streams with acknowledgements anywhere between them. -/
theorem segment_items (items : List LineItem) {cs : List Chunk} {h : State} {cur : Option Nat} (hr : h.Ready)
    (ha : AtRest h cur) (hc : h.table.Clean) (hitems : items.filterMap LineItem.callBytes = cs.map Chunk.bytes)
    (hlisted : ∀ c ∈ cs, ∀ id ∈ c.streams, ListedId h.table id) :
    ∃ h', Segment env h (lineBytes items) h' (delivered h.table cs) (ackCount items)
      (cs.foldl (fun _ c => cursorAfter h.table c) cur) := by
  induction items generalizing cs h cur with
  | nil =>
    have hcs : cs = [] := List.map_eq_nil_iff.mp hitems.symm
    subst hcs
    exact ⟨h, (Segment.refl env hr ha).congr (fun j _ => by simp [delivered])⟩
  | cons item items ih =>
    cases item with
    | ack streamId =>
      obtain ⟨h₁, s₁⟩ := segment_lineAck he hraw hr ha streamId
      obtain ⟨h₂, s₂⟩ := ih s₁.ready s₁.rest (by rw [s₁.table]; exact hc) hitems (by rw [s₁.table]; exact hlisted)
      rw [s₁.table] at s₂
      exact ⟨h₂, (s₁.trans s₂).congr (fun j _ => List.nil_append _)⟩
    | call bytes =>
      rw [callBytes_cons] at hitems
      obtain ⟨c, cs', rfl, hbytes, hrest⟩ := List.map_eq_cons_iff.mp hitems.symm
      obtain ⟨h₁, s₁⟩ := segment_chunk he hraw hr ha hc c (hlisted c List.mem_cons_self)
      obtain ⟨h₂, s₂⟩ := ih s₁.ready s₁.rest (by rw [s₁.table]; exact hc) hrest.symm
        (by rw [s₁.table]; exact fun c' h' => hlisted c' (List.mem_cons_of_mem _ h'))
      rw [s₁.table] at s₂
      refine ⟨h₂, ?_⟩
      have hs := (s₁.trans s₂).congr (fun j _ => (delivered_append h.table [c] cs' j).symm)
      rw [hbytes] at hs
      simpa [lineBytes, ackCount, LineItem.bytes, LineItem.acks] using hs

/-- The registry record in the initial state. -/
theorem consumes_first_registry {h : State} (hr : h.Ready) (ha : AtRest h none) (hg : h.virtiosoRegistryJson = none)
    (ht : h.table = initVirtiosoTags) {json : Bytes} (hnul : (0 : Byte) ∉ json) (hlen : json.length ≤ 4083)
    {t : Table} (hreg : registryTable initVirtiosoTags json = some t) :
    ∃ h', Consumes env h (recordBytes vcmuxProtoControlStreamRegistry json) h' (fun _ => []) 0 ∧ AtRest h' none ∧
      h'.table = t := by
  have hne : json ≠ [] := by
    rintro rfl
    exact absurd hreg (by simp [registryTable, jsonFindArrayAfter, afterKeyColon, strstr, ascii])
  refine consumes_registry he hraw hr ha hne (by omega) hg hnul ?_
  intro g hgr hgt
  have happly := applyVirtiosoRegistryJson_healthy he hgr (by rw [hgt, ht]; exact initVirtiosoTags_clean) json
  rw [hgt, ht, hreg] at happly
  exact happly

/-- A line with chunks on it: only acknowledgements precede the registry, and the table is that of the registry behind it. -/
theorem consumes_chunks {json : Bytes} (hnul : (0 : Byte) ∉ json) (hlen : json.length ≤ 4083) {t : Table}
    (hreg : registryTable initVirtiosoTags json = some t) {front : List Chunk} {last : Chunk}
    (hlisted : ∀ c ∈ front ++ [last], ∀ id ∈ c.streams, ListedId t id) (hlast : last.Closes) (items : List LineItem)
    (hitems : items.filterMap LineItem.callBytes =
      consoleMuxMaybeEmitRegistry json false ++ (front ++ [last]).map Chunk.bytes) :
    ∃ h, Consumes env (start env) (lineBytes items) h (delivered t (front ++ [last])) (ackCount items) ∧ AtRest h none ∧
      h.table = t := by
  obtain ⟨ht, hp, hr, -, -, hg⟩ := start_healthy he
  have hclean : (start env).table.Clean := by rw [ht]; exact initVirtiosoTags_clean
  have ha : AtRest (start env) none := by
    constructor <;> rw [hp] <;> rfl
  have hmaybe : consoleMuxMaybeEmitRegistry json false = [recordBytes vcmuxProtoControlStreamRegistry json] :=
    emitRegistry_record hlen
  rw [hmaybe, List.singleton_append] at hitems
  obtain ⟨before, item, after, rfl, hbefore, hitem, hafter⟩ := List.filterMap_eq_cons_iff.mp hitems
  obtain ⟨h₁, s₁⟩ := segment_items he hraw before hr ha hclean
    ((List.filterMap_eq_nil_iff.mpr hbefore).trans (List.map_nil).symm) (by simp)
  obtain ⟨h₂, c₂, r₂, t₂⟩ := consumes_first_registry he hraw s₁.ready s₁.rest (s₁.registry.trans hg)
    (s₁.table.trans ht) hnul hlen hreg
  subst t₂
  have hclean₂ := (registryTable_sound initVirtiosoTags_clean hreg).1
  obtain ⟨h₃, s₃⟩ := segment_items he hraw after c₂.ready r₂ hclean₂ hafter hlisted
  have hrest : (front ++ [last]).foldl (fun _ c => cursorAfter h₂.table c) none = none := by
    rw [List.foldl_append]
    cases last with
    | opened => exact absurd hlast id
    | closed => rfl
    | close => rfl
  have hbytes : item.bytes = recordBytes vcmuxProtoControlStreamRegistry json ∧ item.acks = 0 := by
    cases item with
    | call bytes => exact ⟨Option.some.inj hitem, rfl⟩
    | ack => cases hitem
  refine ⟨h₃, ?_, hrest ▸ s₃.rest, s₃.table⟩
  have hall := ((s₁.toConsumes.trans c₂).trans s₃.toConsumes).congr (e := delivered h₂.table (front ++ [last]))
    (fun j _ => by simp [delivered])
  simpa [lineBytes, ackCount, hbytes] using hall

/-- The whole line: acknowledgements, the registry when the first chunk is due, and the
chunks between acknowledgements. -/
theorem consumes_line {json : Bytes} (hnul : (0 : Byte) ∉ json) (hlen : json.length ≤ 4083) {t : Table}
    (hreg : registryTable initVirtiosoTags json = some t) {cs : List Chunk}
    (hlisted : ∀ c ∈ cs, ∀ id ∈ c.streams, ListedId t id)
    (hclose : cs = [] ∨ ∃ (front : List Chunk) (last : Chunk), cs = front ++ [last] ∧ last.Closes) (items : List LineItem)
    (hitems : items.filterMap LineItem.callBytes =
      (if cs = [] then [] else consoleMuxMaybeEmitRegistry json false) ++ cs.map Chunk.bytes) :
    ∃ h, Consumes env (start env) (lineBytes items) h (delivered t cs) (ackCount items) ∧ AtRest h none ∧
      h.table = if cs = [] then initVirtiosoTags else t := by
  obtain ⟨ht, hp, hr, -, -, hg⟩ := start_healthy he
  have hclean : (start env).table.Clean := by rw [ht]; exact initVirtiosoTags_clean
  have ha : AtRest (start env) none := by
    constructor <;> rw [hp] <;> rfl
  rcases hclose with rfl | ⟨front, last, hcs, hlast⟩
  · obtain ⟨h, s⟩ := segment_items he hraw items hr ha hclean hitems (by simp)
    exact ⟨h, s.toConsumes.congr (fun j _ => by simp [delivered]), s.rest, s.table.trans ht⟩
  · have hne : cs ≠ [] := by simp [hcs]
    rw [if_neg hne] at hitems
    subst hcs
    rw [if_neg hne]
    exact consumes_chunks he hraw hnul hlen hreg hlisted hlast items hitems

section Batches
variable {json : Bytes} {batches : List BatchBuffer} {items : List LineItem} (hline : OnLine env json batches items)
include hline

/-- What the slots have logged. Without a batch that has payload there is no registry on the line. -/
theorem camkes_uplink_slots :
    ∃ h, ttyInputHandler env (start env) (lineBytes items) = (h, true) ∧
      (∀ i, 3 ≤ i → i < (applyVirtiosoRegistryJson env (start env) json).1.table.numProc →
        h.log i = batches.flatMap (fun b =>
          if b.streamId.toNat = ((applyVirtiosoRegistryJson env (start env) json).1.table.tags i).value.toNat then
            b.payload
          else [])) ∧
      h.log virtiosoDefaultPtyIdx = [] ∧
      h.downlinkAckCount.toNat = ackCount items % 2 ^ 32 ∧
      AtRest h none ∧ h.Ready ∧
      initVirtiosoTags.Extends (applyVirtiosoRegistryJson env (start env) json).1.table ∧
      (h.table = (applyVirtiosoRegistryJson env (start env) json).1.table ∨
        h.table = initVirtiosoTags ∧ ∀ i, 3 ≤ i → h.log i = []) := by
  obtain ⟨hnul, hlen, hacc, hserved, hitems⟩ := hline
  obtain ⟨ht, -, hr, hlog, hack, -⟩ := start_healthy he
  have hclean : (start env).table.Clean := by rw [ht]; exact initVirtiosoTags_clean
  have happly := applyVirtiosoRegistryJson_healthy he hr hclean json
  rw [ht] at happly
  cases hreg : registryTable initVirtiosoTags json with
  | none =>
    rw [hreg] at happly
    rw [happly] at hacc
    cases hacc
  | some t =>
    rw [hreg] at happly
    obtain ⟨g, hrun, -, -, -, -, rfl⟩ := happly
    rw [hrun] at hserved ⊢
    obtain ⟨hcleanT, hextends, -⟩ := registryTable_sound initVirtiosoTags_clean hreg
    obtain ⟨cs, hcalls, hpay, hstreams, hclose⟩ := batchCalls_chunks json false batches
      (fun b hb => ((hserved b hb).proper hcleanT).1)
    have hlisted : ∀ c ∈ cs, ∀ id ∈ c.streams, ListedId g.table id := by
      intro c hc id hid
      obtain ⟨b, hb, rfl⟩ := hstreams c hc id hid
      exact ((hserved b hb).proper hcleanT).2.1
    obtain ⟨h, c, rest, htable⟩ := consumes_line he hraw hnul hlen hreg hlisted hclose items (hitems.trans hcalls)
    refine ⟨h, c.run, ?_, ?_, ?_, rest, c.ready, hextends, ?_⟩
    · intro i h3 hi
      rw [c.log, hlog, if_neg (by simp only [rawCcplexPtyIdx]; omega), List.nil_append, delivered,
        if_pos ⟨h3, hi⟩, hpay]
      refine List.flatMap_congr ?_
      intro b hb
      have hid := ((hserved b hb).proper hcleanT).2.2
      rw [← hid]
      simp only [UInt8.toNat_inj, eq_comm]
    · rw [c.log, hlog, if_neg (by decide)]
      simp [delivered, virtiosoDefaultPtyIdx]
    · rw [c.acks, hack, UInt32.zero_add, UInt32.toNat_ofNat']
    · by_cases hcs : cs = []
      · right
        subst hcs
        refine ⟨by rw [htable, if_pos rfl], ?_⟩
        intro i h3
        rw [c.log, hlog, if_neg (by simp only [rawCcplexPtyIdx]; omega)]
        simp [delivered]
      · left
        rw [htable, if_neg hcs]

/-- Whatever the batches contain and wherever acknowledgements fall, the log file of every listed
stream is the concatenation of its batches, nothing appears on `physical_uart_default`, the
acknowledgements are counted modulo the range of the counter, and the parser is idle. The names
of the registry lead to files of their own. -/
theorem camkes_uplink_exact {dir : Bytes} (hsave : env.saveOutputPath = some dir) (workingDirectory : List Bytes)
    (hapart : (applyVirtiosoRegistryJson env (start env) json).1.table.LogsApart workingDirectory dir) :
    ∃ h, ttyInputHandler env (start env) (lineBytes items) = (h, true) ∧
      (∀ i, 3 ≤ i → i < (applyVirtiosoRegistryJson env (start env) json).1.table.numProc →
        logFile workingDirectory env (lineBytes items)
            ((applyVirtiosoRegistryJson env (start env) json).1.table.entryLog workingDirectory dir i) =
          batches.flatMap (fun b =>
            if b.streamId.toNat = ((applyVirtiosoRegistryJson env (start env) json).1.table.tags i).value.toNat then
              b.payload
            else [])) ∧
      logFile workingDirectory env (lineBytes items) (logPath workingDirectory dir physicalUartDefaultPty) = [] ∧
      h.downlinkAckCount.toNat = ackCount items % 2 ^ 32 ∧
      h.parser.controlState = .idle ∧ h.parser.inEscape = false ∧ h.parser.curRxStream = none ∧
      h.parser.registryJson = none := by
  obtain ⟨h, hrun, hstream, hdefault, hacks, rest, hready, hextends, htable⟩ :=
    camkes_uplink_slots he hraw hline
  generalize (applyVirtiosoRegistryJson env (start env) json).1.table = t at *
  obtain ⟨hapart', hsame⟩ := hextends.logsApart hapart (htable.imp_right And.left)
  have hfile : ∀ i < h.table.numProc,
      logFile workingDirectory env (lineBytes items) (t.entryLog workingDirectory dir i) = h.log i := by
    intro i hi
    rw [← hsame i hi]
    exact logFile_of_apart hsave he.opensBuiltins hrun hready.logFd hapart' hi
  refine ⟨h, hrun, ?_, ?_, hacks, rest.control, rest.escape, rest.current, rest.noRecord⟩
  · intro i h3 hi
    rw [← hstream i h3 hi]
    rcases htable with rfl | ⟨hinit, hnone⟩
    · exact hfile i hi
    · -- the stream is not open, and the open logs are other files
      rw [hnone i h3]
      refine logFile_eq_nil hsave he.opensBuiltins hrun ?_
      intro j hj hpath
      have hslot : slotPath workingDirectory dir h j = some (t.entryLog workingDirectory dir j) :=
        (if_pos (hready.logFd j hj)).trans (congrArg some (hsame j hj))
      have hj3 : j < 3 := by rwa [hinit] at hj
      have hij : j = i := hapart j (Nat.lt_of_lt_of_le hj3 hextends.numProc) i hi (Option.some.inj (hslot.symm.trans hpath))
      omega
  · have hlt : virtiosoDefaultPtyIdx < h.table.numProc := Nat.lt_of_lt_of_le (by decide) hready.builtin
    have hname : t.entryLog workingDirectory dir virtiosoDefaultPtyIdx =
        logPath workingDirectory dir physicalUartDefaultPty := by
      rw [Table.entryLog, hextends.tags virtiosoDefaultPtyIdx (by decide)]
      rfl
    rw [← hdefault, ← hfile virtiosoDefaultPtyIdx hlt, hname]

end Batches

end Host

def oneStreamJson : Bytes := ascii "\x7b\"streams\":[\x7b\"component\":\"vm0\",\"stream_id\":1\x7d]\x7d"

def oneBatch : BatchBuffer := ⟨1, 0, 2, fun i => if i = 0 then 0x41 else 0xfe⟩

def oneBatchItems : List LineItem :=
  [.ack 1, .call (recordBytes vcmuxProtoControlStreamRegistry oneStreamJson), .ack 1,
   .call [0xfe, 0x01, 0x41, 0xfe, 0xfe, 0xfe, 0x00]]

theorem camkes_uplink_exact_oneBatch : ∃ h,
    ttyInputHandler quietEnv (start quietEnv) (lineBytes oneBatchItems) = (h, true) ∧
    logFile [] quietEnv (lineBytes oneBatchItems) (logPath [] (ascii "logs") (ascii "vm0")) = [0x41, 0xfe] ∧
    logFile [] quietEnv (lineBytes oneBatchItems) (logPath [] (ascii "logs") physicalUartDefaultPty) = [] ∧
    h.downlinkAckCount.toNat = 2 ∧ h.parser.curRxStream = none := by
  have htable : (applyVirtiosoRegistryJson quietEnv (start quietEnv) oneStreamJson).1.table.numProc = 4 ∧
      (applyVirtiosoRegistryJson quietEnv (start quietEnv) oneStreamJson).1.table.tags 3 = ⟨some (ascii "vm0"), 1⟩ := by
    decide +kernel
  have hserved : ∀ b ∈ [oneBatch],
      Served (applyVirtiosoRegistryJson quietEnv (start quietEnv) oneStreamJson).1.table b := by
    intro b hb
    cases List.mem_singleton.mp hb
    exact ⟨⟨3, le_rfl, by rw [htable.1]; decide, by rw [htable.2]; rfl⟩, by decide, by decide⟩
  have hline : OnLine quietEnv oneStreamJson [oneBatch] oneBatchItems :=
    ⟨by decide, by decide, by decide +kernel, hserved, by decide +kernel⟩
  obtain ⟨h, hrun, hlog, hdef, hacks, -, -, hcur, -⟩ := camkes_uplink_exact quietEnv_healthy rfl hline rfl []
    (by decide +kernel)
  refine ⟨h, hrun, ?_, hdef, hacks, hcur⟩
  have hfile := hlog 3 le_rfl (by rw [htable.1]; decide)
  rw [Table.entryLog, htable.2] at hfile
  exact hfile

theorem ackCount_replicate (n : Nat) : ackCount (List.replicate n (.ack 1)) = n := by
  have hone : (LineItem.ack 1).acks = 1 := by decide
  simp [ackCount, hone]

/-- The counter wraps around: after 2^32 acknowledgements it stands at zero. -/
theorem ack_count_wraps :
    ¬ ∀ (json : Bytes) (batches : List BatchBuffer) (items : List LineItem) (h : State),
      OnLine quietEnv json batches items → ttyInputHandler quietEnv (start quietEnv) (lineBytes items) = (h, true) →
      h.downlinkAckCount.toNat = ackCount items := by
  intro hall
  have hcalls : ∀ n, (List.replicate n (LineItem.ack 1)).filterMap LineItem.callBytes = [] := by
    intro n
    exact List.filterMap_eq_nil_iff.mpr (fun x hx => by rw [List.eq_of_mem_replicate hx]; rfl)
  have hcount : ∀ n, UInt32.toNat (UInt32.ofNat n) = n := by
    intro n
    obtain ⟨h, c, -, -⟩ := consumes_line quietEnv_healthy rfl (show (0 : Byte) ∉ oneStreamJson by decide) (by decide)
      (Option.some_get (show (registryTable initVirtiosoTags oneStreamJson).isSome = true by decide +kernel)).symm
      (by simp) (.inl (rfl : ([] : List Chunk) = [])) (List.replicate n (.ack 1)) (hcalls n)
    have := hall oneStreamJson [] _ h ⟨by decide, by decide, by decide +kernel, by simp, hcalls n⟩ c.run
    rw [c.acks, (start_healthy quietEnv_healthy).2.2.2.2.1, UInt32.zero_add, ackCount_replicate] at this
    exact this
  have hwrap := hcount (2 ^ 32)
  rw [UInt32.toNat_ofNat', Nat.mod_self] at hwrap
  exact absurd hwrap (by decide)

/-- The name differs from that of a built-in entry and leads to its file. -/
def dottedJson : Bytes := ascii "\x7b\"streams\":[\x7b\"component\":\"./physical_uart_default\",\"stream_id\":1\x7d]\x7d"

def dottedBatch : BatchBuffer := ⟨1, 0, 1, fun _ => 0x41⟩

def dottedItems : List LineItem :=
  [.call (recordBytes vcmuxProtoControlStreamRegistry dottedJson), .call [0xfe, 0x01, 0x41, 0xfe, 0x00]]

/-- The batch of the stream appears on `physical_uart_default`. -/
theorem default_log_shared :
    ¬ ∀ (json : Bytes) (batches : List BatchBuffer) (items : List LineItem), OnLine quietEnv json batches items →
      logFile [] quietEnv (lineBytes items) (logPath [] (ascii "logs") physicalUartDefaultPty) = [] := by
  intro hall
  have htable : (applyVirtiosoRegistryJson quietEnv (start quietEnv) dottedJson).1.table.numProc = 4 ∧
      ((applyVirtiosoRegistryJson quietEnv (start quietEnv) dottedJson).1.table.tags 3).value = 1 := by
    decide +kernel
  have hserved : ∀ b ∈ [dottedBatch],
      Served (applyVirtiosoRegistryJson quietEnv (start quietEnv) dottedJson).1.table b := by
    intro b hb
    cases List.mem_singleton.mp hb
    exact ⟨⟨3, le_rfl, by rw [htable.1]; decide, by rw [htable.2]; rfl⟩, by decide, by decide⟩
  have hfile := hall dottedJson [dottedBatch] dottedItems
    ⟨by decide, by decide, by decide +kernel, hserved, by decide +kernel⟩
  revert hfile
  decide +kernel

/-- Neither the count nor the files are exact without the two conditions. -/
theorem camkes_uplink_not_exact :
    (¬ ∀ (json : Bytes) (batches : List BatchBuffer) (items : List LineItem) (h : State),
      OnLine quietEnv json batches items → ttyInputHandler quietEnv (start quietEnv) (lineBytes items) = (h, true) →
      h.downlinkAckCount.toNat = ackCount items) ∧
    ¬ ∀ (json : Bytes) (batches : List BatchBuffer) (items : List LineItem), OnLine quietEnv json batches items →
      logFile [] quietEnv (lineBytes items) (logPath [] (ascii "logs") physicalUartDefaultPty) = [] :=
  ⟨ack_count_wraps, default_log_shared⟩

end VirtiosoMux.CamkesUplink
