import VirtiosoMux.Library.CLiteral
import VirtiosoMux.Camkes.GuestSink
import VirtiosoMux.Links.CamkesUplink
import VirtiosoMux.Links.RegistryCodec

/-! # From the guests to the logs of the host

The generator gives the instances their identifiers, a sink in each of them collects what its
guest puts, and the multiplexer announces the registry of the generator in front of the first
chunk. The host files the output of a guest under the name that the registry has for it.
-/
namespace VirtiosoMux.GuestLogs
open Host Camkes CamkesUplink Generator Json RegistryCodec

def consoleIds (r : Registry) (k : Fin (listed r.streams).length) : Int := ((listed r.streams).get k).streamId

/-- The registry is a C string. -/
theorem registry_no_nul (r : Registry) : (0 : Byte) ∉ r.text := by
  intro h
  exact absurd (CLiteral.printable_dumps _ 0 h) (by decide)

section Generated
variable {a : Assembly} {name source : Text} {r : Registry} (hgen : generate a name source = .ok r)
  (hmax : consoleCount a a.instances ≤ 252) (hnames : ∀ i ∈ a.instances, i.componentName.bytes ∉ builtinNames)
include hgen hmax hnames

/-- The table that the host reads from a registry without misleading names. -/
theorem registryTable_readable (hone : 1 ≤ consoleCount a a.instances) (hread : Readable a name source) :
    ∃ t, registryTable initVirtiosoTags r.text = some t ∧ Appended r t := by
  obtain ⟨hstreams, hfits, hrange⟩ := generated_fits hgen hmax hnames
  have hlisted : listed r.streams ≠ [] := by
    apply List.ne_nil_of_length_pos
    rw [hstreams, listed_length]
    exact hone
  have hne : r.streams ≠ [] := by
    rintro hnil
    exact hlisted (by rw [hnil]; rfl)
  obtain ⟨hmis, hcaught, hflags⟩ := (readable_iff hgen hstreams).mp hread
  obtain ⟨scan, htable, hscan⟩ := registryTable_streams hmis hne hrange hcaught hfits hlisted
  exact ⟨scan.table initVirtiosoTags, htable, (appended_iff hscan hfits).mpr hflags⟩

theorem consoleIds_range (k : Fin (listed r.streams).length) : 1 ≤ consoleIds r k ∧ consoleIds r k ≤ 252 :=
  (generated_fits hgen hmax hnames).2.1.ids _ (List.get_mem _ k)

theorem consoleIds_valid (k : Fin (listed r.streams).length) : consoleMuxValidStreamId (consoleIds r k) = true := by
  have hrange := consoleIds_range hgen hmax hnames k
  simp only [consoleMuxValidStreamId, Bool.and_eq_true, decide_eq_true_eq]
  omega

/-- No two instances share an identifier. -/
theorem consoleIds_inj {j k : Fin (listed r.streams).length} (h : consoleIds r j = consoleIds r k) : j = k := by
  have hasc := (generated_fits hgen hmax hnames).2.1.distinct
  have hnodup : ((listed r.streams).map Stream.streamId).Nodup := hasc.imp ne_of_lt
  have hstream := List.inj_on_of_nodup_map hnodup (List.get_mem _ j) (List.get_mem _ k) h
  exact (List.Nodup.of_map _ hnodup).injective_get hstream

end Generated

/-- The slot of an instance is behind the built-in ones and has the identifier of the instance. -/
theorem slot_value {r : Registry} {t : Table} (happ : Appended r t) (k : Fin (listed r.streams).length) :
    3 + k.1 < t.numProc ∧ ((t.tags (3 + k)).value.toNat : Int) = consoleIds r k := by
  obtain ⟨hnum, -, hentries⟩ := happ
  refine ⟨by rw [hnum]; omega, ?_⟩
  exact (hentries k _ (List.getElem?_eq_getElem k.2)).2.1

/-- The byte that the multiplexer sends for an instance is the value at its slot. -/
theorem slot_streamByte {r : Registry} {t : Table} (happ : Appended r t) (k : Fin (listed r.streams).length) :
    (t.tags (3 + k)).value = streamByte (consoleIds r k) := by
  rw [← (slot_value happ k).2, streamByte, Int.toNat_natCast, UInt8.ofNat_toNat]

section Batches
variable {r : Registry} {t : Table} (happ : Appended r t)
include happ

/-- Chunks that carry batches of the instances are on listed streams. -/
theorem chunks_listed {w : MuxServer (Fin (listed r.streams).length)} (hsent : w.Sent r.text (consoleIds r)) {cs : List Chunk}
    (hstreams : ∀ c ∈ cs, ∀ x ∈ c.streams, ∃ b ∈ w.handed.map Prod.snd, x = b.id) :
    ∀ c ∈ cs, ∀ id ∈ c.streams, ListedId t id := by
  intro c hc id hid
  obtain ⟨b, hb, rfl⟩ := hstreams c hc id hid
  obtain ⟨call, hcall, rfl⟩ := List.mem_map.mp hb
  refine ⟨3 + call.1, by omega, (slot_value happ call.1).1, ?_⟩
  rw [slot_streamByte happ, (hsent.proper call hcall).2]

/-- At the slot of an instance there is what has been framed for it. -/
theorem delivered_framedFor (hvalid : ∀ k, consoleMuxValidStreamId (consoleIds r k) = true)
    (hinj : ∀ j k, consoleIds r j = consoleIds r k → j = k) {w : MuxServer (Fin (listed r.streams).length)}
    (hsent : w.Sent r.text (consoleIds r)) {cs : List Chunk}
    (hpay : ∀ x, cs.flatMap (Chunk.payload x) = (w.handed.map Prod.snd).flatMap fun b => if x = b.id then b.payload else [])
    (k : Fin (listed r.streams).length) : delivered t cs (3 + k) = w.framedFor k := by
  rw [delivered, if_pos ⟨by omega, (slot_value happ k).1⟩, slot_streamByte happ, hpay]
  exact framedFor_stream hvalid hsent fun j hj => hinj j k hj

end Batches

/-- The guests of a generated assembly put bytes in any order, and acknowledgements of the
receiver fall anywhere on the line. Unless nothing has been handed over yet, the host has the
table of the registry: the log at the slot with the name of an instance is what the guest of that
instance has put, up to less than a batch without an end of line, and nothing else. -/
theorem guests_logged {a : Assembly} {name source : Text} {r : Registry} (hgen : generate a name source = .ok r)
    (hone : 1 ≤ consoleCount a a.instances) (hmax : consoleCount a a.instances ≤ 252)
    (hnames : ∀ i ∈ a.instances, i.componentName.bytes ∉ builtinNames) (hread : Readable a name source)
    (hlen : r.text.length ≤ 4083) {env : Env} (he : env.Healthy) (hraw : env.virtiosoOuterMode = .raw)
    (calls : List (Fin (listed r.streams).length × Int)) (items : List LineItem)
    (hitems : items.filterMap LineItem.callBytes = (GuestSinks.start.run r.text (consoleIds r) calls).server.uplink) :
    ∃ h, ttyInputHandler env (start env) (lineBytes items) = (h, true) ∧
      h.parser.controlState = .idle ∧ h.parser.inEscape = false ∧ h.parser.curRxStream = none ∧
      h.log virtiosoDefaultPtyIdx = [] ∧
      ((GuestSinks.start.run r.text (consoleIds r) calls).server.uplink ≠ [] → Appended r h.table) ∧
      ∀ k : Fin (listed r.streams).length, ∃ pending : Bytes, h.log (3 + k) ++ pending = putBytes k calls ∧
        pending.length < 1024 ∧ ∀ b ∈ pending, ¬ EndsBatch b := by
  obtain ⟨t, hreg, happ⟩ := registryTable_readable hgen hmax hnames hone hread
  have hvalid := consoleIds_valid hgen hmax hnames
  obtain ⟨hsent, hconserved⟩ := run_conserved hvalid r.text calls
  obtain ⟨-, -, -, hlog, -, -⟩ := start_healthy he
  have hproper : ∀ b ∈ (GuestSinks.start.run r.text (consoleIds r) calls).server.handed.map Prod.snd, b.Proper := by
    intro b hb
    obtain ⟨call, hcall, rfl⟩ := List.mem_map.mp hb
    exact (hsent.proper call hcall).1
  obtain ⟨cs, hcalls, hpay, hstreams, hclose⟩ := batchCalls_chunks r.text false _ hproper
  have hlisted := chunks_listed happ hsent hstreams
  -- the line leads to the table of the registry if there is a chunk on it
  have hline : ∃ h, Consumes env (start env) (lineBytes items) h (delivered t cs) (ackCount items) ∧ AtRest h none ∧
      (cs ≠ [] → h.table = t) := by
    rcases hclose with rfl | ⟨front, last, rfl, hlast⟩
    · obtain ⟨h, c, hrest, -⟩ := consumes_line he hraw (registry_no_nul r) hlen hreg hlisted (.inl rfl) items
        (hitems.trans (hsent.uplink.trans hcalls))
      exact ⟨h, c, hrest, fun hne => absurd rfl hne⟩
    · have hne : front ++ [last] ≠ [] := by simp
      rw [if_neg hne] at hcalls
      obtain ⟨h, c, hrest, ht⟩ := consumes_chunks he hraw (registry_no_nul r) hlen hreg hlisted hlast items
        (hitems.trans (hsent.uplink.trans hcalls))
      exact ⟨h, c, hrest, fun _ => ht⟩
  obtain ⟨h, c, hrest, htable⟩ := hline
  refine ⟨h, c.run, hrest.control, hrest.escape, hrest.current, ?_, ?_, ?_⟩
  · rw [c.log, hlog, if_neg (by decide)]
    simp [delivered, virtiosoDefaultPtyIdx]
  · intro hsome
    rw [htable]
    · exact happ
    · rintro rfl
      exact hsome (hsent.uplink.trans hcalls)
  · intro k
    obtain ⟨batch, -, hcollecting, hput⟩ := hconserved k
    refine ⟨batch.payload, ?_, ?_, hcollecting.pending⟩
    · rw [c.log, hlog, if_neg (by simp only [rawCcplexPtyIdx]; omega), List.nil_append,
        delivered_framedFor happ hvalid (fun _ _ => consoleIds_inj hgen hmax hnames) hsent hpay]
      exact hput
    · rw [length_payload hcollecting.head]
      exact hcollecting.tail

def oneRegistry : Registry := oneGuestRegistry (codes "console") (codes "app.camkes")

def onlyGuest : Fin (listed oneRegistry.streams).length := ⟨0, by decide⟩

def guestCalls : List (Fin (listed oneRegistry.streams).length × Int) := [(onlyGuest, 0x61), (onlyGuest, 0x0a), (onlyGuest, 0x62)]

theorem callBytes_calls (calls : List Bytes) : (calls.map LineItem.call).filterMap LineItem.callBytes = calls := by
  rw [List.filterMap_map]
  exact List.filterMap_some

theorem guests_logged_oneGuest : ∃ h, ttyInputHandler quietEnv (start quietEnv) (lineBytes
      ((GuestSinks.start.run oneRegistry.text (consoleIds oneRegistry) guestCalls).server.uplink.map LineItem.call)) = (h, true) ∧
    (h.table.tags 3).name = some (ascii "vm0") ∧
    ∃ pending : Bytes, h.log 3 ++ pending = [0x61, 0x0a, 0x62] ∧ ∀ b ∈ pending, ¬ EndsBatch b := by
  have hreadable : Readable oneGuest (codes "console") (codes "app.camkes") :=
    ⟨by decide, by decide, by decide, by decide, by decide, by decide⟩
  obtain ⟨h, hrun, -, -, -, -, htable, hlog⟩ := guests_logged (generate_oneGuest (codes "console") (codes "app.camkes"))
    (by decide) (by decide) (by decide) hreadable (by decide +kernel) quietEnv_healthy rfl guestCalls _ (callBytes_calls _)
  obtain ⟨pending, hput, -, hends⟩ := hlog onlyGuest
  have happ := htable (by decide +kernel)
  exact ⟨h, hrun, (happ.2.2 0 _ rfl).1, pending, hput, hends⟩

end VirtiosoMux.GuestLogs
