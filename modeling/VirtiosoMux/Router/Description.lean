import VirtiosoMux.Library.JsonRoundTrip
import VirtiosoMux.Router.Manifest

/-! # The normalised manifest

`describe_manifest` prints the manifest with the paths of its channels, and `_prepare_channel_runtimes`
writes the same to `runtime-manifest.json`. What is written is a manifest again, and describing it
changes nothing.
-/
namespace VirtiosoMux.Channels
open Json

def PyInt.document : PyInt → Document
  | .int n => .int n
  | .bool b => .bool b

/-! ### The payload -/

def channelPath (name : Text) (file : String) : Text := codes "channels/" ++ name ++ codes file

def Channel.required (c : Channel) : Members :=
  [(codes "id", c.id.document), (codes "name", .str c.name), (codes "kind", .str c.kind),
    (codes "interactive", .bool c.interactive), (codes "pty", .bool c.pty)]

def Channel.paths (c : Channel) : Members :=
  [(codes "runtime_dir", .str (codes "channels/" ++ c.name)), (codes "raw_log", .str (channelPath c.name "/raw.log")),
    (codes "events_log", .str (channelPath c.name "/events.jsonl")),
    (codes "pty_link", if c.pty then .str (channelPath c.name "/pty") else .null)]

def channelPayload (c : Channel) : Members := update (c.required ++ c.paths) c.extras

def runtimeManifestPayload (manifest : Manifest) : Document :=
  .obj [(codes "version", manifest.version.document), (codes "run_id", .str manifest.runId),
    (codes "target", .str manifest.target), (codes "binary_name", .str manifest.binaryName),
    (codes "transport", .obj manifest.transport),
    (codes "channels", .arr (manifest.channels.map fun c => .obj (channelPayload c)))]

/-- `json.dumps(…, indent=2)` -/
def indented : DumpOptions := ⟨some 2, false⟩

/-- What is printed, and written to `runtime-manifest.json`. -/
def runtimeManifestText (manifest : Manifest) : List UInt8 := dumpsDocument indented (runtimeManifestPayload manifest) ++ [0x0a]

def describeManifest (path : Text) (file : Loaded) : Except Failure (List UInt8) := do
  let manifest ← loadManifest path file
  .ok (runtimeManifestText manifest)

/-- A channel as it is described: the paths are among its extras, where its own take precedence. -/
def Channel.described (c : Channel) : Channel := { c with extras := update c.paths c.extras }

def Manifest.described (manifest : Manifest) : Manifest := { manifest with channels := manifest.channels.map Channel.described }

/-! ### Members by key -/

theorem get_append (first second : Members) (key : String) : get (first ++ second) key = (get first key).or (get second key) := by
  rw [get, List.find?_append, get, get]
  cases first.find? (fun m => m.1 == codes key) <;> rfl

theorem get_mem {data : Members} {key : String} {d : Document} (h : get data key = some d) : (codes key, d) ∈ data := by
  obtain ⟨m, hm, rfl⟩ := Option.map_eq_some_iff.mp h
  have hkey : m.1 = codes key := by simpa using List.find?_some hm
  exact hkey ▸ List.mem_of_find?_eq_some hm

/-! ### Channels that the loader returns -/

section
variable (F : FloatReader)

/-- What the loader makes sure of, and what it takes over from the file. -/
structure Channel.Sound (c : Channel) : Prop where
  name : StringText c.name
  kind : StringText c.kind
  kindNonblank : blank c.kind = false
  nameNonblank : blank c.name = false
  keys : (c.extras.map Prod.fst).Nodup
  free : ∀ m ∈ c.extras, m.1 ∉ channelKeys
  texts : ∀ m ∈ c.extras, StringText m.1
  values : ∀ m ∈ c.extras, m.2.Decoded F

structure Manifest.Sound (manifest : Manifest) : Prop where
  version : manifest.version.value = 1
  runId : StringText manifest.runId
  runIdNonblank : blank manifest.runId = false
  target : StringText manifest.target
  targetNonblank : blank manifest.target = false
  binaryName : StringText manifest.binaryName
  binaryNameNonblank : blank manifest.binaryName = false
  transport : (Document.obj manifest.transport).Decoded F
  nonempty : manifest.channels ≠ []
  accepted : Accepted manifest.channels
  channels : ∀ c ∈ manifest.channels, c.Sound F

variable {F}

theorem Decoded.members {members : Members} (h : (Document.obj members).Decoded F) :
    (members.map Prod.fst).Nodup ∧ (∀ m ∈ members, StringText m.1) ∧ ∀ m ∈ members, m.2.Decoded F := by
  cases h with
  | obj hkeys htexts h => exact ⟨hkeys, htexts, h⟩

theorem Decoded.str_text {s : Text} (h : (Document.str s).Decoded F) : StringText s := by
  cases h with
  | str h => exact h

theorem requireStr_text {data : Members} (hdata : (Document.obj data).Decoded F) {key : String} {s : Text}
    (h : requireStr data key = .ok s) : StringText s ∧ blank s = false := by
  refine ⟨?_, requireStr_ok h⟩
  unfold requireStr at h
  split at h
  · rename_i t hget
    split at h
    · cases h
    · cases h
      exact Decoded.str_text ((Decoded.members hdata).2.2 _ (get_mem hget))
  · cases h

theorem loadChannel_sound {seenIds : List Int} {seenNames : List Text} {entry : Members} {c : Channel}
    (hentry : (Document.obj entry).Decoded F) (h : loadChannel seenIds seenNames entry = .ok c) : c.Sound F := by
  obtain ⟨hkeys, htexts, hvalues⟩ := Decoded.members hentry
  unfold loadChannel at h
  obtain ⟨channelId, -, h⟩ := bind_ok.mp h
  obtain ⟨name, hname, h⟩ := bind_ok.mp h
  obtain ⟨kind, hkind, h⟩ := bind_ok.mp h
  obtain ⟨interactive, -, h⟩ := bind_ok.mp h
  obtain ⟨pty, -, h⟩ := bind_ok.mp h
  split at h
  · cases h
  split at h
  · cases h
  cases h
  obtain ⟨hnameText, hnameBlank⟩ := requireStr_text hentry hname
  obtain ⟨hkindText, hkindBlank⟩ := requireStr_text hentry hkind
  have hsub : (entry.filter (fun m => m.1 ∉ channelKeys)).Sublist entry := List.filter_sublist
  exact
    { name := hnameText
      kind := hkindText
      kindNonblank := hkindBlank
      nameNonblank := hnameBlank
      keys := (hsub.map Prod.fst).nodup hkeys
      free := fun m hm => of_decide_eq_true (List.mem_filter.mp hm).2
      texts := fun m hm => htexts m (hsub.subset hm)
      values := fun m hm => hvalues m (hsub.subset hm) }

theorem loadChannels_sound {idx : Nat} {seenIds : List Int} {seenNames : List Text} {entries : List Document}
    {channels : List Channel} (hentries : ∀ d ∈ entries, d.Decoded F)
    (h : loadChannels idx seenIds seenNames entries = .ok channels) :
    channels.length = entries.length ∧ ∀ c ∈ channels, c.Sound F := by
  induction entries generalizing idx seenIds seenNames channels with
  | nil =>
    cases h
    exact ⟨rfl, List.forall_mem_nil _⟩
  | cons entry rest ih =>
    cases entry with
    | obj members =>
      rw [loadChannels] at h
      obtain ⟨channel, hchannel, h⟩ := bind_ok.mp h
      obtain ⟨more, hmore, h⟩ := bind_ok.mp h
      cases h
      obtain ⟨hlength, hrest⟩ := ih (fun d hd => hentries d (List.mem_cons_of_mem _ hd)) hmore
      have hfirst := loadChannel_sound (hentries _ List.mem_cons_self) hchannel
      exact ⟨congrArg (· + 1) hlength, List.forall_mem_cons.mpr ⟨hfirst, hrest⟩⟩
    | _ => cases h

theorem loadManifest_sound {path : Text} {d : Document} (hd : d.Decoded F) {manifest : Manifest}
    (h : loadManifest path (.data d) = .ok manifest) : manifest.Sound F := by
  have haccepted := loadManifest_ok h
  unfold loadManifest at h
  obtain ⟨data, hdata, hload⟩ := bind_ok.mp h
  clear h
  have hobj : d = .obj data := by
    cases d with
    | obj members =>
      cases hdata
      rfl
    | _ => cases hdata
  subst hobj
  have hmembers := (Decoded.members hd).2.2
  obtain ⟨version, -, h⟩ := bind_ok.mp hload
  split at h
  · cases h
  rename_i hversion
  split at h
  · rename_i transport htransport
    split at h
    · rename_i entry rest hchannels
      obtain ⟨channels, hread, h⟩ := bind_ok.mp h
      obtain ⟨runId, hrunId, h⟩ := bind_ok.mp h
      obtain ⟨target, htarget, h⟩ := bind_ok.mp h
      obtain ⟨binaryName, hbinaryName, h⟩ := bind_ok.mp h
      cases h
      have hentries : ∀ e ∈ entry :: rest, e.Decoded F := by
        cases hmembers _ (get_mem hchannels) with
        | arr h => exact h
      obtain ⟨hlength, hsound⟩ := loadChannels_sound hentries hread
      exact
        { version := not_not.mp hversion
          runId := (requireStr_text hd hrunId).1
          runIdNonblank := (requireStr_text hd hrunId).2
          target := (requireStr_text hd htarget).1
          targetNonblank := (requireStr_text hd htarget).2
          binaryName := (requireStr_text hd hbinaryName).1
          binaryNameNonblank := (requireStr_text hd hbinaryName).2
          transport := hmembers _ (get_mem htransport)
          nonempty := by
            rintro rfl
            cases hlength
          accepted := haccepted
          channels := hsound }
    · cases h
  · cases h

end

/-! ### The payload is a manifest -/

theorem stringText_inDirectory {name : Text} (hname : StringText name) : StringText (codes "channels/" ++ name) := by
  refine (stringText_ascii (by decide)).append hname ?_
  intro u hu v _ hpair
  have hlast : u = 0x2f := by
    rw [Option.mem_def] at hu
    exact (Option.some.inj hu).symm
  subst hlast
  exact absurd hpair.1 (by decide)

theorem stringText_path {name : Text} (hname : StringText name) {file : String} (hfile : ∀ c ∈ codes file, c < 0x80) :
    StringText (channelPath name file) := by
  refine (stringText_inDirectory hname).append (stringText_ascii hfile) ?_
  intro u _ v hv hpair
  have hlt := hfile v (List.mem_of_mem_head? hv)
  have hlow := hpair.2
  unfold IsLow at hlow
  omega

section
variable {F : FloatReader}

theorem document_decoded (n : PyInt) : n.document.Decoded F := by
  cases n with
  | int n => exact .int n
  | bool b => exact .bool b

theorem required_keys (c : Channel) : c.required.map Prod.fst = channelKeys := rfl

theorem paths_keys (c : Channel) : c.paths.map Prod.fst =
    [codes "runtime_dir", codes "raw_log", codes "events_log", codes "pty_link"] := rfl

/-- The described extras have the paths first, and none of the required keys. -/
theorem described_keys {c : Channel} (h : c.Sound F) :
    (c.paths.map Prod.fst <+: c.described.extras.map Prod.fst) ∧ (c.described.extras.map Prod.fst).Nodup ∧
      ∀ m ∈ c.described.extras, m.1 ∉ channelKeys := by
  refine ⟨keys_prefix_update _ _, nodup_update (by rw [paths_keys]; decide) _, ?_⟩
  intro m hm
  rcases mem_update hm with hm | hm
  · have hkey : m.1 ∈ c.paths.map Prod.fst := List.mem_map_of_mem hm
    have hall : ∀ k ∈ [codes "runtime_dir", codes "raw_log", codes "events_log", codes "pty_link"], k ∉ channelKeys := by decide
    rw [paths_keys] at hkey
    exact hall _ hkey
  · exact h.free m hm

theorem channelPayload_eq {c : Channel} (h : c.Sound F) : channelPayload c = c.required ++ c.described.extras := by
  refine update_append_left c.paths ?_
  intro e he
  rw [required_keys]
  exact h.free e he

/-- Describing a described channel changes nothing. -/
theorem channelPayload_described {c : Channel} (h : c.Sound F) : channelPayload c.described = channelPayload c := by
  obtain ⟨hfirst, hnodup, hfree⟩ := described_keys h
  have hextras : update c.described.paths c.described.extras = c.described.extras := update_of_prefix hfirst hnodup
  have hsplit : channelPayload c.described = c.described.required ++ update c.described.paths c.described.extras := by
    refine update_append_left c.described.paths ?_
    intro e he
    rw [required_keys]
    exact hfree e he
  rw [hsplit, hextras, channelPayload_eq h]
  rfl

theorem paths_decoded {c : Channel} (h : c.Sound F) : ∀ m ∈ c.paths, m.2.Decoded F := by
  intro m hm
  simp only [Channel.paths, List.mem_cons, List.not_mem_nil, or_false] at hm
  rcases hm with rfl | rfl | rfl | rfl
  · exact .str (stringText_inDirectory h.name)
  · exact .str (stringText_path h.name (by decide))
  · exact .str (stringText_path h.name (by decide))
  · dsimp only
    split
    · exact .str (stringText_path h.name (by decide))
    · exact .null

theorem required_decoded {c : Channel} (h : c.Sound F) : ∀ m ∈ c.required, m.2.Decoded F := by
  intro m hm
  simp only [Channel.required, List.mem_cons, List.not_mem_nil, or_false] at hm
  rcases hm with rfl | rfl | rfl | rfl | rfl
  · exact document_decoded c.id
  · exact .str h.name
  · exact .str h.kind
  · exact .bool _
  · exact .bool _

/-- The keys that the router itself writes. -/
theorem written_keys (c : Channel) : ((c.required ++ c.paths).map Prod.fst).Nodup ∧
    ∀ m ∈ c.required ++ c.paths, StringText m.1 := by
  have hkeys : (c.required ++ c.paths).map Prod.fst = channelKeys ++
      [codes "runtime_dir", codes "raw_log", codes "events_log", codes "pty_link"] := rfl
  have hascii : ∀ k ∈ channelKeys ++ [codes "runtime_dir", codes "raw_log", codes "events_log", codes "pty_link"],
      ∀ c ∈ k, c < 0x80 := by decide
  refine ⟨by rw [hkeys]; decide, ?_⟩
  intro m hm
  have hkey : m.1 ∈ (c.required ++ c.paths).map Prod.fst := List.mem_map_of_mem hm
  exact stringText_ascii (hascii m.1 (hkeys ▸ hkey))

theorem channelPayload_decoded {c : Channel} (h : c.Sound F) : (Document.obj (channelPayload c)).Decoded F := by
  obtain ⟨hkeys, htexts⟩ := written_keys c
  refine .obj (nodup_update hkeys c.extras) ?_ ?_
  · intro m hm
    exact (mem_update hm).elim (htexts m) (h.texts m)
  · intro m hm
    refine (mem_update hm).elim ?_ (h.values m)
    intro hm
    exact (List.mem_append.mp hm).elim (required_decoded h m) (paths_decoded h m)

def manifestKeys : List Text :=
  [codes "version", codes "run_id", codes "target", codes "binary_name", codes "transport", codes "channels"]

theorem runtimeManifestPayload_decoded {manifest : Manifest} (h : manifest.Sound F) :
    (runtimeManifestPayload manifest).Decoded F := by
  have hchannels : (Document.arr (manifest.channels.map fun c => .obj (channelPayload c))).Decoded F := by
    refine .arr ?_
    intro d hd
    obtain ⟨c, hc, rfl⟩ := List.mem_map.mp hd
    exact channelPayload_decoded (h.channels c hc)
  have hnodup : manifestKeys.Nodup := by decide
  have hascii : ∀ k ∈ manifestKeys, ∀ c ∈ k, c < 0x80 := by decide
  refine .obj hnodup ?_ ?_
  · intro m hm
    exact stringText_ascii (hascii m.1 (List.mem_map_of_mem (f := Prod.fst) hm))
  · intro m hm
    simp only [List.mem_cons, List.not_mem_nil, or_false] at hm
    rcases hm with rfl | rfl | rfl | rfl | rfl | rfl
    · exact document_decoded _
    · exact .str h.runId
    · exact .str h.target
    · exact .str h.binaryName
    · exact h.transport
    · exact hchannels

/-! ### Loading the payload -/

theorem requireInt_document {data : Members} {key : String} {n : PyInt} (h : get data key = some n.document) :
    requireInt data key = .ok n := by
  unfold requireInt
  rw [h]
  cases n <;> rfl

theorem requireStr_document {data : Members} {key : String} {s : Text} (h : get data key = some (.str s))
    (hs : blank s = false) : requireStr data key = .ok s := by
  unfold requireStr
  rw [h]
  simp only [hs, Bool.false_eq_true, if_false]

theorem requireBool_document {data : Members} {key : String} {b : Bool} (h : get data key = some (.bool b)) :
    requireBool data key = .ok b := by
  unfold requireBool
  rw [h]

theorem loadChannel_payload {c : Channel} (h : c.Sound F) {seenIds : List Int} {seenNames : List Text}
    (hid : c.id.value ∉ seenIds) (hname : c.name ∉ seenNames) :
    loadChannel seenIds seenNames (channelPayload c) = .ok c.described := by
  obtain ⟨-, -, hfree⟩ := described_keys h
  have hget : ∀ {key d}, get c.required key = some d → get (channelPayload c) key = some d := by
    intro key d hd
    rw [channelPayload_eq h, get_append, hd]
    rfl
  have hfilter : (channelPayload c).filter (fun m => m.1 ∉ channelKeys) = c.described.extras := by
    rw [channelPayload_eq h, List.filter_append]
    have hrequired : c.required.filter (fun m => m.1 ∉ channelKeys) = [] := by
      refine List.filter_eq_nil_iff.mpr ?_
      intro m hm
      have hkey : m.1 ∈ channelKeys := required_keys c ▸ List.mem_map_of_mem hm
      simpa using hkey
    have hextras : c.described.extras.filter (fun m => m.1 ∉ channelKeys) = c.described.extras :=
      List.filter_eq_self.mpr fun m hm => decide_eq_true (hfree m hm)
    rw [hrequired, hextras, List.nil_append]
  unfold loadChannel
  rw [requireInt_document (hget (d := c.id.document) rfl), requireStr_document (hget rfl) h.nameNonblank,
    requireStr_document (hget rfl) h.kindNonblank, requireBool_document (hget rfl), requireBool_document (hget rfl), hfilter]
  simp only [bind, Except.bind, if_neg hid, if_neg hname]
  rfl

theorem loadChannels_payload {channels : List Channel} (hsound : ∀ c ∈ channels, c.Sound F) (haccepted : Accepted channels)
    (idx : Nat) {seenIds : List Int} {seenNames : List Text}
    (hseen : ∀ c ∈ channels, c.id.value ∉ seenIds ∧ c.name ∉ seenNames) :
    loadChannels idx seenIds seenNames (channels.map fun c => .obj (channelPayload c)) =
      .ok (channels.map Channel.described) := by
  induction channels generalizing idx seenIds seenNames with
  | nil => rfl
  | cons c channels ih =>
    obtain ⟨hids, hnames, hnonblank⟩ := haccepted
    rw [List.map_cons, List.nodup_cons] at hids hnames
    obtain ⟨hid, hname⟩ := hseen c List.mem_cons_self
    have hseenRest : ∀ d ∈ channels, d.id.value ∉ c.id.value :: seenIds ∧ d.name ∉ c.name :: seenNames := by
      intro d hd
      obtain ⟨hidSeen, hnameSeen⟩ := hseen d (List.mem_cons_of_mem _ hd)
      have hidNew : d.id.value ≠ c.id.value := fun heq => hids.1 (heq ▸ List.mem_map_of_mem hd)
      have hnameNew : d.name ≠ c.name := fun heq => hnames.1 (heq ▸ List.mem_map_of_mem hd)
      exact ⟨List.not_mem_cons_of_ne_of_not_mem hidNew hidSeen, List.not_mem_cons_of_ne_of_not_mem hnameNew hnameSeen⟩
    have hrest := ih (fun d hd => hsound d (List.mem_cons_of_mem _ hd))
      ⟨hids.2, hnames.2, fun d hd => hnonblank d (List.mem_cons_of_mem _ hd)⟩ (idx + 1) hseenRest
    rw [List.map_cons, loadChannels, loadChannel_payload (hsound c List.mem_cons_self) hid hname]
    change (loadChannels (idx + 1) (c.id.value :: seenIds) (c.name :: seenNames) _ >>= _) = _
    rw [hrest]
    rfl

theorem loadManifest_payload {manifest : Manifest} (h : manifest.Sound F) (path : Text) :
    loadManifest path (.data (runtimeManifestPayload manifest)) = .ok manifest.described := by
  obtain ⟨c, channels, hchannels⟩ := List.exists_cons_of_ne_nil h.nonempty
  have hseen : ∀ c ∈ manifest.channels, c.id.value ∉ ([] : List Int) ∧ c.name ∉ ([] : List Text) :=
    fun _ _ => ⟨List.not_mem_nil, List.not_mem_nil⟩
  have hload := loadChannels_payload h.channels h.accepted 0 hseen
  rw [hchannels] at hload
  rw [List.map_cons] at hload
  unfold loadManifest runtimeManifestPayload
  rw [hchannels, List.map_cons]
  generalize hdata : ([_, _, _, _, _, _] : Members) = data
  have hversion : requireInt data "version" = .ok manifest.version := requireInt_document (hdata ▸ rfl)
  have hrunId : requireStr data "run_id" = .ok manifest.runId := requireStr_document (hdata ▸ rfl) h.runIdNonblank
  have htarget : requireStr data "target" = .ok manifest.target := requireStr_document (hdata ▸ rfl) h.targetNonblank
  have hbinaryName : requireStr data "binary_name" = .ok manifest.binaryName :=
    requireStr_document (hdata ▸ rfl) h.binaryNameNonblank
  have htransport : get data "transport" = some (.obj manifest.transport) := hdata ▸ rfl
  have hentries : get data "channels" = some (.arr (.obj (channelPayload c) :: channels.map fun c => .obj (channelPayload c))) :=
    hdata ▸ rfl
  simp only [loadJson, bind, Except.bind, hversion, h.version, ne_eq, not_true_eq_false, if_false, htransport, hentries, hload,
    hrunId, htarget, hbinaryName]
  rw [← hchannels]
  rfl

/-- The text that is written is read as the described manifest, and this is written as the same text. -/
theorem runtimeManifestText_described {manifest : Manifest} (h : manifest.Sound F) :
    loads F (ofBytes (runtimeManifestText manifest)) = some (runtimeManifestPayload manifest) ∧
      runtimeManifestText manifest.described = runtimeManifestText manifest := by
  have hblank : Blank [0x0a] := List.forall_mem_singleton.mpr rfl
  refine ⟨loads_dumpsDocument indented (runtimeManifestPayload_decoded h) rfl hblank, ?_⟩
  have hpayload : runtimeManifestPayload manifest.described = runtimeManifestPayload manifest := by
    have hchannels : (manifest.channels.map Channel.described).map (fun c => Document.obj (channelPayload c)) =
        manifest.channels.map (fun c => .obj (channelPayload c)) := by
      rw [List.map_map]
      refine List.map_congr_left ?_
      intro c hc
      exact congrArg Document.obj (channelPayload_described (h.channels c hc))
    simp only [runtimeManifestPayload, Manifest.described, hchannels]
  rw [runtimeManifestText, hpayload, runtimeManifestText]

end

/-- What is printed for a manifest file is a manifest file again. It has the same channels, each with
the paths among its extras where it had none of its own, and what is printed for it is the same text. -/
theorem described_manifest_fixed (F : FloatReader) {file : Text} (hfile : ∀ c ∈ file, Scalar c) {d : Document}
    (hloads : loads F file = some d) {path : Text} {out : List UInt8} (h : describeManifest path (.data d) = .ok out) :
    ∃ manifest e, loadManifest path (.data d) = .ok manifest ∧ out = runtimeManifestText manifest ∧
      loads F (ofBytes out) = some e ∧
      ∀ path', loadManifest path' (.data e) = .ok manifest.described ∧ describeManifest path' (.data e) = .ok out := by
  obtain ⟨manifest, hmanifest, hout⟩ := bind_ok.mp h
  cases hout
  have hsound := loadManifest_sound (loads_decoded hfile hloads) hmanifest
  obtain ⟨hread, hsame⟩ := runtimeManifestText_described hsound
  refine ⟨manifest, _, hmanifest, rfl, hread, ?_⟩
  intro path'
  have hload := loadManifest_payload hsound path'
  refine ⟨hload, ?_⟩
  rw [describeManifest, hload, ← hsame]
  rfl

def oneAndHalf : FloatText := ⟨[0x31, 0x2e, 0x35], by decide +kernel⟩

def oneAndHalfReader : FloatReader where
  read _ := oneAndHalf
  repr _ := .inl ⟨⟨[], [0x31], [0x2e, 0x35]⟩, rfl, by decide, rfl⟩

def linesOf (lines : List String) : Text := lines.flatMap (fun line => codes line ++ [0x0a])

def ownLogFile : Text := linesOf
  ["\x7b\"version\": 1, \"run_id\": \"r\",", "\"target\": \"t\", \"binary_name\": \"b\",",
    "\"transport\": \x7b\"x\": 1.50\x7d, \"channels\": [", "\x7b\"id\": 7, \"name\": \"a\", \"raw_log\": \"\\u00e9\",",
    "\"kind\": \"k\", \"interactive\": false, \"pty\": false\x7d]\x7d"]

def ownLogText : List UInt8 := (linesOf
  ["\x7b", "  \"version\": 1,", "  \"run_id\": \"r\",", "  \"target\": \"t\",", "  \"binary_name\": \"b\",",
    "  \"transport\": \x7b", "    \"x\": 1.5", "  \x7d,", "  \"channels\": [", "    \x7b", "      \"id\": 7,",
    "      \"name\": \"a\",", "      \"kind\": \"k\",", "      \"interactive\": false,", "      \"pty\": false,",
    "      \"runtime_dir\": \"channels/a\",", "      \"raw_log\": \"\\u00e9\",",
    "      \"events_log\": \"channels/a/events.jsonl\",", "      \"pty_link\": null", "    \x7d", "  ]", "\x7d"]).map UInt8.ofNat

theorem ok_of_toOption {α : Type} {x : Except Failure α} {a : α} (h : x.toOption = some a) : x = .ok a := by
  cases x with
  | error e => cases h
  | ok b => exact congrArg Except.ok (Option.some.inj h)

theorem ownLogFile_scalar : ∀ c ∈ ownLogFile, Scalar c := by
  have hascii : ownLogFile.all (fun c => decide (c < 0xd800)) = true := by decide +kernel
  intro c hc
  exact .inl (of_decide_eq_true (List.all_eq_true.mp hascii c hc))

theorem ownLog_described : ∃ d, loads oneAndHalfReader ownLogFile = some d ∧
    describeManifest (codes "m.json") (.data d) = .ok ownLogText := by
  have hrun : (loads oneAndHalfReader ownLogFile).map (fun d => (describeManifest (codes "m.json") (.data d)).toOption) =
      some (some ownLogText) := by decide +kernel
  obtain ⟨d, hd, hdescribe⟩ := Option.map_eq_some_iff.mp hrun
  exact ⟨d, hd, ok_of_toOption hdescribe⟩

theorem described_manifest_fixed_ownLog : ∃ e, loads oneAndHalfReader (ofBytes ownLogText) = some e ∧
    describeManifest (codes "runtime-manifest.json") (.data e) = .ok ownLogText := by
  obtain ⟨d, hloads, hdescribe⟩ := ownLog_described
  obtain ⟨_, e, -, -, hread, hsame⟩ := @described_manifest_fixed oneAndHalfReader ownLogFile ownLogFile_scalar d hloads _ _ hdescribe
  exact ⟨e, hread, (hsame _).2⟩

end VirtiosoMux.Channels
