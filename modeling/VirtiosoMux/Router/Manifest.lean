import VirtiosoMux.Library.JsonDocument
import VirtiosoMux.Library.Paths
import VirtiosoMux.Router.Mappings

/-! # The manifest and the directories of its channels

`load_manifest` and the paths that `_channel_runtimes` makes from the names it accepts. The
names are compared as strings, and the directories are those they lead to as paths.
-/
namespace VirtiosoMux.Channels
open Json Paths

abbrev Members := List (Text × Document)

/-- A raised exception: the router's own with its message, or another one. -/
inductive Failure
  | consoleRouterError (message : Text)
  | other

/-- What `isinstance(value, int)` accepts; a boolean is an integer. -/
inductive PyInt
  | int (n : Int)
  | bool (b : Bool)

def PyInt.value : PyInt → Int
  | .int n => n
  | .bool b => if b then 1 else 0

def PyInt.text : PyInt → Text
  | .int n => (decimal n).map UInt8.toNat
  | .bool true => codes "True"
  | .bool false => codes "False"

structure Channel where
  id : PyInt
  name : Text
  kind : Text
  interactive : Bool
  pty : Bool
  extras : Members

structure Manifest where
  version : PyInt
  runId : Text
  target : Text
  binaryName : Text
  transport : Members
  channels : List Channel

/-! ### Loading -/

/-- Outcome of reading and decoding the file: it is not there, `json.loads` refuses it with a
message, something else is raised, or there is a document. -/
inductive Loaded
  | missing
  | undecodable (message : Text)
  | raised
  | data (d : Document)

def loadJson (path : Text) : Loaded → Except Failure Members
  | .missing => .error (.consoleRouterError (codes "manifest not found: " ++ path))
  | .undecodable message =>
    .error (.consoleRouterError (codes "invalid JSON in manifest " ++ path ++ codes ": " ++ message))
  | .raised => .error .other
  | .data (.obj members) => .ok members
  | .data _ => .error (.consoleRouterError (codes "manifest root must be an object: " ++ path))

/-- `data.get(key)` -/
def get (data : Members) (key : String) : Option Document := (data.find? (fun m => m.1 == codes key)).map Prod.snd

def fieldError (key what : String) : Failure :=
  .consoleRouterError (codes "manifest field '" ++ codes key ++ codes "' must be " ++ codes what)

/-- `not value.strip()` -/
def blank (s : Text) : Bool := s.all (fun c => Router.isSpace (Char.ofNat c))

def requireStr (data : Members) (key : String) : Except Failure Text :=
  match get data key with
  | some (.str s) => if blank s then .error (fieldError key "a non-empty string") else .ok s
  | _ => .error (fieldError key "a non-empty string")

def requireInt (data : Members) (key : String) : Except Failure PyInt :=
  match get data key with
  | some (.int n) => .ok (.int n)
  | some (.bool b) => .ok (.bool b)
  | _ => .error (fieldError key "an integer")

def requireBool (data : Members) (key : String) : Except Failure Bool :=
  match get data key with
  | some (.bool b) => .ok b
  | _ => .error (fieldError key "a boolean")

def channelKeys : List Text := [codes "id", codes "name", codes "kind", codes "interactive", codes "pty"]

def loadChannel (seenIds : List Int) (seenNames : List Text) (entry : Members) : Except Failure Channel := do
  let channelId ← requireInt entry "id"
  let name ← requireStr entry "name"
  let kind ← requireStr entry "kind"
  let interactive ← requireBool entry "interactive"
  let pty ← requireBool entry "pty"
  if channelId.value ∈ seenIds then .error (.consoleRouterError (codes "duplicate channel id: " ++ channelId.text))
  else if name ∈ seenNames then .error (.consoleRouterError (codes "duplicate channel name: " ++ name))
  else .ok ⟨channelId, name, kind, interactive, pty, entry.filter (fun m => m.1 ∉ channelKeys)⟩

def loadChannels : Nat → List Int → List Text → List Document → Except Failure (List Channel)
  | _, _, _, [] => .ok []
  | idx, seenIds, seenNames, .obj entry :: rest => do
    let channel ← loadChannel seenIds seenNames entry
    let channels ← loadChannels (idx + 1) (channel.id.value :: seenIds) (channel.name :: seenNames) rest
    .ok (channel :: channels)
  | idx, _, _, _ :: _ =>
    .error (.consoleRouterError (codes "channel[" ++ (digits idx).map UInt8.toNat ++ codes "] must be an object"))

def loadManifest (path : Text) (file : Loaded) : Except Failure Manifest := do
  let data ← loadJson path file
  let version ← requireInt data "version"
  if version.value ≠ 1 then .error (.consoleRouterError (codes "unsupported manifest version: " ++ version.text))
  else
    match get data "transport" with
    | some (.obj transport) =>
      match get data "channels" with
      | some (.arr (entry :: rest)) => do
        let channels ← loadChannels 0 [] [] (entry :: rest)
        let runId ← requireStr data "run_id"
        let target ← requireStr data "target"
        let binaryName ← requireStr data "binary_name"
        .ok ⟨version, runId, target, binaryName, transport, channels⟩
      | _ => .error (fieldError "channels" "a non-empty list")
    | _ => .error (fieldError "transport" "an object")

/-! ### Paths -/

def slash : Nat := 0x2f
def dot : Nat := 0x2e

/-- A `pathlib` path: the parts are without empty ones and single dots. -/
structure PosixPath where
  absolute : Bool
  parts : List Text
deriving DecidableEq

def PosixPath.ofText (s : Text) : PosixPath :=
  ⟨s.head? == some slash, (s.splitOn slash).filter (fun part => decide (part ≠ [] ∧ part ≠ [dot]))⟩

/-- `p / s`: an absolute right side replaces the left. -/
def PosixPath.join (p : PosixPath) (s : Text) : PosixPath :=
  let q := PosixPath.ofText s
  if q.absolute then q else ⟨p.absolute, p.parts ++ q.parts⟩

def PosixPath.resolve (workingDirectory : List Text) (p : PosixPath) : List Text :=
  p.parts.foldl (enter dot) (if p.absolute then [] else workingDirectory)

structure ChannelRuntime where
  channel : Channel
  root : PosixPath
  rawLogPath : PosixPath
  eventsLogPath : PosixPath
  ptyLinkPath : PosixPath

def channelRuntime (root : PosixPath) (channel : Channel) : ChannelRuntime :=
  ⟨channel, root, root.join (codes "raw.log"), root.join (codes "events.jsonl"), root.join (codes "pty")⟩

/-- The files of a channel, with the description that `prepare` writes. -/
def ChannelRuntime.files (r : ChannelRuntime) : List PosixPath :=
  [r.rawLogPath, r.eventsLogPath, r.ptyLinkPath, r.root.join (codes "channel.json")]

def channelRuntimes (runtimeDir : PosixPath) (manifest : Manifest) : List ChannelRuntime :=
  let channelsRoot := runtimeDir.join (codes "channels")
  manifest.channels.map (fun channel => channelRuntime (channelsRoot.join channel.name) channel)

/-! ### What an accepted manifest has -/

theorem bind_ok {α β : Type} {x : Except Failure α} {f : α → Except Failure β} {b : β} :
    x >>= f = .ok b ↔ ∃ a, x = .ok a ∧ f a = .ok b := by
  cases x with
  | error e => simp [bind, Except.bind]
  | ok a => simp [bind, Except.bind]

theorem requireStr_ok {data : Members} {key : String} {s : Text} (h : requireStr data key = .ok s) : blank s = false := by
  unfold requireStr at h
  split at h
  · split at h
    · cases h
    · rename_i hblank
      cases h
      exact Bool.eq_false_of_not_eq_true hblank
  · cases h

/-- A channel that the loop takes has a name that is not blank and not taken. -/
theorem loadChannel_ok {seenIds : List Int} {seenNames : List Text} {entry : Members} {channel : Channel}
    (h : loadChannel seenIds seenNames entry = .ok channel) :
    channel.id.value ∉ seenIds ∧ channel.name ∉ seenNames ∧ blank channel.name = false := by
  unfold loadChannel at h
  obtain ⟨channelId, -, h⟩ := bind_ok.mp h
  obtain ⟨name, hname, h⟩ := bind_ok.mp h
  obtain ⟨kind, -, h⟩ := bind_ok.mp h
  obtain ⟨interactive, -, h⟩ := bind_ok.mp h
  obtain ⟨pty, -, h⟩ := bind_ok.mp h
  split at h
  · cases h
  rename_i hid
  split at h
  · cases h
  rename_i hseen
  cases h
  exact ⟨hid, hseen, requireStr_ok hname⟩

structure Accepted (channels : List Channel) : Prop where
  ids : (channels.map (fun c => c.id.value)).Nodup
  names : (channels.map Channel.name).Nodup
  nonblank : ∀ c ∈ channels, blank c.name = false

theorem loadChannels_ok {idx : Nat} {seenIds : List Int} {seenNames : List Text} {entries : List Document}
    {channels : List Channel} (h : loadChannels idx seenIds seenNames entries = .ok channels) :
    Accepted channels ∧ ∀ c ∈ channels, c.id.value ∉ seenIds ∧ c.name ∉ seenNames := by
  induction entries generalizing idx seenIds seenNames channels with
  | nil =>
    cases h
    exact ⟨⟨List.nodup_nil, List.nodup_nil, List.forall_mem_nil _⟩, List.forall_mem_nil _⟩
  | cons entry rest ih =>
    cases entry with
    | obj members =>
      rw [loadChannels] at h
      obtain ⟨channel, hchannel, h⟩ := bind_ok.mp h
      obtain ⟨more, hmore, h⟩ := bind_ok.mp h
      cases h
      obtain ⟨hid, hname, hblank⟩ := loadChannel_ok hchannel
      obtain ⟨haccepted, hseen⟩ := ih hmore
      refine ⟨⟨?_, ?_, ?_⟩, ?_⟩
      · refine List.nodup_cons.mpr ⟨?_, haccepted.ids⟩
        intro hmem
        obtain ⟨c, hc, heq⟩ := List.mem_map.mp hmem
        exact (hseen c hc).1 (heq ▸ List.mem_cons_self)
      · refine List.nodup_cons.mpr ⟨?_, haccepted.names⟩
        intro hmem
        obtain ⟨c, hc, heq⟩ := List.mem_map.mp hmem
        exact (hseen c hc).2 (heq ▸ List.mem_cons_self)
      · intro c hc
        rcases List.mem_cons.mp hc with rfl | hc
        · exact hblank
        · exact haccepted.nonblank c hc
      · intro c hc
        rcases List.mem_cons.mp hc with rfl | hc
        · exact ⟨hid, hname⟩
        · exact ⟨fun hmem => (hseen c hc).1 (List.mem_cons_of_mem _ hmem),
            fun hmem => (hseen c hc).2 (List.mem_cons_of_mem _ hmem)⟩
    | _ => cases h

theorem loadManifest_ok {path : Text} {file : Loaded} {manifest : Manifest} (h : loadManifest path file = .ok manifest) :
    Accepted manifest.channels := by
  unfold loadManifest at h
  obtain ⟨data, -, h⟩ := bind_ok.mp h
  obtain ⟨version, -, h⟩ := bind_ok.mp h
  split at h
  · cases h
  split at h
  · split at h
    · obtain ⟨channels, hchannels, h⟩ := bind_ok.mp h
      obtain ⟨runId, -, h⟩ := bind_ok.mp h
      obtain ⟨target, -, h⟩ := bind_ok.mp h
      obtain ⟨binaryName, -, h⟩ := bind_ok.mp h
      cases h
      exact (loadChannels_ok hchannels).1
    · cases h
  · cases h

/-! ### Where the paths lead -/

theorem resolve_join (workingDirectory : List Text) (p : PosixPath) (s : Text) :
    (p.join s).resolve workingDirectory = (reduce dot (PosixPath.ofText s).parts).follow
      (if (PosixPath.ofText s).absolute then [] else p.resolve workingDirectory) := by
  unfold PosixPath.join
  rw [← foldl_enter]
  by_cases habs : (PosixPath.ofText s).absolute = true
  · simp only [habs, if_true, PosixPath.resolve]
  · simp only [habs, Bool.false_eq_true, if_false, PosixPath.resolve, List.foldl_append]

theorem ofText_plain {s : Text} (hs : Plain slash dot s) : PosixPath.ofText s = ⟨false, [s]⟩ := by
  have hhead : (s.head? == some slash) = false := by
    apply beq_eq_false_iff_ne.mpr
    intro hfirst
    exact hs.noSlash (List.mem_of_head? hfirst)
  rw [PosixPath.ofText, hhead, List.splitOn_eq_singleton hs.noSlash]
  simp [hs.nonempty, hs.notDot]

theorem reduce_plain {s : Text} (hs : Plain slash dot s) : reduce dot [s] = ⟨0, [s]⟩ := by
  simp [reduce, reduceStep, hs.nonempty, hs.notDot, hs.notDots]

theorem resolve_plain (workingDirectory : List Text) (p : PosixPath) {s : Text} (hs : Plain slash dot s) :
    (p.join s).resolve workingDirectory = p.resolve workingDirectory ++ [s] := by
  rw [resolve_join, ofText_plain hs, reduce_plain hs]
  simp [Reduced.follow]

/-- The name leads to the child `child` of the directory of all channels: its components reduce to
the way back into that directory, if they have left it, and the child. -/
def ChildName (channelsRoot : List Text) (name child : Text) : Prop :=
  let path := PosixPath.ofText name
  let reduced := reduce dot path.parts
  reduced.entered =
    (if path.absolute then channelsRoot else channelsRoot.drop (channelsRoot.length - reduced.climbs)) ++ [child]

theorem resolve_child_iff (workingDirectory : List Text) (channelsRoot : PosixPath) (name child : Text) :
    (channelsRoot.join name).resolve workingDirectory = channelsRoot.resolve workingDirectory ++ [child] ↔
      ChildName (channelsRoot.resolve workingDirectory) name child := by
  rw [resolve_join]
  by_cases habs : (PosixPath.ofText name).absolute = true
  · simp only [ChildName, habs, if_true, Reduced.follow, List.take_nil, List.nil_append]
  · simp only [ChildName, habs, Bool.false_eq_true, if_false]
    exact Reduced.follow_eq_child

/-! ### Separate directories -/

structure ChannelsSeparate (channelsRoot : List Text) (directories : List (List Text)) : Prop where
  distinct : directories.Nodup
  children : ∀ d ∈ directories, ∃ child, d = channelsRoot ++ [child]

/-- No two channels share a file, and all files are below the runtime directory. -/
structure FilesSeparate (workingDirectory : List Text) (runtimeDir : PosixPath) (runtimes : List ChannelRuntime) : Prop where
  apart : runtimes.Pairwise (fun r s => ∀ p ∈ r.files, ∀ q ∈ s.files,
    p.resolve workingDirectory ≠ q.resolve workingDirectory)
  inside : ∀ r ∈ runtimes, ∀ p ∈ r.files, runtimeDir.resolve workingDirectory <+: p.resolve workingDirectory

structure NamesApart (channelsRoot : List Text) (names : List Text) : Prop where
  children : ∀ n ∈ names, ∃ child, ChildName channelsRoot n child
  distinct : names.Pairwise (fun n m => ∀ child, ChildName channelsRoot n child → ¬ ChildName channelsRoot m child)

theorem plain_channels : Plain slash dot (codes "channels") := by
  constructor <;> decide

section Runtimes
variable (workingDirectory : List Text) (runtimeDir : PosixPath) (manifest : Manifest)

/-- `runtime_dir / "channels"` -/
def channelsDirectory : List Text := runtimeDir.resolve workingDirectory ++ [codes "channels"]

def directories : List (List Text) :=
  (channelRuntimes runtimeDir manifest).map (fun r => r.root.resolve workingDirectory)

theorem directories_eq : directories workingDirectory runtimeDir manifest =
    (manifest.channels.map Channel.name).map
      (fun name => ((runtimeDir.join (codes "channels")).join name).resolve workingDirectory) := by
  simp only [directories, channelRuntimes, List.map_map]
  rfl

theorem root_child_iff (name child : Text) :
    ((runtimeDir.join (codes "channels")).join name).resolve workingDirectory =
        channelsDirectory workingDirectory runtimeDir ++ [child] ↔
      ChildName (channelsDirectory workingDirectory runtimeDir) name child := by
  have hroot := resolve_plain workingDirectory runtimeDir plain_channels
  have hiff := resolve_child_iff workingDirectory (runtimeDir.join (codes "channels")) name child
  rw [hroot] at hiff
  exact hiff

theorem separate_iff :
    ChannelsSeparate (channelsDirectory workingDirectory runtimeDir) (directories workingDirectory runtimeDir manifest) ↔
      NamesApart (channelsDirectory workingDirectory runtimeDir) (manifest.channels.map Channel.name) := by
  have hchild := root_child_iff workingDirectory runtimeDir
  rw [directories_eq]
  generalize manifest.channels.map Channel.name = names
  have hpairs : (∀ n ∈ names, ∃ child, ChildName (channelsDirectory workingDirectory runtimeDir) n child) →
      ((names.map (fun name => ((runtimeDir.join (codes "channels")).join name).resolve workingDirectory)).Nodup ↔
        names.Pairwise (fun n m => ∀ child, ChildName (channelsDirectory workingDirectory runtimeDir) n child →
          ¬ ChildName (channelsDirectory workingDirectory runtimeDir) m child)) := by
    intro hchildren
    rw [List.Nodup, List.pairwise_map]
    apply List.Pairwise.iff_of_mem
    intro n m hn _
    constructor
    · intro hne child hchildN hchildM
      exact hne (((hchild n child).mpr hchildN).trans ((hchild m child).mpr hchildM).symm)
    · intro hapart heq
      obtain ⟨child, hchildN⟩ := hchildren n hn
      exact hapart child hchildN ((hchild m child).mp (heq ▸ (hchild n child).mpr hchildN))
  constructor
  · intro hseparate
    have hchildren : ∀ n ∈ names, ∃ child, ChildName (channelsDirectory workingDirectory runtimeDir) n child := by
      intro n hn
      obtain ⟨child, heq⟩ := hseparate.children _ (List.mem_map_of_mem hn)
      exact ⟨child, (hchild n child).mp heq⟩
    exact ⟨hchildren, (hpairs hchildren).mp hseparate.distinct⟩
  · intro hapart
    refine ⟨(hpairs hapart.children).mpr hapart.distinct, ?_⟩
    intro d hd
    obtain ⟨n, hn, rfl⟩ := List.mem_map.mp hd
    obtain ⟨child, hchildN⟩ := hapart.children n hn
    exact ⟨child, (hchild n child).mpr hchildN⟩

/-- Names that are entered as they are written lead to themselves. -/
theorem namesApart_plain (channelsRoot : List Text) {names : List Text} (hnodup : names.Nodup)
    (hplain : ∀ n ∈ names, Plain slash dot n) : NamesApart channelsRoot names := by
  have hself : ∀ n ∈ names, ∀ child, ChildName channelsRoot n child ↔ child = n := by
    intro n hn child
    have hs := hplain n hn
    simp only [ChildName, ofText_plain hs, reduce_plain hs, Bool.false_eq_true, if_false, Nat.sub_zero, List.drop_length,
      List.nil_append, List.cons.injEq, and_true]
    exact eq_comm
  constructor
  · exact fun n hn => ⟨n, (hself n hn n).mpr rfl⟩
  · refine hnodup.imp_of_mem ?_
    intro n m hn hm hne child hchildN hchildM
    exact hne (((hself n hn child).mp hchildN).symm.trans ((hself m hm child).mp hchildM))

/-- A file of a channel with a child directory. -/
theorem file_resolve {r : ChannelRuntime} (hr : r ∈ channelRuntimes runtimeDir manifest) {p : PosixPath} (hp : p ∈ r.files) :
    ∃ file, p.resolve workingDirectory = r.root.resolve workingDirectory ++ [file] := by
  obtain ⟨channel, -, rfl⟩ := List.mem_map.mp hr
  have hplain : ∀ s ∈ [codes "raw.log", codes "events.jsonl", codes "pty", codes "channel.json"], Plain slash dot s := by
    intro s hs
    simp only [List.mem_cons, List.not_mem_nil, or_false] at hs
    rcases hs with rfl | rfl | rfl | rfl <;> constructor <;> decide
  simp only [ChannelRuntime.files, channelRuntime, List.mem_cons, List.not_mem_nil, or_false] at hp
  rcases hp with rfl | rfl | rfl | rfl
  · exact ⟨_, resolve_plain workingDirectory _ (hplain _ (by simp))⟩
  · exact ⟨_, resolve_plain workingDirectory _ (hplain _ (by simp))⟩
  · exact ⟨_, resolve_plain workingDirectory _ (hplain _ (by simp))⟩
  · exact ⟨_, resolve_plain workingDirectory _ (hplain _ (by simp))⟩

theorem files_of_separate (h : ChannelsSeparate (channelsDirectory workingDirectory runtimeDir)
    (directories workingDirectory runtimeDir manifest)) :
    FilesSeparate workingDirectory runtimeDir (channelRuntimes runtimeDir manifest) := by
  have hresolve := @file_resolve workingDirectory runtimeDir manifest
  constructor
  · have hdistinct := h.distinct
    rw [directories, List.Nodup, List.pairwise_map] at hdistinct
    refine hdistinct.imp_of_mem ?_
    intro r s hr hs hne p hp q hq heq
    obtain ⟨file, hfile⟩ := hresolve hr hp
    obtain ⟨file', hfile'⟩ := hresolve hs hq
    rw [hfile, hfile'] at heq
    exact hne (List.append_inj_left' heq rfl)
  · intro r hr p hp
    obtain ⟨file, hfile⟩ := hresolve hr hp
    obtain ⟨child, hchild⟩ := h.children _ (List.mem_map_of_mem hr)
    rw [hfile, hchild, channelsDirectory, List.append_assoc, List.append_assoc]
    exact List.prefix_append _ _

end Runtimes

/-- The directories of an accepted manifest are separate exactly if its names lead to different
children. The check for duplicate names is enough for names without separators and dots. -/
theorem channels_separate_iff {path : Text} {file : Loaded} {manifest : Manifest}
    (hload : loadManifest path file = .ok manifest) (workingDirectory : List Text) (runtimeDir : PosixPath) :
    (ChannelsSeparate (channelsDirectory workingDirectory runtimeDir) (directories workingDirectory runtimeDir manifest) ↔
      NamesApart (channelsDirectory workingDirectory runtimeDir) (manifest.channels.map Channel.name)) ∧
    (ChannelsSeparate (channelsDirectory workingDirectory runtimeDir) (directories workingDirectory runtimeDir manifest) →
      FilesSeparate workingDirectory runtimeDir (channelRuntimes runtimeDir manifest)) ∧
    ((∀ c ∈ manifest.channels, Plain slash dot c.name) →
      ChannelsSeparate (channelsDirectory workingDirectory runtimeDir) (directories workingDirectory runtimeDir manifest)) := by
  have haccepted := loadManifest_ok hload
  refine ⟨separate_iff workingDirectory runtimeDir manifest, files_of_separate workingDirectory runtimeDir manifest, ?_⟩
  intro hplain
  rw [separate_iff]
  refine namesApart_plain _ haccepted.names ?_
  intro n hn
  obtain ⟨c, hc, rfl⟩ := List.mem_map.mp hn
  exact hplain c hc

def twoChannels (first second : Text) : Manifest :=
  ⟨.int 1, codes "run", codes "orin", codes "image", [],
    [⟨.int 1, first, codes "log", false, true, []⟩, ⟨.int 2, second, codes "log", false, true, []⟩]⟩

def twoChannelsDocument (first second : Text) : Document :=
  let channel (n : Int) (name : Text) : Document :=
    .obj [(codes "id", .int n), (codes "name", .str name), (codes "kind", .str (codes "log")),
      (codes "interactive", .bool false), (codes "pty", .bool true)]
  .obj [(codes "version", .int 1), (codes "run_id", .str (codes "run")), (codes "target", .str (codes "orin")),
    (codes "binary_name", .str (codes "image")), (codes "transport", .obj []),
    (codes "channels", .arr [channel 1 first, channel 2 second])]

theorem channels_separate_iff_plain :
    loadManifest (codes "m.json") (.data (twoChannelsDocument (codes "a") (codes "b"))) =
        .ok (twoChannels (codes "a") (codes "b")) ∧
      ChannelsSeparate (channelsDirectory [] ⟨true, [codes "run"]⟩)
        (directories [] ⟨true, [codes "run"]⟩ (twoChannels (codes "a") (codes "b"))) := by
  have hload : loadManifest (codes "m.json") (.data (twoChannelsDocument (codes "a") (codes "b"))) =
      .ok (twoChannels (codes "a") (codes "b")) := rfl
  refine ⟨hload, (channels_separate_iff hload [] ⟨true, [codes "run"]⟩).2.2 ?_⟩
  intro c hc
  simp only [twoChannels, List.mem_cons, List.not_mem_nil, or_false] at hc
  rcases hc with rfl | rfl <;> constructor <;> decide

/-- The names `a` and `./a` differ and lead to one directory. -/
theorem dotted_name_shared :
    ¬ ∀ path file manifest, loadManifest path file = .ok manifest → ∀ workingDirectory runtimeDir,
      ChannelsSeparate (channelsDirectory workingDirectory runtimeDir)
        (directories workingDirectory runtimeDir manifest) := by
  intro hall
  have hload : loadManifest (codes "m.json") (.data (twoChannelsDocument (codes "a") (codes "./a"))) =
      .ok (twoChannels (codes "a") (codes "./a")) := rfl
  have hdistinct := (hall _ _ _ hload [] ⟨true, [codes "run"]⟩).distinct
  exact absurd hdistinct (by decide)

end VirtiosoMux.Channels
