import Mathlib
import VirtiosoMux.Library.Json

/-! # The registry generator

`generate_camkes_stream_registry.py` from the matches of its patterns in the preprocessed
assembly to the registry. A raised `ValueError` is an error with its message.
-/
namespace VirtiosoMux.Generator
open Json

def isIdentStart (c : Nat) : Bool := (0x41 ≤ c && c ≤ 0x5a) || (0x61 ≤ c && c ≤ 0x7a) || c == 0x5f
def isIdentRest (c : Nat) : Bool := isIdentStart c || (0x30 ≤ c && c ≤ 0x39)

/-- `[A-Za-z_][A-Za-z0-9_]*` -/
def isIdent : Text → Bool
  | [] => false
  | c :: rest => isIdentStart c && rest.all isIdentRest

structure Ident where
  text : Text
  valid : isIdent text = true
deriving DecidableEq

inductive ConsoleKind
  | putChar
  | getChar
deriving DecidableEq

def ConsoleKind.text : ConsoleKind → Text
  | .putChar => codes "PutChar"
  | .getChar => codes "GetChar"

structure Interface where
  kind : ConsoleKind
  name : Ident
deriving DecidableEq

structure Instance where
  componentType : Ident
  componentName : Ident

structure Connection where
  fromComponent : Ident
  fromInterface : Ident
  toComponent : Ident
  toInterface : Ident

/-- The component types with their console interfaces, and the instances and connections of
the composition in their order. -/
structure Assembly where
  componentTypes : Ident → Option (List Interface)
  instances : List Instance
  connections : List Connection

/-- `type_meta.get("console_interfaces", [])`; `has_console_stream` is whether it is empty. -/
def Assembly.consoleInterfaces (a : Assembly) (componentType : Ident) : List Interface :=
  (a.componentTypes componentType).getD []

def reservedStreamIds : List Nat := [0, 0xfd, 0xfe]

def nextStreamId (current : Nat) : Nat :=
  if current ∈ reservedStreamIds then nextStreamId (current + 1) else current
termination_by 0xff - current
decreasing_by
  rename_i h
  simp only [reservedStreamIds, List.mem_cons, List.not_mem_nil, or_false] at h
  omega

inductive Direction
  | bidirectional
  | output
  | input
  | none
deriving DecidableEq

def Direction.text : Direction → Text
  | .bidirectional => codes "bidirectional"
  | .output => codes "output"
  | .input => codes "input"
  | .none => codes "none"

def streamDirection (interfaces : List Interface) : Direction :=
  let kinds := interfaces.map Interface.kind
  if .putChar ∈ kinds ∧ .getChar ∈ kinds then .bidirectional
  else if .putChar ∈ kinds then .output
  else if .getChar ∈ kinds then .input
  else .none

/-- The list of aliases is always empty and left out. -/
structure Stream where
  streamId : Int
  component : Ident
  componentType : Ident
  streamIdSource : Text
  direction : Direction
  interfaces : List Interface

structure Instances where
  streams : List Stream
  seen : List Ident
  nextStreamId : Nat

def addInstance (a : Assembly) (s : Instances) (i : Instance) : Except Text Instances :=
  if i.componentName ∈ s.seen then
    .error (codes "duplicate component instance '" ++ i.componentName.text ++ codes "'")
  else
    let interfaces := a.consoleInterfaces i.componentType
    let stream (streamId : Int) (streamIdSource : Text) : Stream :=
      ⟨streamId, i.componentName, i.componentType, streamIdSource, streamDirection interfaces, interfaces⟩
    let seen := s.seen ++ [i.componentName]
    if interfaces = [] then .ok ⟨s.streams ++ [stream (-1) (codes "none")], seen, s.nextStreamId⟩
    else
      let streamId := Generator.nextStreamId s.nextStreamId
      .ok ⟨s.streams ++ [stream streamId (codes "component.common.c")], seen, streamId + 1⟩

def componentInstances (a : Assembly) : Except Text (List Stream) :=
  match a.instances.foldlM (addInstance a) ⟨[], [], 1⟩ with
  | .error e => .error e
  | .ok s => if s.streams = [] then .error (codes "no component instances found in assembly composition") else .ok s.streams

/-- The lookup that both connection loops start with; `what` is the kind of endpoint. -/
def connectedStream (what : String) (streams : List Stream) (component : Ident) : Except Text Stream :=
  match streams.find? (fun s => s.component = component) with
  | none => .error (codes what ++ codes " component '" ++ component.text ++ codes "' missing from registry")
  | some s =>
    if s.streamId < 0 then .error (codes what ++ codes " component '" ++ component.text ++ codes "' has no stream id")
    else .ok s

structure MuxSource where
  muxComponent : Ident
  muxInterface : Ident
  component : Ident
  streamId : Int

def muxSource (streams : List Stream) (c : Connection) : Except Text MuxSource :=
  match connectedStream "mux source" streams c.fromComponent with
  | .error e => .error e
  | .ok s => .ok ⟨c.toComponent, c.toInterface, c.fromComponent, s.streamId⟩

def intoMux (c : Connection) : Bool := c.toInterface.text == codes "mux_batch"

def muxSources (a : Assembly) (streams : List Stream) : Except Text (List MuxSource) :=
  (a.connections.filter intoMux).mapM (muxSource streams)

structure DemuxSink where
  demuxComponent : Ident
  demuxInterface : Ident
  demuxClientIndex : Nat
  component : Ident
  streamId : Int

structure Sinks where
  sinksByEndpoint : Ident × Ident → Nat
  sinks : List DemuxSink

def demuxSink (streams : List Stream) (s : Sinks) (c : Connection) : Except Text Sinks :=
  match connectedStream "demux sink" streams c.fromComponent with
  | .error e => .error e
  | .ok stream =>
    let targetKey := (c.toComponent, c.toInterface)
    let clientIndex := s.sinksByEndpoint targetKey
    .ok ⟨Function.update s.sinksByEndpoint targetKey (clientIndex + 1),
      s.sinks ++ [⟨c.toComponent, c.toInterface, clientIndex, c.fromComponent, stream.streamId⟩]⟩

/-- `"getchar" in to_interface` -/
def fromDemux (c : Connection) : Bool := decide (codes "getchar" <:+: c.toInterface.text)

def demuxSinks (a : Assembly) (streams : List Stream) : Except Text (List DemuxSink) :=
  match (a.connections.filter fromDemux).foldlM (demuxSink streams) ⟨fun _ => 0, []⟩ with
  | .error e => .error e
  | .ok s => .ok s.sinks

structure Registry where
  name : Text
  source : Text
  streams : List Stream
  muxSources : List MuxSource
  demuxSinks : List DemuxSink

/-- The registry that `main` writes, from the arguments and the matches. -/
def generate (a : Assembly) (name source : Text) : Except Text Registry :=
  match componentInstances a with
  | .error e => .error e
  | .ok streams =>
    match muxSources a streams with
    | .error e => .error e
    | .ok sources =>
      match demuxSinks a streams with
      | .error e => .error e
      | .ok sinks => .ok ⟨name, source, streams, sources, sinks⟩

/-! ### The registry as a JSON value -/

def Interface.value (i : Interface) : Value :=
  .obj [(codes "kind", .str i.kind.text), (codes "name", .str i.name.text)]

def Stream.members (s : Stream) : List (Text × Value) :=
  [(codes "stream_id", .int s.streamId), (codes "component", .str s.component.text),
   (codes "type", .str s.componentType.text), (codes "stream_id_source", .str s.streamIdSource),
   (codes "direction", .str s.direction.text), (codes "interfaces", .arr (s.interfaces.map Interface.value)),
   (codes "aliases", .arr [])]

def MuxSource.value (m : MuxSource) : Value :=
  .obj [(codes "mux_component", .str m.muxComponent.text), (codes "mux_interface", .str m.muxInterface.text),
    (codes "component", .str m.component.text), (codes "stream_id", .int m.streamId)]

def DemuxSink.value (d : DemuxSink) : Value :=
  .obj [(codes "demux_component", .str d.demuxComponent.text), (codes "demux_interface", .str d.demuxInterface.text),
    (codes "demux_client_index", .int d.demuxClientIndex), (codes "component", .str d.component.text),
    (codes "stream_id", .int d.streamId)]

def Registry.members (r : Registry) : List (Text × Value) :=
  [(codes "schema", .str (codes "virtioso.camkes_component_identity.v1")), (codes "name", .str r.name),
   (codes "source", .str r.source), (codes "streams", .arr (r.streams.map (fun s => .obj s.members))),
   (codes "mux_sources", .arr (r.muxSources.map MuxSource.value)),
   (codes "demux_sinks", .arr (r.demuxSinks.map DemuxSink.value))]

def Registry.text (r : Registry) : List UInt8 := dumps (.obj r.members)

end VirtiosoMux.Generator
