import VirtiosoMux.Library.Runs
import VirtiosoMux.Muxd.Frames
import VirtiosoMux.Muxd.IdPool

/-! # The `virtioso-muxd` daemon as a transition system

Any number of `handle_client` tasks share the identifier pool and one FIFO frame
channel; `sink_task` drains the channel. A step is what one task does between two
awaits: an access to the pool under its lock, one read, one reply or one send.
-/
namespace VirtiosoMux.Muxd

/-! ### Names -/

/-- Admissible ranges for the continuation bytes of a UTF-8 sequence, by its first byte.
`none` is a byte that cannot start a sequence. -/
def utf8Continuation (b : Byte) : Option (List (Byte × Byte)) :=
  if b < 0x80 then some []
  else if 0xc2 ≤ b ∧ b ≤ 0xdf then some [(0x80, 0xbf)]
  else if b = 0xe0 then some [(0xa0, 0xbf), (0x80, 0xbf)]
  else if b = 0xed then some [(0x80, 0x9f), (0x80, 0xbf)]
  else if 0xe1 ≤ b ∧ b ≤ 0xef then some [(0x80, 0xbf), (0x80, 0xbf)]
  else if b = 0xf0 then some [(0x90, 0xbf), (0x80, 0xbf), (0x80, 0xbf)]
  else if 0xf1 ≤ b ∧ b ≤ 0xf3 then some [(0x80, 0xbf), (0x80, 0xbf), (0x80, 0xbf)]
  else if b = 0xf4 then some [(0x80, 0x8f), (0x80, 0xbf), (0x80, 0xbf)]
  else none

def replacement : Bytes := [0xef, 0xbf, 0xbd]

/-- Decoding with the part `seen` of a sequence read and the ranges `need` still to come. -/
def lossyFrom : Bytes → List (Byte × Byte) → Bytes → Bytes
  | seen, _, [] => if seen = [] then [] else replacement
  | seen, need, b :: rest =>
    let startHere (out : Bytes) : Bytes :=
      match utf8Continuation b with
      | none => out ++ replacement ++ lossyFrom [] [] rest
      | some [] => out ++ [b] ++ lossyFrom [] [] rest
      | some need => out ++ lossyFrom [b] need rest
    match need with
    | [] => startHere []
    | (lo, hi) :: more =>
      if lo ≤ b ∧ b ≤ hi then
        if more = [] then seen ++ [b] ++ lossyFrom [] [] rest else lossyFrom (seen ++ [b]) more rest
      else startHere replacement

/-- `String::from_utf8_lossy`: every maximal ill-formed part becomes one U+FFFD. -/
def fromUtf8Lossy (bytes : Bytes) : Bytes := lossyFrom [] [] bytes

/-! ### State -/

inductive Frame
  | connected (id : Byte) (name : Bytes)
  | data (id : Byte) (payload : Bytes)
  | disconnected (id : Byte) (name : Bytes)
deriving DecidableEq

def Frame.id : Frame → Byte
  | .connected id _ => id
  | .data id _ => id
  | .disconnected id _ => id

def Frame.encode : Frame → Bytes
  | .connected id name => encodeControlFrame vcmuxProtoControlStreamConnected id name []
  | .data id payload => encodeDataFrame id payload []
  | .disconnected id name => encodeControlFrame vcmuxProtoControlStreamDisconnected id name []

/-- Where a `handle_client` task stands: before its enrollment, before `alloc`, before the
identifier reply, before `free` after a failed reply, before the three sends, in its read
loop, before the final `free`, and after its return. -/
inductive Task
  | enrolling
  | named (name : Bytes)
  | allocated (name : Bytes) (id : Byte)
  | refused (id : Byte)
  | accepted (name : Bytes) (id : Byte)
  | reading (name : Bytes) (id : Byte)
  | sending (name : Bytes) (id : Byte) (chunk : Bytes)
  | closing (name : Bytes) (id : Byte)
  | releasing (id : Byte)
  | finished
deriving DecidableEq

def maxRead : Nat := 4096
def channelCapacity : Nat := 256

/-- `channel` keeps every frame ever sent with its sender; the first `received` of them
have been taken by `sink_task`, which still has to write `unwritten` of the last one.
`bytesRead` is what a task's read loop has read. -/
structure Daemon where
  pool : IdPool
  task : Nat → Task
  bytesRead : Nat → Bytes
  channel : List (Nat × Frame)
  received : Nat
  receiving : Bool
  unwritten : Bytes
  sink : Bytes

def Daemon.start : Daemon where
  pool := IdPool.new
  task _ := .enrolling
  bytesRead _ := []
  channel := []
  received := 0
  receiving := true
  unwritten := []
  sink := []

/-! ### Steps -/

inductive Action
  | enroll (c : Nat) (nameBuf : Bytes)
  | abandon (c : Nat)
  | alloc (c : Nat)
  | reply (c : Nat) (ok : Bool)
  | read (c : Nat) (chunk : Bytes)
  | hangup (c : Nat)
  | send (c : Nat)
  | free (c : Nat)
  | recv
  | sinkWrite (count : Nat)
  | sinkFail

def Daemon.setTask (s : Daemon) (c : Nat) (t : Task) : Daemon := { s with task := Function.update s.task c t }

/-- A send completes when the channel has room, or fails once the receiver is gone.
`sent` and `failed` are where the task goes on in the two cases. -/
def Daemon.send (s : Daemon) (c : Nat) (f : Frame) (sent failed : Task) : Option Daemon :=
  if s.receiving then
    if s.channel.length - s.received < channelCapacity then
      some { s.setTask c sent with channel := s.channel ++ [(c, f)] }
    else none
  else some (s.setTask c failed)

def step (s : Daemon) : Action → Option Daemon
  | .enroll c nameBuf =>
    match s.task c with
    | .enrolling =>
      if 0 < nameBuf.length ∧ nameBuf.length ≤ 255 then some (s.setTask c (.named (fromUtf8Lossy nameBuf)))
      else none
    | _ => none
  | .abandon c =>
    match s.task c with
    | .enrolling => some (s.setTask c .finished)
    | _ => none
  | .alloc c =>
    match s.task c with
    | .named name =>
      match s.pool.alloc with
      | none => none
      | some (id, pool) => some { s.setTask c (.allocated name id) with pool := pool }
    | _ => none
  | .reply c ok =>
    match s.task c with
    | .allocated name id => some (s.setTask c (if ok then .accepted name id else .refused id))
    | _ => none
  | .read c chunk =>
    match s.task c with
    | .reading name id =>
      if 0 < chunk.length ∧ chunk.length ≤ maxRead then
        some { s.setTask c (.sending name id chunk) with
          bytesRead := Function.update s.bytesRead c (s.bytesRead c ++ chunk) }
      else none
    | _ => none
  | .hangup c =>
    match s.task c with
    | .reading name id => some (s.setTask c (.closing name id))
    | _ => none
  | .send c =>
    match s.task c with
    | .accepted name id => s.send c (.connected id name) (.reading name id) (.reading name id)
    | .sending name id chunk => s.send c (.data id chunk) (.reading name id) (.closing name id)
    | .closing name id => s.send c (.disconnected id name) (.releasing id) (.releasing id)
    | _ => none
  | .free c =>
    match s.task c with
    | .refused id => some { s.setTask c .finished with pool := s.pool.free id }
    | .releasing id => some { s.setTask c .finished with pool := s.pool.free id }
    | _ => none
  | .recv =>
    if s.receiving ∧ s.unwritten = [] then
      match s.channel[s.received]? with
      | none => none
      | some (_, f) => some { s with received := s.received + 1, unwritten := f.encode }
    else none
  -- one `write` inside `write_all`, which accepts any positive number of bytes
  | .sinkWrite count =>
    if s.receiving ∧ 0 < count ∧ count ≤ s.unwritten.length then
      some { s with sink := s.sink ++ s.unwritten.take count, unwritten := s.unwritten.drop count }
    else none
  | .sinkFail =>
    if s.receiving ∧ s.unwritten ≠ [] then some { s with receiving := false } else none

abbrev RunsTo (ok : Daemon → Action → Prop) (as : List Action) (s : Daemon) : Prop :=
  Machine.Runs step ok Daemon.start as s

def anyStep : Daemon → Action → Prop := fun _ _ => True

/-! ### Inversion of the step function -/

/-- The frame a task is about to send, and where it goes on when the send succeeds or fails. -/
inductive Sends : Task → Frame → Task → Task → Prop
  | connected (name : Bytes) (id : Byte) :
      Sends (.accepted name id) (.connected id name) (.reading name id) (.reading name id)
  | data (name : Bytes) (id : Byte) (chunk : Bytes) :
      Sends (.sending name id chunk) (.data id chunk) (.reading name id) (.closing name id)
  | disconnected (name : Bytes) (id : Byte) :
      Sends (.closing name id) (.disconnected id name) (.releasing id) (.releasing id)

inductive Stepped (s : Daemon) : Action → Daemon → Prop
  | enroll {c : Nat} {nameBuf : Bytes} (ht : s.task c = .enrolling)
      (hlen : 0 < nameBuf.length ∧ nameBuf.length ≤ 255) :
      Stepped s (.enroll c nameBuf) (s.setTask c (.named (fromUtf8Lossy nameBuf)))
  | abandon {c : Nat} (ht : s.task c = .enrolling) : Stepped s (.abandon c) (s.setTask c .finished)
  | alloc {c : Nat} {name : Bytes} {id : Byte} {pool : IdPool} (ht : s.task c = .named name)
      (hp : s.pool.alloc = some (id, pool)) :
      Stepped s (.alloc c) { s.setTask c (.allocated name id) with pool := pool }
  | accept {c : Nat} {name : Bytes} {id : Byte} (ht : s.task c = .allocated name id) :
      Stepped s (.reply c true) (s.setTask c (.accepted name id))
  | refuse {c : Nat} {name : Bytes} {id : Byte} (ht : s.task c = .allocated name id) :
      Stepped s (.reply c false) (s.setTask c (.refused id))
  | read {c : Nat} {name : Bytes} {id : Byte} {chunk : Bytes} (ht : s.task c = .reading name id)
      (hlen : 0 < chunk.length ∧ chunk.length ≤ maxRead) :
      Stepped s (.read c chunk) { s.setTask c (.sending name id chunk) with
        bytesRead := Function.update s.bytesRead c (s.bytesRead c ++ chunk) }
  | hangup {c : Nat} {name : Bytes} {id : Byte} (ht : s.task c = .reading name id) :
      Stepped s (.hangup c) (s.setTask c (.closing name id))
  | sent {c : Nat} {f : Frame} {t next failed : Task} (ht : s.task c = t) (hf : Sends t f next failed)
      (hopen : s.receiving = true) (hroom : s.channel.length - s.received < channelCapacity) :
      Stepped s (.send c) { s.setTask c next with channel := s.channel ++ [(c, f)] }
  | unsent {c : Nat} {f : Frame} {t next failed : Task} (ht : s.task c = t) (hf : Sends t f next failed)
      (hclosed : s.receiving = false) : Stepped s (.send c) (s.setTask c failed)
  | free {c : Nat} {id : Byte} (ht : s.task c = .refused id ∨ s.task c = .releasing id) :
      Stepped s (.free c) { s.setTask c .finished with pool := s.pool.free id }
  | recv {sender : Nat} {f : Frame} (hopen : s.receiving = true) (hidle : s.unwritten = [])
      (hf : s.channel[s.received]? = some (sender, f)) :
      Stepped s .recv { s with received := s.received + 1, unwritten := f.encode }
  | sinkWrite {count : Nat} (hopen : s.receiving = true) (hcount : 0 < count ∧ count ≤ s.unwritten.length) :
      Stepped s (.sinkWrite count)
        { s with sink := s.sink ++ s.unwritten.take count, unwritten := s.unwritten.drop count }
  | sinkFail (hopen : s.receiving = true) (hbusy : s.unwritten ≠ []) :
      Stepped s .sinkFail { s with receiving := false }

theorem Sends.step {s s' : Daemon} {c : Nat} {f : Frame} {t next failed : Task} (ht : s.task c = t)
    (hf : Sends t f next failed) (h : s.send c f next failed = some s') : Stepped s (.send c) s' := by
  unfold Daemon.send at h
  cases hr : s.receiving with
  | true =>
    rw [if_pos hr] at h
    split at h
    · rename_i hroom
      cases h
      exact .sent ht hf hr hroom
    · cases h
  | false =>
    rw [if_neg (by simp [hr])] at h
    cases h
    exact .unsent ht hf hr

theorem step_cases {s s' : Daemon} {a : Action} (h : step s a = some s') : Stepped s a s' := by
  cases a with
  | enroll c nameBuf =>
    cases ht : s.task c <;> simp only [step, ht] at h <;> try cases h
    split at h
    · rename_i hlen
      cases h
      exact .enroll ht hlen
    · cases h
  | abandon c =>
    cases ht : s.task c <;> simp only [step, ht] at h <;> cases h
    exact .abandon ht
  | alloc c =>
    cases ht : s.task c <;> simp only [step, ht] at h <;> try cases h
    cases hp : s.pool.alloc with
    | none => simp [hp] at h
    | some r =>
      obtain ⟨id, pool⟩ := r
      simp only [hp] at h
      cases h
      exact .alloc ht hp
  | reply c ok =>
    cases ht : s.task c <;> simp only [step, ht] at h <;> cases h
    cases ok with
    | true => exact .accept ht
    | false => exact .refuse ht
  | read c chunk =>
    cases ht : s.task c <;> simp only [step, ht] at h <;> try cases h
    split at h
    · rename_i hlen
      cases h
      exact .read ht hlen
    · cases h
  | hangup c =>
    cases ht : s.task c <;> simp only [step, ht] at h <;> cases h
    exact .hangup ht
  | send c =>
    cases ht : s.task c <;> simp only [step, ht] at h <;> try cases h
    · exact (Sends.connected _ _).step ht h
    · exact (Sends.data _ _ _).step ht h
    · exact (Sends.disconnected _ _).step ht h
  | free c =>
    cases ht : s.task c <;> simp only [step, ht] at h <;> cases h
    · exact .free (.inl ht)
    · exact .free (.inr ht)
  | recv =>
    simp only [step] at h
    split at h
    · rename_i hc
      cases hf : s.channel[s.received]? with
      | none => simp [hf] at h
      | some p =>
        simp only [hf] at h
        cases h
        exact .recv hc.1 hc.2 hf
    · cases h
  | sinkWrite count =>
    simp only [step] at h
    split at h
    · rename_i hc
      cases h
      exact .sinkWrite hc.1 hc.2
    · cases h
  | sinkFail =>
    simp only [step] at h
    split at h
    · rename_i hc
      cases h
      exact .sinkFail hc.1 hc.2
    · cases h

end VirtiosoMux.Muxd
