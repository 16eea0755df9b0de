import VirtiosoMux.Library.Runs
import VirtiosoMux.Protocol.Codes

/-! # `virtioso-mux-exec` as a transition system

Behind its enrollment the client has a forwarder task for each pipe of the child, one bounded
channel, and `drain_with_child_exit`, which writes what it takes from the channel to the socket
of the daemon. A step is what one task does between two awaits.
-/
namespace VirtiosoMux.Exec

inductive Source
  | stdout
  | stderr
deriving DecidableEq

/-- Where a forwarder stands: before its next read, before the send of a chunk, behind its loop. -/
inductive Forwarder
  | reading
  | sending (chunk : Bytes)
  | finished
deriving DecidableEq

/-- The result of `child.wait()`. A child ended by a signal has no code. -/
inductive Exited
  | failed
  | status (code : Option Int)
deriving DecidableEq

def Exited.code : Exited → Int
  | .failed => 1
  | .status code => code.getD 1

/-- Where `drain_with_child_exit` stands: in its `select!`, in the `write_all` behind it, in the
`await` of the exit status behind the end of the channel, in the loop behind the exit of the child
and in its `write_all`, and behind its return. -/
inductive Drain
  | selecting
  | writing (rest : Bytes)
  | collecting
  | draining (code : Int)
  | flushing (code : Int) (rest : Bytes)
  | returned (code : Int)

def bufSize : Nat := 4096
def channelCapacity : Nat := 64

/-- `channel` keeps every chunk ever sent with its pipe; the first `received` of them have been
taken. `bytesRead` is what a forwarder has read, and `broken` tells that a write has failed. -/
structure Client where
  forwarder : Source → Forwarder
  bytesRead : Source → Bytes
  channel : List (Source × Bytes)
  received : Nat
  exit : Option Exited
  drain : Drain
  conn : Bytes
  broken : Bool

def Client.start : Client where
  forwarder _ := .reading
  bytesRead _ := []
  channel := []
  received := 0
  exit := none
  drain := .selecting
  conn := []
  broken := false

/-! ### Steps -/

inductive Action
  | read (p : Source) (chunk : Bytes)
  | eof (p : Source)
  | send (p : Source)
  | childExit (e : Exited)
  | recv
  | closed
  | write (count : Nat)
  | writeFail
  | collect
  | exited
  | timeout
deriving DecidableEq

def Client.setForwarder (s : Client) (p : Source) (f : Forwarder) : Client :=
  { s with forwarder := Function.update s.forwarder p f }

theorem setForwarder_forwarder (s : Client) (p q : Source) (f : Forwarder) :
    (s.setForwarder p f).forwarder q = if q = p then f else s.forwarder q := by
  simp [Client.setForwarder, Function.update_apply]

def Client.Ended (s : Client) : Prop := ∀ p, s.forwarder p = .finished

instance (s : Client) : Decidable s.Ended :=
  decidable_of_iff (s.forwarder .stdout = .finished ∧ s.forwarder .stderr = .finished)
    ⟨fun h p => Source.casesOn p h.1 h.2, fun h => ⟨h .stdout, h .stderr⟩⟩

def wrote (rest : Bytes) (count : Nat) (more : Bytes → Drain) (done : Drain) : Drain :=
  if (rest.drop count).isEmpty then done else more (rest.drop count)

def advance (s : Client) : Action → Option Client
  | .read p chunk =>
    match s.forwarder p with
    | .reading =>
      if 0 < chunk.length ∧ chunk.length ≤ bufSize then
        some { s.setForwarder p (.sending chunk) with
          bytesRead := Function.update s.bytesRead p (s.bytesRead p ++ chunk) }
      else none
    | _ => none
  | .eof p =>
    match s.forwarder p with
    | .reading => some (s.setForwarder p .finished)
    | _ => none
  | .send p =>
    match s.forwarder p with
    | .sending chunk =>
      if s.channel.length - s.received < channelCapacity then
        some { s.setForwarder p .reading with channel := s.channel ++ [(p, chunk)] }
      else none
    | _ => none
  | .childExit e => if s.exit = none then some { s with exit := some e } else none
  -- the channel is polled before the exit status, here and in the loop behind the exit
  | .recv =>
    match s.channel[s.received]?, s.drain with
    | some (_, chunk), .selecting => some { s with received := s.received + 1, drain := .writing chunk }
    | some (_, chunk), .draining code => some { s with received := s.received + 1, drain := .flushing code chunk }
    | _, _ => none
  | .closed =>
    match s.drain with
    | .selecting => if s.Ended ∧ s.received = s.channel.length then some { s with drain := .collecting } else none
    | .draining code =>
      if s.Ended ∧ s.received = s.channel.length then some { s with drain := .returned code } else none
    | _ => none
  | .write count =>
    match s.drain with
    | .writing rest =>
      if 0 < count ∧ count ≤ rest.length then
        some { s with conn := s.conn ++ rest.take count, drain := wrote rest count .writing .selecting }
      else none
    | .flushing code rest =>
      if 0 < count ∧ count ≤ rest.length then
        some { s with conn := s.conn ++ rest.take count, drain := wrote rest count (.flushing code) (.draining code) }
      else none
    | _ => none
  | .writeFail =>
    match s.drain with
    | .writing _ => some { s with drain := .returned 1, broken := true }
    | .flushing code _ => some { s with drain := .draining code, broken := true }
    | _ => none
  | .collect =>
    match s.drain, s.exit with
    | .collecting, some e => some { s with drain := .returned e.code }
    | _, _ => none
  | .exited =>
    match s.drain, s.exit with
    | .selecting, some e =>
      if s.received = s.channel.length ∧ ¬ s.Ended then some { s with drain := .draining e.code } else none
    | _, _ => none
  | .timeout =>
    match s.drain with
    | .draining code => if s.received = s.channel.length then some { s with drain := .returned code } else none
    | _ => none

/-- The process ends with the return of `drain_with_child_exit`. -/
def step (s : Client) (a : Action) : Option Client :=
  match s.drain with
  | .returned _ => none
  | _ => advance s a

abbrev RunsTo (as : List Action) (s : Client) : Prop := Machine.Runs step (fun _ _ => True) Client.start as s

/-! ### Inversion of the step function -/

/-- What the two places that take a chunk from the channel have in common: where it is written,
and where the loop goes on behind it. -/
inductive Takes : Drain → (Bytes → Drain) → Prop
  | selecting : Takes .selecting .writing
  | draining (code : Int) : Takes (.draining code) (.flushing code)

inductive Stepped (s : Client) : Action → Client → Prop
  | read {p : Source} {chunk : Bytes} (hf : s.forwarder p = .reading) (hlen : 0 < chunk.length ∧ chunk.length ≤ bufSize) :
      Stepped s (.read p chunk) { s.setForwarder p (.sending chunk) with
        bytesRead := Function.update s.bytesRead p (s.bytesRead p ++ chunk) }
  | eof {p : Source} (hf : s.forwarder p = .reading) : Stepped s (.eof p) (s.setForwarder p .finished)
  | send {p : Source} {chunk : Bytes} (hf : s.forwarder p = .sending chunk)
      (hroom : s.channel.length - s.received < channelCapacity) :
      Stepped s (.send p) { s.setForwarder p .reading with channel := s.channel ++ [(p, chunk)] }
  | childExit {e : Exited} (hexit : s.exit = none) : Stepped s (.childExit e) { s with exit := some e }
  | recv {p : Source} {chunk : Bytes} {more : Bytes → Drain} (hd : Takes s.drain more)
      (hget : s.channel[s.received]? = some (p, chunk)) :
      Stepped s .recv { s with received := s.received + 1, drain := more chunk }
  | collecting (hd : s.drain = .selecting) (hend : s.Ended) (hall : s.received = s.channel.length) :
      Stepped s .closed { s with drain := .collecting }
  | closed {code : Int} (hd : s.drain = .draining code) (hend : s.Ended) (hall : s.received = s.channel.length) :
      Stepped s .closed { s with drain := .returned code }
  | write {more : Bytes → Drain} {done : Drain} {rest : Bytes} {count : Nat} (hm : Takes done more)
      (hd : s.drain = more rest) (hcount : 0 < count ∧ count ≤ rest.length) :
      Stepped s (.write count) { s with conn := s.conn ++ rest.take count, drain := wrote rest count more done }
  | fail {rest : Bytes} (hd : s.drain = .writing rest) :
      Stepped s .writeFail { s with drain := .returned 1, broken := true }
  | ignore {code : Int} {rest : Bytes} (hd : s.drain = .flushing code rest) :
      Stepped s .writeFail { s with drain := .draining code, broken := true }
  | collect {e : Exited} (hd : s.drain = .collecting) (hexit : s.exit = some e) :
      Stepped s .collect { s with drain := .returned e.code }
  | exited {e : Exited} (hd : s.drain = .selecting) (hexit : s.exit = some e) (hall : s.received = s.channel.length)
      (hend : ¬ s.Ended) : Stepped s .exited { s with drain := .draining e.code }
  | timeout {code : Int} (hd : s.drain = .draining code) (hall : s.received = s.channel.length) :
      Stepped s .timeout { s with drain := .returned code }

theorem advance_cases {s s' : Client} {a : Action} (h : advance s a = some s') : Stepped s a s' := by
  cases a with
  | read p chunk =>
    cases hf : s.forwarder p <;> simp only [advance, hf] at h <;> try cases h
    split at h
    · rename_i hlen
      cases h
      exact .read hf hlen
    · cases h
  | eof p =>
    cases hf : s.forwarder p <;> simp only [advance, hf] at h <;> cases h
    exact .eof hf
  | send p =>
    cases hf : s.forwarder p <;> simp only [advance, hf] at h <;> try cases h
    split at h
    · rename_i hroom
      cases h
      exact .send hf hroom
    · cases h
  | childExit e =>
    simp only [advance] at h
    split at h
    · rename_i hexit
      cases h
      exact .childExit hexit
    · cases h
  | recv =>
    cases hget : s.channel[s.received]? with
    | none => simp [advance, hget] at h
    | some q =>
      obtain ⟨p, chunk⟩ := q
      cases hd : s.drain <;> simp only [advance, hget, hd] at h <;> cases h
      · exact .recv (hd ▸ .selecting) hget
      · exact .recv (hd ▸ .draining _) hget
  | closed =>
    cases hd : s.drain <;> simp only [advance, hd] at h <;> try cases h
    all_goals
      split at h
      · rename_i hc
        cases h
        first
          | exact .collecting hd hc.1 hc.2
          | exact .closed hd hc.1 hc.2
      · cases h
  | write count =>
    cases hd : s.drain <;> simp only [advance, hd] at h <;> try cases h
    all_goals
      split at h
      · rename_i hc
        cases h
        first
          | exact .write .selecting hd hc
          | exact .write (.draining _) hd hc
      · cases h
  | writeFail =>
    cases hd : s.drain <;> simp only [advance, hd] at h <;> cases h
    · exact .fail hd
    · exact .ignore hd
  | collect =>
    simp only [advance] at h
    split at h
    · rename_i hd hexit
      cases h
      exact .collect hd hexit
    · cases h
  | exited =>
    simp only [advance] at h
    split at h
    · rename_i hd hexit
      split at h
      · rename_i hc
        cases h
        exact .exited hd hexit hc.1 hc.2
      · cases h
    · cases h
  | timeout =>
    cases hd : s.drain <;> simp only [advance, hd] at h <;> try cases h
    split at h
    · rename_i hall
      cases h
      exact .timeout hd hall
    · cases h

theorem step_cases {s s' : Client} {a : Action} (h : step s a = some s') :
    (∀ code, s.drain ≠ .returned code) ∧ Stepped s a s' := by
  unfold step at h
  split at h
  · cases h
  · rename_i hrun
    exact ⟨hrun, advance_cases h⟩

end VirtiosoMux.Exec
