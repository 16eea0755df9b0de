import VirtiosoMux.Router.Stdio

/-! # The log of a command behind the router

The events of the log are numbered without a gap. Those of the direction `rx` hold what has been
read of the command's output, those of the direction `tx` what has been read from the PTY and the
standard input, and of each event a prefix has been passed on.
-/
namespace VirtiosoMux.Stdio
open Json Channels Machine

def payloads (dir : Direction) (events : List Event) : List Bytes :=
  (events.filter (fun e => e.dir = dir)).map Event.payload

theorem payloads_snoc (dir : Direction) (events : List Event) (e : Event) :
    payloads dir (events ++ [e]) = payloads dir events ++ (if e.dir = dir then [e.payload] else []) := by
  rw [payloads, List.filter_append, List.map_append]
  by_cases h : e.dir = dir
  · simp [payloads, h]
  · simp [payloads, h]

def Cut (out : Bytes) (pieces : List Bytes) : Prop := ∃ parts, List.Forall₂ (· <+: ·) parts pieces ∧ out = parts.flatten

theorem cut_nil : Cut [] [] := ⟨[], .nil, rfl⟩

theorem Cut.snoc {out part piece : Bytes} {pieces : List Bytes} (h : Cut out pieces) (hpart : part <+: piece) :
    Cut (out ++ part) (pieces ++ [piece]) := by
  obtain ⟨parts, hparts, rfl⟩ := h
  refine ⟨parts ++ [part], List.rel_append hparts (.cons hpart .nil), ?_⟩
  rw [List.flatten_append, List.flatten_singleton]

theorem prefix_taken (w : Written) (data : Bytes) : w.taken data <+: data := by
  cases w with
  | all => exact List.prefix_refl _
  | part n => exact List.take_prefix _ _
  | error => exact List.nil_prefix

/-! ### One piece -/

section Router
variable {channel : Channel}

theorem emitEvent_ok {s t : State} {dir : Direction} {data : Bytes} {io : EmitIo}
    (h : emitEvent channel s dir data io = (t, true)) :
    ∃ e : Event, e.source = channel.name ∧ e.dir = dir ∧ e.seq = s.seq + 1 ∧ e.payload = data ∧
      t = { s with seq := s.seq + 1, eventsLog := s.eventsLog ++ e.line } := by
  unfold emitEvent at h
  dsimp only at h
  split at h
  · cases h
    exact ⟨_, rfl, rfl, rfl, rfl, rfl⟩
  · cases h

/-- What a piece of the command's output leaves if nothing raises. -/
theorem deliver_ok {s t : State} {data : Bytes} {io : ChunkIo} (h : deliver channel s data io = (t, true)) :
    ∃ e : Event, e.source = channel.name ∧ e.dir = .rx ∧ e.seq = s.seq + 1 ∧ e.payload = data ∧
      t = { s with
        seq := s.seq + 1
        eventsLog := s.eventsLog ++ e.line
        stdout := s.stdout ++ io.stdout.taken data
        rawLog := s.rawLog ++ io.raw.taken data
        ptyOut := if channel.pty then s.ptyOut ++ io.pty.taken data else s.ptyOut } := by
  unfold deliver at h
  split at h
  · cases h
  dsimp only at h
  split at h
  · cases h
  generalize hemit : emitEvent channel _ Direction.rx data io.emit = res at h
  obtain ⟨u, ok⟩ := res
  cases ok with
  | false => cases h
  | true =>
    obtain ⟨e, hsource, hdir, hseq, hpayload, rfl⟩ := emitEvent_ok hemit
    cases h
    refine ⟨e, hsource, hdir, hseq, hpayload, ?_⟩
    unfold forwardToPty
    split <;> rfl

/-! ### The invariant -/

def Phase.pending : Phase → List Bytes
  | .draining chunks _ => chunks
  | _ => []

def Phase.code : Phase → Option Int
  | .draining _ code => some code
  | .returned code => some code
  | _ => none

def inputsOf (as : List Action) : List Bytes :=
  as.filterMap fun a =>
    match a with
    | .input _ (.bytes data) _ _ => if data = [] then none else some data
    | _ => none

theorem inputsOf_snoc (as : List Action) (a : Action) : inputsOf (as ++ [a]) = inputsOf as ++ inputsOf [a] :=
  List.filterMap_append

/-- No write takes a part only or fails, and behind the loop no read fails. -/
def Action.Reliable : Action → Prop
  | .procOut _ io => io.stdout = .all ∧ io.raw = .all ∧ io.pty = .all
  | .input _ _ _ w => w = .all
  | .drain r io => r ≠ .eio ∧ r ≠ .error ∧ io.stdout = .all ∧ io.raw = .all ∧ io.pty = .all
  | _ => True

variable (channel)

structure Logged (as : List Action) (s : State) (events : List Event) : Prop where
  file : s.eventsLog = events.flatMap Event.line
  source : ∀ e ∈ events, e.source = channel.name
  seq : events.map Event.seq = List.range' 1 s.seq
  rx : s.written = (payloads .rx events).flatten ++ s.phase.pending.flatten ++ s.pipe
  tx : payloads .tx events = inputsOf as
  stdout : Cut s.stdout (payloads .rx events)
  raw : Cut s.rawLog (payloads .rx events)
  ptyOut : Cut s.ptyOut (if channel.pty then payloads .rx events else [])
  input : Cut s.input (payloads .tx events)
  exited : s.exited = none → s.phase.code = none
  code : ∀ code, s.phase.code = some code → s.exited = some code
  before : s.exited ≠ none → s.writtenAtExit <+: s.written

structure Exact (s : State) (events : List Event) : Prop where
  stdout : s.stdout = (payloads .rx events).flatten
  raw : s.rawLog = (payloads .rx events).flatten
  ptyOut : s.ptyOut = if channel.pty then (payloads .rx events).flatten else []
  input : s.input = (payloads .tx events).flatten
  returned : ∀ code, s.phase = .returned code → s.writtenAtExit <+: (payloads .rx events).flatten

variable {channel}

/-! ### One step -/

theorem readPipe_cases (s : State) (r : PipeRead) :
    (∃ data rest, data ≠ [] ∧ s.pipe = data ++ rest ∧ s.readPipe r = (.data data, { s with pipe := rest })) ∨
    (s.pipe = [] ∧ (s.readPipe r = (.data [], s) ∨ s.readPipe r = (.again, s))) ∨
    (r = .eio ∧ s.readPipe r = (.eio, s)) ∨ (r = .error ∧ s.readPipe r = (.error, s)) := by
  cases r with
  | bytes n =>
    by_cases hpipe : s.pipe = []
    · refine .inr (.inl ⟨hpipe, ?_⟩)
      simp only [State.readPipe, if_pos hpipe]
      cases s.held
      · exact .inl rfl
      · exact .inr rfl
    · refine .inl ⟨s.pipe.take (min (n + 1) 4096), s.pipe.drop (min (n + 1) 4096), ?_, ?_, ?_⟩
      · have hpos := List.length_pos_iff.mpr hpipe
        rw [Ne, ← List.length_eq_zero_iff, List.length_take]
        omega
      · exact (List.take_append_drop _ _).symm
      · simp only [State.readPipe, if_neg hpipe]
  | eio => exact .inr (.inr (.inl ⟨rfl, rfl⟩))
  | error => exact .inr (.inr (.inr ⟨rfl, rfl⟩))

def Kept (channel : Channel) (as : List Action) (s : State) (events : List Event) (a : Action) (t : State) : Prop :=
  ∃ events', Logged channel (as ++ [a]) t events' ∧ (Exact channel s events → a.Reliable → Exact channel t events')

section Step
variable {as : List Action} {s t : State} {events : List Event} {a : Action}

theorem seq_snoc {events : List Event} {n : Nat} (h : events.map Event.seq = List.range' 1 n) {e : Event} (he : e.seq = n + 1) :
    (events ++ [e]).map Event.seq = List.range' 1 (n + 1) := by
  rw [List.map_append, h, List.map_singleton, he, List.range'_1_concat, Nat.add_comm 1 n]

theorem payloads_rx {e : Event} (hdir : e.dir = .rx) : payloads .rx (events ++ [e]) = payloads .rx events ++ [e.payload] ∧
    payloads .tx (events ++ [e]) = payloads .tx events := by
  rw [payloads_snoc, payloads_snoc, if_pos hdir, if_neg (by rw [hdir]; decide), List.append_nil]
  exact ⟨rfl, rfl⟩

theorem payloads_tx {e : Event} (hdir : e.dir = .tx) : payloads .tx (events ++ [e]) = payloads .tx events ++ [e.payload] ∧
    payloads .rx (events ++ [e]) = payloads .rx events := by
  rw [payloads_snoc, payloads_snoc, if_pos hdir, if_neg (by rw [hdir]; decide), List.append_nil]
  exact ⟨rfl, rfl⟩

structure Next (channel : Channel) (s : State) (e : Event) : Prop where
  source : e.source = channel.name
  seq : e.seq = s.seq + 1

theorem Logged.source_snoc (h : Logged channel as s events) {e : Event} (he : Next channel s e) :
    ∀ x ∈ events ++ [e], x.source = channel.name := by
  intro x hx
  rcases List.mem_append.mp hx with hx | hx
  · exact h.source x hx
  · rw [List.mem_singleton.mp hx, he.source]

theorem Logged.file_snoc (h : Logged channel as s events) (e : Event) :
    s.eventsLog ++ e.line = (events ++ [e]).flatMap Event.line := by
  rw [List.flatMap_append, List.flatMap_singleton, h.file]

def delivered (channel : Channel) (s : State) (e : Event) (io : ChunkIo) (rest : Bytes) (phase : Phase) : State :=
  { s with
    seq := s.seq + 1
    eventsLog := s.eventsLog ++ e.line
    stdout := s.stdout ++ io.stdout.taken e.payload
    rawLog := s.rawLog ++ io.raw.taken e.payload
    ptyOut := if channel.pty then s.ptyOut ++ io.pty.taken e.payload else s.ptyOut
    pipe := rest
    phase := phase }

/-- A delivered piece is one more event, and a prefix of it is one more part of each output. -/
theorem Logged.delivered (h : Logged channel as s events) (ha : inputsOf [a] = []) {e : Event} (he : Next channel s e)
    (hdir : e.dir = .rx) (io : ChunkIo) {rest : Bytes} {phase : Phase}
    (hrest : s.phase.pending.flatten ++ s.pipe = e.payload ++ phase.pending.flatten ++ rest)
    (hcode : phase.code = s.phase.code) : Logged channel (as ++ [a]) (delivered channel s e io rest phase) (events ++ [e]) := by
  obtain ⟨hrx, htx⟩ := @payloads_rx events e hdir
  exact
    { file := h.file_snoc e
      source := h.source_snoc he
      seq := seq_snoc h.seq he.seq
      rx := by
        change s.written = _ ++ phase.pending.flatten ++ rest
        rw [hrx, List.flatten_append, List.flatten_singleton, h.rx, List.append_assoc, hrest]
        simp only [List.append_assoc]
      tx := by rw [htx, inputsOf_snoc, ha, List.append_nil, h.tx]
      stdout := by
        rw [hrx]
        exact h.stdout.snoc (prefix_taken _ _)
      raw := by
        rw [hrx]
        exact h.raw.snoc (prefix_taken _ _)
      ptyOut := by
        have hpty := h.ptyOut
        rw [hrx]
        change Cut (if channel.pty then s.ptyOut ++ io.pty.taken e.payload else s.ptyOut) _
        split
        · rename_i hon
          rw [if_pos hon] at hpty
          exact hpty.snoc (prefix_taken _ _)
        · rename_i hoff
          rw [if_neg hoff] at hpty
          exact hpty
      input := by
        rw [htx]
        exact h.input
      exited := fun hnone => hcode.trans (h.exited hnone)
      code := fun code hc => h.code code (hcode.symm.trans hc)
      before := h.before }

theorem Exact.delivered (h : Exact channel s events) {e : Event} (hdir : e.dir = .rx) {io : ChunkIo}
    (hio : io.stdout = .all ∧ io.raw = .all ∧ io.pty = .all) {rest : Bytes} {phase : Phase}
    (hreturned : ∀ code, phase = .returned code → s.writtenAtExit <+: (payloads .rx events).flatten ++ e.payload) :
    Exact channel (delivered channel s e io rest phase) (events ++ [e]) := by
  obtain ⟨hrx, htx⟩ := @payloads_rx events e hdir
  obtain ⟨hstdout, hraw, hpty⟩ := hio
  have hflat : (payloads .rx (events ++ [e])).flatten = (payloads .rx events).flatten ++ e.payload := by
    rw [hrx, List.flatten_append, List.flatten_singleton]
  exact
    { stdout := by
        rw [hflat, ← h.stdout]
        simp only [Stdio.delivered, hstdout, Written.taken]
      raw := by
        rw [hflat, ← h.raw]
        simp only [Stdio.delivered, hraw, Written.taken]
      ptyOut := by
        have hon := h.ptyOut
        rw [hflat]
        simp only [Stdio.delivered, hpty, Written.taken]
        split
        · rename_i hp
          rw [if_pos hp] at hon
          rw [hon]
        · rename_i hp
          rw [if_neg hp] at hon
          exact hon
      input := by
        rw [htx]
        exact h.input
      returned := by
        intro code hc
        rw [hflat]
        exact hreturned code hc }

theorem Logged.more_actions (h : Logged channel as s events) (ha : inputsOf [a] = []) : Logged channel (as ++ [a]) s events :=
  { h with tx := by rw [inputsOf_snoc, ha, List.append_nil, h.tx] }

theorem Logged.unregister (h : Logged channel as s events) (ha : inputsOf [a] = []) (source : Source) :
    Kept channel as s events a (s.unregister source) :=
  ⟨events, { h.more_actions ha with }, fun hexact _ => { hexact with }⟩

theorem Logged.write (h : Logged channel as s events) (data : Bytes) :
    Kept channel as s events (.write data) { s with written := s.written ++ data, pipe := s.pipe ++ data } := by
  refine ⟨events, { h.more_actions rfl with rx := ?_, before := ?_ }, fun hexact _ => { hexact with }⟩
  · rw [h.rx, List.append_assoc]
  · exact fun hexited => (h.before hexited).trans (List.prefix_append _ _)

theorem Logged.exit (h : Logged channel as s events) (hexited : s.exited = none) (code : Int) :
    Kept channel as s events (.exit code) { s with exited := some code, writtenAtExit := s.written } := by
  have hphase := h.exited hexited
  refine ⟨events, { h.more_actions rfl with exited := nofun, code := ?_, before := fun _ => List.prefix_refl _ }, ?_⟩
  · intro code' hcode
    rw [hphase] at hcode
    cases hcode
  · intro hexact _
    refine { hexact with returned := ?_ }
    intro code' hreturned
    dsimp only at hreturned
    rw [hreturned] at hphase
    cases hphase

theorem Logged.procOut {r : PipeRead} {io : ChunkIo} (h : Logged channel as s events) (hlooping : s.phase = .looping)
    (hok : (procOut channel s r io).phase ≠ .raised) : Kept channel as s events (.procOut r io) (procOut channel s r io) := by
  unfold Stdio.procOut at hok ⊢
  rcases readPipe_cases s r with ⟨data, rest, hdata, hpipe, hread⟩ | ⟨-, hread | hread⟩ | ⟨-, hread⟩ | ⟨-, hread⟩
  · rw [hread] at hok ⊢
    simp only [if_neg hdata] at hok ⊢
    generalize hdeliver : deliver channel _ data io = res at hok ⊢
    obtain ⟨u, ok⟩ := res
    cases ok with
    | false => exact absurd rfl hok
    | true =>
      obtain ⟨e, hsource, hdir, hseq, rfl, rfl⟩ := deliver_ok hdeliver
      have hrest : s.phase.pending.flatten ++ s.pipe = e.payload ++ s.phase.pending.flatten ++ rest := by
        rw [hlooping, hpipe]
        simp [Phase.pending]
      refine ⟨events ++ [e], h.delivered rfl ⟨hsource, hseq⟩ hdir io hrest rfl, fun hexact hio => hexact.delivered hdir hio ?_⟩
      intro code hcode
      rw [hlooping] at hcode
      cases hcode
  · rw [hread]
    exact h.unregister rfl .procOut
  · rw [hread] at hok
    exact absurd rfl hok
  · rw [hread]
    exact h.unregister rfl .procOut
  · rw [hread] at hok
    exact absurd rfl hok

theorem Logged.inputReady {source : Source} {r : InputRead} {emit : EmitIo} {w : Written} (h : Logged channel as s events)
    (hok : (inputReady channel s source r emit w).phase ≠ .raised) :
    Kept channel as s events (.input source r emit w) (inputReady channel s source r emit w) := by
  unfold Stdio.inputReady at hok ⊢
  cases r with
  | gone => exact h.unregister rfl source
  | error => exact absurd rfl hok
  | bytes data =>
    dsimp only at hok ⊢
    by_cases hdata : data = []
    · rw [if_pos hdata]
      exact h.unregister (by simp [inputsOf, hdata]) source
    rw [if_neg hdata] at hok ⊢
    generalize hemit : emitEvent channel s .tx data emit = res at hok ⊢
    obtain ⟨u, ok⟩ := res
    cases ok with
    | false => exact absurd rfl hok
    | true =>
      obtain ⟨e, hsource, hdir, hseq, rfl, rfl⟩ := emitEvent_ok hemit
      obtain ⟨htx, hrx⟩ := @payloads_tx events e hdir
      have hone : inputsOf [.input source (.bytes e.payload) emit w] = [e.payload] := by simp [inputsOf, hdata]
      refine ⟨events ++ [e], ?_, ?_⟩
      · exact
          { file := h.file_snoc e
            source := h.source_snoc ⟨hsource, hseq⟩
            seq := seq_snoc h.seq hseq
            rx := by
              rw [hrx]
              exact h.rx
            tx := by rw [htx, inputsOf_snoc, hone, h.tx]
            stdout := by
              rw [hrx]
              exact h.stdout
            raw := by
              rw [hrx]
              exact h.raw
            ptyOut := by
              rw [hrx]
              exact h.ptyOut
            input := by
              rw [htx]
              exact h.input.snoc (prefix_taken _ _)
            exited := h.exited
            code := h.code
            before := h.before }
      · intro hexact hw
        have hall : w = .all := hw
        exact
          { stdout := by
              rw [hrx]
              exact hexact.stdout
            raw := by
              rw [hrx]
              exact hexact.raw
            ptyOut := by
              rw [hrx]
              exact hexact.ptyOut
            input := by
              rw [htx, List.flatten_append, List.flatten_singleton, ← hexact.input, hall]
              rfl
            returned := by
              rw [hrx]
              exact hexact.returned }

theorem Logged.poll (h : Logged channel as s events) (hlooping : s.phase = .looping) :
    Kept channel as s events .poll (poll s) := by
  cases hexited : s.exited with
  | none =>
    have hpoll : Stdio.poll s = s := by rw [Stdio.poll, hexited]
    rw [hpoll]
    exact ⟨events, h.more_actions rfl, fun hexact _ => hexact⟩
  | some code =>
    have hpoll : Stdio.poll s = { s with phase := .draining [] code } := by rw [Stdio.poll, hexited]
    have hrx := h.rx
    rw [hlooping] at hrx
    rw [hpoll]
    refine ⟨events, { h.more_actions rfl with rx := hrx, exited := ?_, code := ?_ }, ?_⟩
    · intro hnone
      exact absurd (hexited.symm.trans hnone) nofun
    · rintro code' ⟨⟩
      exact hexited
    · exact fun hexact _ => { hexact with returned := nofun }

theorem Logged.finish {chunks : List Bytes} {code : Int} {io : ChunkIo} (h : Logged channel as s events)
    (hphase : s.phase = .draining chunks code) (ha : inputsOf [a] = [])
    (hreliable : a.Reliable → s.pipe = [] ∧ io.stdout = .all ∧ io.raw = .all ∧ io.pty = .all)
    (hok : (finish channel s chunks code io).phase ≠ .raised) :
    Kept channel as s events a (finish channel s chunks code io) := by
  have hexited : s.exited = some code := h.code code (by rw [hphase]; rfl)
  have hbefore := h.before (by rw [hexited]; exact nofun)
  have hrx := h.rx
  rw [hphase, Phase.pending] at hrx
  have hall : a.Reliable → s.writtenAtExit <+: (payloads .rx events).flatten ++ chunks.flatten := by
    intro hr
    rw [(hreliable hr).1, List.append_nil] at hrx
    exact hrx ▸ hbefore
  unfold Stdio.finish at hok ⊢
  dsimp only at hok ⊢
  by_cases htrailing : chunks.flatten = []
  · rw [if_pos htrailing]
    rw [htrailing, List.append_nil] at hall
    refine ⟨events, { h.more_actions ha with rx := ?_, exited := ?_, code := ?_ }, ?_⟩
    · rw [hrx, htrailing]
      rfl
    · intro hnone
      exact absurd (hexited.symm.trans hnone) nofun
    · rintro code' ⟨⟩
      exact hexited
    · exact fun hexact hr => { hexact with returned := fun _ _ => hall hr }
  · rw [if_neg htrailing] at hok ⊢
    generalize hdeliver : deliver channel s chunks.flatten io = res at hok ⊢
    obtain ⟨u, ok⟩ := res
    cases ok with
    | false => exact absurd rfl hok
    | true =>
      obtain ⟨e, hsource, hdir, hseq, hpayload, rfl⟩ := deliver_ok hdeliver
      have hrest : s.phase.pending.flatten ++ s.pipe = e.payload ++ (Phase.returned code).pending.flatten ++ s.pipe := by
        rw [hphase, hpayload]
        simp [Phase.pending]
      have hcode : (Phase.returned code).code = s.phase.code := by
        rw [hphase]
        rfl
      rw [← hpayload] at hall ⊢
      refine ⟨events ++ [e], h.delivered ha ⟨hsource, hseq⟩ hdir io hrest hcode, ?_⟩
      intro hexact hr
      exact hexact.delivered hdir (hreliable hr).2 fun _ _ => hall hr

theorem Logged.drain {chunks : List Bytes} {code : Int} {r : PipeRead} {io : ChunkIo} (h : Logged channel as s events)
    (hphase : s.phase = .draining chunks code) (hok : (drainTurn channel s chunks code r io).phase ≠ .raised) :
    Kept channel as s events (.drain r io) (drainTurn channel s chunks code r io) := by
  unfold drainTurn at hok ⊢
  rcases readPipe_cases s r with ⟨data, rest, hdata, hpipe, hread⟩ | ⟨hpipe, hread | hread⟩ | ⟨hr, hread⟩ | ⟨hr, hread⟩
  · rw [hread] at hok ⊢
    simp only [if_neg hdata]
    have hrx := h.rx
    refine ⟨events, { h.more_actions rfl with rx := ?_, exited := ?_, code := ?_ }, ?_⟩
    · rw [hrx, hphase, hpipe]
      simp [Phase.pending]
    · intro hnone
      have hsome := h.exited hnone
      rw [hphase] at hsome
      cases hsome
    · rintro code' ⟨⟩
      exact h.code code (by rw [hphase]; rfl)
    · exact fun hexact _ => { hexact with returned := nofun }
  · rw [hread] at hok ⊢
    exact h.finish hphase rfl (fun hr => ⟨hpipe, hr.2.2⟩) hok
  · rw [hread] at hok ⊢
    exact h.finish hphase rfl (fun hr => ⟨hpipe, hr.2.2⟩) hok
  · rw [hread] at hok ⊢
    exact h.finish hphase rfl (fun hreliable => absurd hr hreliable.1) hok
  · rw [hread] at hok ⊢
    exact h.finish hphase rfl (fun hreliable => absurd hr hreliable.2.1) hok

theorem Logged.step (h : Logged channel as s events) (hstep : step channel s a = some t) (hok : t.phase ≠ .raised) :
    Kept channel as s events a t := by
  cases a with
  | write data =>
    simp only [Stdio.step] at hstep
    split at hstep
    · cases hstep
      exact h.write data
    · cases hstep
  | release =>
    cases hstep
    exact ⟨events, { h.more_actions rfl with }, fun hexact _ => { hexact with }⟩
  | exit code =>
    simp only [Stdio.step] at hstep
    split at hstep
    · rename_i hexited
      cases hstep
      exact h.exit hexited code
    · cases hstep
  | procOut r io =>
    simp only [Stdio.step] at hstep
    split at hstep
    · rename_i hready
      cases hstep
      exact h.procOut hready.1 hok
    · cases hstep
  | input source r emit w =>
    simp only [Stdio.step] at hstep
    split at hstep
    · cases hstep
      exact h.inputReady hok
    · cases hstep
  | poll =>
    simp only [Stdio.step] at hstep
    split at hstep
    · rename_i hlooping
      cases hstep
      exact h.poll hlooping
    · cases hstep
  | drain r io =>
    simp only [Stdio.step] at hstep
    split at hstep
    · rename_i hphase
      cases hstep
      exact h.drain hphase hok
    · cases hstep

end Step

/-! ### Whole runs -/

theorem raised_stays {s t : State} {a : Action} (hstep : step channel s a = some t) (hs : s.phase = .raised) :
    t.phase = .raised := by
  unfold step at hstep
  cases a with
  | write data =>
    dsimp only at hstep
    split at hstep
    · cases hstep
      exact hs
    · cases hstep
  | release =>
    cases hstep
    exact hs
  | exit code =>
    dsimp only at hstep
    split at hstep
    · cases hstep
      exact hs
    · cases hstep
  | procOut r io => simp [hs] at hstep
  | input source r emit w => simp [hs] at hstep
  | poll => simp [hs] at hstep
  | drain r io => simp [hs] at hstep

theorem logged_start (stdin : Bool) : Logged channel [] (start channel stdin) [] ∧ Exact channel (start channel stdin) [] := by
  have hpty : Cut [] (if channel.pty then ([] : List Bytes) else []) := by
    split <;> exact cut_nil
  refine ⟨?_, ?_⟩
  · exact
      { file := rfl
        source := nofun
        seq := rfl
        rx := rfl
        tx := rfl
        stdout := cut_nil
        raw := cut_nil
        ptyOut := hpty
        input := cut_nil
        exited := fun _ => rfl
        code := nofun
        before := fun hne => absurd rfl hne }
  · exact
      { stdout := rfl
        raw := rfl
        ptyOut := (ite_self _).symm
        input := rfl
        returned := nofun }

/-- Until a call raises, there are the events that account for all that has been read. -/
theorem logged_run {stdin : Bool} {as : List Action} {s : State}
    (hr : Runs (step channel) (fun _ _ => True) (start channel stdin) as s) (hs : s.phase ≠ .raised) :
    ∃ events, Logged channel as s events ∧ ((∀ a ∈ as, a.Reliable) → Exact channel s events) := by
  generalize hstart : start channel stdin = first at hr
  induction hr with
  | refl =>
    obtain ⟨hlogged, hexact⟩ := @logged_start channel stdin
    exact hstart ▸ ⟨[], hlogged, fun _ => hexact⟩
  | snoc _ _ hstep ih =>
    obtain ⟨events, hlogged, hexact⟩ := ih (fun hraised => hs (raised_stays hstep hraised))
    obtain ⟨events', hlogged', hexact'⟩ := hlogged.step hstep hs
    refine ⟨events', hlogged', ?_⟩
    intro hreliable
    have hlast := hreliable _ (List.mem_append_right _ (List.mem_singleton_self _))
    exact hexact' (hexact fun a ha => hreliable a (List.mem_append_left _ ha)) hlast

/-! ### The return -/

def Action.ByRouter : Action → Prop
  | .write _ => False
  | .release => False
  | .exit _ => False
  | _ => True

def quietIo : ChunkIo := ⟨.all, .all, ⟨0, 0, none⟩, .all⟩

theorem finish_quiet (s : State) (chunks : List Bytes) (code : Int) :
    (finish channel s chunks code quietIo).phase = .returned code := by
  unfold finish
  dsimp only
  split
  · rfl
  · have hdeliver : (deliver channel s chunks.flatten quietIo).2 = true := rfl
    rw [if_pos hdeliver]

def remaining (s : State) : Nat :=
  match s.phase with
  | .looping => s.pipe.length + 2
  | .draining _ _ => s.pipe.length + 1
  | _ => 0

def Onward (code : Int) (s : State) : Prop :=
  s.exited = some code ∧ (s.phase = .looping ∨ ∃ chunks, s.phase = .draining chunks code) ∨ s.phase = .returned code

theorem Onward.step {s : State} {code : Int} (h : Onward code s) (hnot : s.phase ≠ .returned code) :
    ∃ a t, a.ByRouter ∧ step channel s a = some t ∧ Onward code t ∧ remaining t < remaining s := by
  obtain ⟨hexited, hphase | ⟨chunks, hphase⟩⟩ := h.resolve_right hnot
  · have hby : Action.ByRouter .poll := trivial
    refine ⟨.poll, { s with phase := .draining [] code }, hby, ?_, .inl ⟨hexited, .inr ⟨[], rfl⟩⟩, ?_⟩
    · simp only [Stdio.step, hphase, if_true, poll, hexited]
    · simp only [remaining, hphase]
      omega
  · have hstep : ∀ r, Stdio.step channel s (.drain r quietIo) = some (drainTurn channel s chunks code r quietIo) := by
      intro r
      simp only [Stdio.step, hphase]
    have hby : Action.ByRouter (.drain (.bytes 4095) quietIo) := trivial
    rcases readPipe_cases s (.bytes 4095) with ⟨data, rest, hdata, hpipe, hread⟩ | ⟨-, hread⟩ | ⟨hr, -⟩ | ⟨hr, -⟩
    · refine ⟨_, _, hby, hstep (.bytes 4095), ?_, ?_⟩
      · simp only [drainTurn, hread, if_neg hdata]
        exact .inl ⟨hexited, .inr ⟨_, rfl⟩⟩
      · have hpos := List.length_pos_iff.mpr hdata
        simp only [drainTurn, hread, if_neg hdata, remaining, hphase, hpipe, List.length_append]
        omega
    · have hreturned : (drainTurn channel s chunks code (.bytes 4095) quietIo).phase = .returned code := by
        unfold drainTurn
        rcases hread with hread | hread
        · rw [hread]
          exact finish_quiet s chunks code
        · rw [hread]
          exact finish_quiet s chunks code
      refine ⟨_, _, hby, hstep (.bytes 4095), .inr hreturned, ?_⟩
      simp only [remaining, hreturned, hphase]
      omega
    · cases hr
    · cases hr

/-- Once the command has exited, the router's own steps lead to its return. -/
theorem returns {s : State} {code : Int} (hexited : s.exited = some code) (hs : s.phase ≠ .raised)
    (hcode : ∀ c, s.phase.code = some c → c = code) :
    ∃ bs t, Runs (step channel) (fun _ b => b.ByRouter) s bs t ∧ t.phase = .returned code := by
  have hstart : Onward code s := by
    cases hphase : s.phase with
    | looping => exact .inl ⟨hexited, .inl hphase⟩
    | draining chunks c => exact .inl ⟨hexited, .inr ⟨chunks, by rw [hphase, hcode c (by rw [hphase]; rfl)]⟩⟩
    | returned c => exact .inr (by rw [hphase, hcode c (by rw [hphase]; rfl)])
    | raised => exact absurd hphase hs
  have hstep : ∀ s, Onward code s → ¬ s.phase = .returned code → ∃ a t, (fun _ (b : Action) => b.ByRouter) s a ∧
      step channel s a = some t ∧ Onward code t ∧ remaining t < remaining s := fun s h hnot => h.step hnot
  obtain ⟨bs, t, hr, -, ht⟩ := Runs.exists_goal hstep hstart
  exact ⟨bs, t, hr, ht⟩

end Router

/-- A command behind the router, whose channel is that of a manifest file. Until a call raises, the
events of the log can be read back. They have the name of the channel and the numbers from one on;
those of the direction `rx` are what has been read of the command's output, which is what has been
written but for what is pending or in the pipe; those of the direction `tx` are what has been read
from the PTY and the standard input. Of each event a prefix has been passed on, the whole if no
write takes a part only or fails; then all that had been written when the command exited is in the
log when the router returns. The status it returns is that of the command, and once this has exited,
the router's own steps lead to its return. -/
theorem command_logged (F : FloatReader) {file : Text} (hfile : ∀ c ∈ file, Scalar c) {d : Document}
    (hloads : loads F file = some d) {path : Text} {manifest : Manifest} (hload : loadManifest path (.data d) = .ok manifest)
    {repr : Option Document → Text} {channel : Channel} (hrunner : runner repr manifest = .ok (.processStdio channel))
    {stdin : Bool} {as : List Action} {s : State} (hr : Runs (step channel) (fun _ _ => True) (start channel stdin) as s)
    (hs : s.phase ≠ .raised) :
    (∃ events : List Event,
      readEvents F s.eventsLog = events.map some ∧
      (∀ e ∈ events, e.source = channel.name) ∧
      events.map Event.seq = List.range' 1 events.length ∧
      s.written = (payloads .rx events).flatten ++ s.phase.pending.flatten ++ s.pipe ∧
      payloads .tx events = inputsOf as ∧
      Cut s.stdout (payloads .rx events) ∧ Cut s.rawLog (payloads .rx events) ∧
      Cut s.ptyOut (if channel.pty then payloads .rx events else []) ∧ Cut s.input (payloads .tx events) ∧
      ((∀ a ∈ as, a.Reliable) → Exact channel s events)) ∧
    (∀ code, s.phase = .returned code → s.exited = some code) ∧
    ∀ code, s.exited = some code →
      ∃ bs t, Runs (step channel) (fun _ b => b.ByRouter) s bs t ∧ t.phase = .returned code := by
  have hsound := loadManifest_sound (loads_decoded hfile hloads) hload
  have hchannel : channel ∈ manifest.channels := by
    rw [runner_single hrunner]
    exact List.mem_singleton_self _
  have hname : StringText channel.name := (hsound.channels channel hchannel).name
  obtain ⟨events, hlogged, hexact⟩ := logged_run hr hs
  refine ⟨⟨events, ?_, hlogged.source, ?_, hlogged.rx, hlogged.tx, hlogged.stdout, hlogged.raw, hlogged.ptyOut,
    hlogged.input, hexact⟩, ?_, ?_⟩
  · rw [hlogged.file]
    exact readEvents_lines fun e he => hlogged.source e he ▸ hname
  · have hlength := congrArg List.length hlogged.seq
    rw [List.length_map, List.length_range'] at hlength
    rw [hlength]
    exact hlogged.seq
  · exact fun code hphase => hlogged.code code (by rw [hphase]; rfl)
  · intro code hexited
    refine returns hexited hs ?_
    intro c hc
    exact Option.some.inj ((hlogged.code c hc).symm.trans hexited)

def echoFile : Text := linesOf
  ["\x7b\"version\": 1, \"run_id\": \"r\",", "\"target\": \"t\", \"binary_name\": \"b\",",
    "\"transport\": \x7b\"type\":", "\"process_stdio\"\x7d, \"channels\": [", "\x7b\"id\": 1, \"name\": \"a\",",
    "\"kind\": \"k\", \"interactive\": true, \"pty\": false\x7d]\x7d"]

theorem echo_accepted : ∃ d manifest channel, loads oneAndHalfReader echoFile = some d ∧
    loadManifest (codes "m.json") (.data d) = .ok manifest ∧ runner (fun _ => []) manifest = .ok (.processStdio channel) ∧
    channel.name = codes "a" ∧ channel.pty = false := by
  have hrun : ((loads oneAndHalfReader echoFile).bind fun d => (loadManifest (codes "m.json") (.data d)).toOption.bind fun m =>
      match runner (fun _ => []) m with
      | .ok (.processStdio channel) => some (channel.name, channel.pty)
      | _ => none) = some (codes "a", false) := by decide +kernel
  obtain ⟨d, hd, hrun⟩ := Option.bind_eq_some_iff.mp hrun
  obtain ⟨manifest, hmanifest, hrun⟩ := Option.bind_eq_some_iff.mp hrun
  split at hrun
  · rename_i channel hrunner
    obtain ⟨hname, hpty⟩ := Prod.mk.inj (Option.some.inj hrun)
    exact ⟨d, manifest, channel, hd, ok_of_toOption hmanifest, hrunner, hname, hpty⟩
  · cases hrun

/-- The command gets a byte, answers with two and exits. -/
def echoRun : List Action :=
  [.input .stdin (.bytes [0x78]) ⟨1, 2, none⟩ .all, .write [0x68, 0x69], .procOut (.bytes 0) quietIo, .exit 3, .release, .poll,
    .drain (.bytes 4095) quietIo, .drain (.bytes 4095) quietIo]

theorem echo_runs {channel : Channel} (hpty : channel.pty = false) : ∃ s,
    Runs (step channel) (fun _ _ => True) (start channel true) echoRun s ∧ s.phase = .returned 3 ∧ s.written = [0x68, 0x69] ∧
      s.pipe = [] := by
  obtain ⟨id, name, kind, interactive, pty, extras⟩ := channel
  cases hpty
  exact ⟨_, runs_of_foldlM (fun _ _ _ => trivial) rfl, rfl, rfl, rfl⟩

theorem echo_reliable : ∀ a ∈ echoRun, a.Reliable := by
  intro a ha
  simp only [echoRun, List.mem_cons, List.not_mem_nil, or_false] at ha
  rcases ha with rfl | rfl | rfl | rfl | rfl | rfl | rfl | rfl <;> simp [Action.Reliable, quietIo]

theorem command_logged_echo : ∃ channel s events,
    Runs (step channel) (fun _ _ => True) (start channel true) echoRun s ∧ s.exited = some 3 ∧
      readEvents oneAndHalfReader s.eventsLog = List.map some events ∧ payloads .tx events = [[0x78]] ∧
      s.rawLog = [0x68, 0x69] := by
  obtain ⟨d, manifest, channel, hloads, hload, hrunner, -, hpty⟩ := echo_accepted
  obtain ⟨s, hr, hphase, hwritten, hpipe⟩ := echo_runs hpty
  have hascii : echoFile.all (fun c => decide (c < 0xd800)) = true := by decide +kernel
  have hfile : ∀ c ∈ echoFile, Scalar c := fun c hc => .inl (of_decide_eq_true (List.all_eq_true.mp hascii c hc))
  obtain ⟨⟨events, hread, -, -, hrx, htx, -, -, -, -, hexact⟩, hcode, -⟩ :=
    command_logged oneAndHalfReader hfile hloads hload hrunner hr (by rw [hphase]; decide)
  refine ⟨channel, s, events, hr, hcode 3 hphase, hread, htx, ?_⟩
  rw [hwritten, hphase, hpipe] at hrx
  rw [(hexact echo_reliable).raw, hrx]
  simp [Phase.pending]

end VirtiosoMux.Stdio
