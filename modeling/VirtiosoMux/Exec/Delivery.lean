import VirtiosoMux.Exec.System

/-! # What reaches the daemon's socket

The socket gets the chunks of the two pipes in the order of the channel. Every pipe's bytes stay in
order, and only a failed write or a chunk still in the hands of a forwarder can be missing.
-/
namespace VirtiosoMux.Exec

def sentBy (p : Source) (channel : List (Source × Bytes)) : Bytes :=
  (channel.filter (fun q => q.1 = p)).flatMap Prod.snd

def merged (channel : List (Source × Bytes)) : Bytes := channel.flatMap Prod.snd

theorem sentBy_append (p : Source) (xs ys : List (Source × Bytes)) : sentBy p (xs ++ ys) = sentBy p xs ++ sentBy p ys := by
  simp [sentBy]

theorem sentBy_self (p : Source) (chunk : Bytes) : sentBy p [(p, chunk)] = chunk := by
  simp [sentBy]

theorem sentBy_other {p q : Source} (h : q ≠ p) (chunk : Bytes) : sentBy q [(p, chunk)] = [] := by
  simp [sentBy, h.symm]

def Forwarder.pending : Forwarder → Bytes
  | .sending chunk => chunk
  | _ => []

def Drain.unwritten : Drain → Bytes
  | .writing rest => rest
  | .flushing _ rest => rest
  | _ => []

def Drain.code? : Drain → Option Int
  | .draining code => some code
  | .flushing code _ => some code
  | .returned code => some code
  | _ => none

theorem Takes.unwritten {done : Drain} {more : Bytes → Drain} (h : Takes done more) (rest : Bytes) :
    done.unwritten = [] ∧ (more rest).unwritten = rest := by
  cases h with
  | selecting => exact ⟨rfl, rfl⟩
  | draining => exact ⟨rfl, rfl⟩

theorem Takes.code? {done : Drain} {more : Bytes → Drain} (h : Takes done more) (rest : Bytes) :
    (more rest).code? = done.code? := by
  cases h with
  | selecting => rfl
  | draining => rfl

theorem Takes.running {done : Drain} {more : Bytes → Drain} (h : Takes done more) (rest : Bytes) :
    more rest ≠ .collecting ∧ ∀ code, more rest ≠ .returned code := by
  cases h with
  | selecting => simp
  | draining => simp

theorem Takes.wrote_running {done : Drain} {more : Bytes → Drain} (h : Takes done more) (rest : Bytes) (count : Nat) :
    Exec.wrote rest count more done ≠ .collecting ∧ ∀ code, Exec.wrote rest count more done ≠ .returned code := by
  unfold Exec.wrote
  split
  · cases h with
    | selecting => simp
    | draining => simp
  · exact h.running _

/-- A write moves the chunk in hand on by what it has taken. -/
theorem Takes.wrote {done : Drain} {more : Bytes → Drain} (h : Takes done more) (rest : Bytes) (count : Nat) :
    (wrote rest count more done).unwritten = rest.drop count ∧ (wrote rest count more done).code? = done.code? := by
  unfold Exec.wrote
  split
  · rename_i hempty
    exact ⟨(h.unwritten []).1.trans (List.isEmpty_iff.mp hempty).symm, rfl⟩
  · exact ⟨(h.unwritten _).2, h.code? _⟩

/-! ### The forwarders -/

structure Forwarding (s : Client) : Prop where
  read : ∀ p, sentBy p s.channel ++ (s.forwarder p).pending = s.bytesRead p
  pending : ∀ p, (s.forwarder p).pending.length ≤ bufSize
  full : ∀ p chunk, s.forwarder p = .sending chunk → chunk ≠ []
  chunks : ∀ q ∈ s.channel, q.2 ≠ []
  received : s.received ≤ s.channel.length

theorem Forwarding.start : Forwarding Client.start := by
  constructor
  · exact fun _ => rfl
  · exact fun _ => Nat.zero_le _
  · exact fun _ _ h => absurd h (by simp [Client.start])
  · exact List.forall_mem_nil _
  · exact Nat.le_refl 0

/-- A step of a forwarder that sends nothing. -/
theorem Forwarding.keep {s s' : Client} (h : Forwarding s) {p : Source} {f : Forwarder} {more : Bytes}
    (hf : s'.forwarder = (s.setForwarder p f).forwarder) (hread : s'.bytesRead p = s.bytesRead p ++ more)
    (hother : ∀ q, q ≠ p → s'.bytesRead q = s.bytesRead q) (hpending : f.pending = (s.forwarder p).pending ++ more)
    (hlen : f.pending.length ≤ bufSize) (hfull : ∀ chunk, f = .sending chunk → chunk ≠ [])
    (hch : s'.channel = s.channel) (hrec : s'.received = s.received) : Forwarding s' := by
  constructor
  · intro q
    rw [hf, setForwarder_forwarder, hch]
    by_cases hq : q = p
    · rw [if_pos hq, hq, hread, hpending, ← h.read p, List.append_assoc]
    · rw [if_neg hq, hother q hq, h.read q]
  · intro q
    rw [hf, setForwarder_forwarder]
    split
    · exact hlen
    · exact h.pending q
  · intro q chunk heq
    rw [hf, setForwarder_forwarder] at heq
    split at heq
    · exact hfull chunk heq
    · exact h.full q chunk heq
  · rw [hch]
    exact h.chunks
  · rw [hch, hrec]
    exact h.received

theorem Forwarding.sent {s : Client} (h : Forwarding s) {p : Source} {chunk : Bytes} (hf : s.forwarder p = .sending chunk) :
    Forwarding { s.setForwarder p .reading with channel := s.channel ++ [(p, chunk)] } := by
  constructor
  · intro q
    change sentBy q (s.channel ++ [(p, chunk)]) ++ ((s.setForwarder p .reading).forwarder q).pending = s.bytesRead q
    rw [setForwarder_forwarder, sentBy_append, ← h.read q]
    by_cases hq : q = p
    · subst hq
      rw [if_pos rfl, sentBy_self, hf]
      simp [Forwarder.pending]
    · rw [if_neg hq, sentBy_other hq, List.append_nil]
  · intro q
    change ((s.setForwarder p .reading).forwarder q).pending.length ≤ bufSize
    rw [setForwarder_forwarder]
    split
    · exact Nat.zero_le _
    · exact h.pending q
  · intro q chunk' heq
    change (s.setForwarder p .reading).forwarder q = _ at heq
    rw [setForwarder_forwarder] at heq
    split at heq
    · cases heq
    · exact h.full q chunk' heq
  · intro q hq
    rcases List.mem_append.mp hq with hq | hq
    · exact h.chunks q hq
    · rw [List.mem_singleton.mp hq]
      exact h.full p chunk hf
  · exact h.received.trans (List.prefix_append _ _).length_le

theorem Forwarding.step {s s' : Client} {a : Action} (h : Forwarding s) (hs : step s a = some s') : Forwarding s' := by
  cases (step_cases hs).2 with
  | @read p chunk hf hlen =>
    refine h.keep rfl (Function.update_self _ _ _) (fun q hq => Function.update_of_ne hq _ _) ?_ hlen.2 ?_ rfl rfl
    · rw [hf]
      rfl
    · rintro chunk' heq rfl
      cases heq
      exact absurd hlen.1 (Nat.lt_irrefl 0)
  | @eof p hf =>
    refine h.keep rfl (List.append_nil _).symm (fun _ _ => rfl) ?_ (Nat.zero_le _) ?_ rfl rfl
    · rw [hf]
      rfl
    · intro chunk heq
      cases heq
  | send hf => exact h.sent hf
  | recv hd hget =>
    obtain ⟨hlt, -⟩ := List.getElem?_eq_some_iff.mp hget
    exact ⟨h.read, h.pending, h.full, h.chunks, hlt⟩
  | _ => exact ⟨h.read, h.pending, h.full, h.chunks, h.received⟩

/-! ### The socket -/

/-- `conn` is what the socket has taken of the chunks taken from the channel. -/
structure Writing (s : Client) : Prop where
  received : s.received ≤ s.channel.length
  conn : s.broken = false → s.conn ++ s.drain.unwritten = merged (s.channel.take s.received)
  whole : s.broken = true → s.drain.code?.isSome
  all : s.broken = false → (s.drain = .collecting ∨ ∃ code, s.drain = .returned code) → s.received = s.channel.length
  ended : s.drain = .collecting → s.Ended

theorem Writing.start : Writing Client.start := by
  constructor
  · exact Nat.le_refl 0
  · exact fun _ => rfl
  · exact fun h => absurd h (by simp [Client.start])
  · exact fun _ h => absurd h (by simp [Client.start])
  · exact fun h => absurd h (by simp [Client.start])

/-- Running, a client is neither behind its return nor, unless both pipes have ended, waiting for the
exit status. -/
theorem Writing.keep {s s' : Client} (h : Writing s) (hrun : ∀ code, s.drain ≠ .returned code)
    (hch : s.channel <+: s'.channel) (hsent : s.Ended → s'.channel = s.channel) (hrec : s'.received = s.received)
    (hconn : s'.conn = s.conn) (hbroken : s'.broken = s.broken) (hdrain : s'.drain = s.drain)
    (hended : s.Ended → s'.Ended) : Writing s' := by
  obtain ⟨more, hmore⟩ := hch
  constructor
  · rw [hrec, ← hmore, List.length_append]
    exact h.received.trans (Nat.le_add_right _ _)
  · rw [hbroken, hconn, hdrain, hrec, ← hmore, List.take_append_of_le_length h.received]
    exact h.conn
  · rw [hbroken, hdrain]
    exact h.whole
  · rw [hbroken, hdrain, hrec]
    rintro hb (hc | ⟨code, hc⟩)
    · rw [hsent (h.ended hc)]
      exact h.all hb (.inl hc)
    · exact absurd hc (hrun code)
  · rw [hdrain]
    exact fun hc => hended (h.ended hc)

theorem Writing.recv {s : Client} (h : Writing s) {p : Source} {chunk : Bytes} {more : Bytes → Drain}
    (hd : Takes s.drain more) (hget : s.channel[s.received]? = some (p, chunk)) :
    Writing { s with received := s.received + 1, drain := more chunk } := by
  obtain ⟨hlt, heq⟩ := List.getElem?_eq_some_iff.mp hget
  obtain ⟨hdone, hmore⟩ := hd.unwritten chunk
  have hrunning := hd.running chunk
  constructor
  · exact hlt
  · intro hb
    have hconn := h.conn hb
    rw [hdone, List.append_nil] at hconn
    change s.conn ++ (more chunk).unwritten = merged (s.channel.take (s.received + 1))
    rw [hmore, hconn, List.take_succ_eq_append_getElem hlt, heq]
    simp [merged]
  · intro hb
    rw [hd.code?]
    exact h.whole hb
  · rintro - (hc | ⟨code, hc⟩)
    · exact absurd hc hrunning.1
    · exact absurd hc (hrunning.2 code)
  · exact fun hc => absurd hc hrunning.1

theorem Writing.write {s : Client} (h : Writing s) {more : Bytes → Drain} {done : Drain} {rest : Bytes} {count : Nat}
    (hm : Takes done more) (hd : s.drain = more rest) :
    Writing { s with conn := s.conn ++ rest.take count, drain := wrote rest count more done } := by
  obtain ⟨hleft, hcode⟩ := hm.wrote rest count
  have hrunning := hm.wrote_running rest count
  constructor
  · exact h.received
  · intro hb
    have hconn := h.conn hb
    rw [hd, (hm.unwritten rest).2] at hconn
    change (s.conn ++ rest.take count) ++ (wrote rest count more done).unwritten = _
    rw [hleft, List.append_assoc, List.take_append_drop]
    exact hconn
  · intro hb
    have hwhole := h.whole hb
    rw [hd, hm.code?] at hwhole
    rw [hcode]
    exact hwhole
  · rintro - (hc | ⟨code, hc⟩)
    · exact absurd hc hrunning.1
    · exact absurd hc (hrunning.2 code)
  · exact fun hc => absurd hc hrunning.1

/-- The loop goes on without a chunk in hand. -/
theorem Writing.move {s : Client} (h : Writing s) {drain : Drain} (hold : s.drain.unwritten = [])
    (hnew : drain.unwritten = []) (hwhole : s.drain.code?.isSome → drain.code?.isSome)
    (hall : s.broken = false → drain = .collecting ∨ (∃ code, drain = .returned code) → s.received = s.channel.length)
    (hended : drain = .collecting → s.Ended) : Writing { s with drain := drain } := by
  constructor
  · exact h.received
  · intro hb
    have hconn := h.conn hb
    rw [hold] at hconn
    rw [hnew]
    exact hconn
  · exact fun hb => hwhole (h.whole hb)
  · exact hall
  · exact hended

theorem Writing.step {s s' : Client} {a : Action} (h : Writing s) (hs : step s a = some s') : Writing s' := by
  obtain ⟨hrun, hstep⟩ := step_cases hs
  cases hstep with
  | @read p chunk hf _ =>
    refine h.keep hrun (List.prefix_refl _) (fun _ => rfl) rfl rfl rfl rfl ?_
    intro hend
    rw [hend p] at hf
    cases hf
  | @eof p hf =>
    refine h.keep hrun (List.prefix_refl _) (fun _ => rfl) rfl rfl rfl rfl ?_
    intro hend
    rw [hend p] at hf
    cases hf
  | @send p chunk hf _ =>
    have hlive : ¬ s.Ended := by
      intro hend
      rw [hend p] at hf
      cases hf
    exact h.keep hrun (List.prefix_append _ _) (fun hend => absurd hend hlive) rfl rfl rfl rfl
      (fun hend => absurd hend hlive)
  | childExit => exact ⟨h.received, h.conn, h.whole, h.all, h.ended⟩
  | recv hd hget => exact h.recv hd hget
  | collecting hd hend hall =>
    refine h.move (by rw [hd]; rfl) rfl (fun hc => ?_) (fun _ _ => hall) (fun _ => hend)
    rw [hd] at hc
    exact absurd hc (by simp [Drain.code?])
  | closed hd _ hall => exact h.move (by rw [hd]; rfl) rfl (fun _ => rfl) (fun _ _ => hall) (fun hc => by cases hc)
  | write hm hd => exact h.write hm hd
  | fail => exact ⟨h.received, by simp, by simp [Drain.code?], by simp, by simp⟩
  | ignore => exact ⟨h.received, by simp, by simp [Drain.code?], by simp, by simp⟩
  | collect hd _ =>
    exact h.move (by rw [hd]; rfl) rfl (fun _ => rfl) (fun hb _ => h.all hb (.inl hd)) (fun hc => by cases hc)
  | exited hd => exact h.move (by rw [hd]; rfl) rfl (fun _ => rfl) (by simp) (by simp)
  | timeout hd hall => exact h.move (by rw [hd]; rfl) rfl (fun _ => rfl) (fun _ _ => hall) (fun hc => by cases hc)

/-! ### The return -/

/-- The code is that of the child, unless a write of the first loop has failed. -/
structure Leaving (s : Client) : Prop where
  code : ∀ code, s.drain.code? = some code →
    (∃ e, s.exit = some e ∧ code = e.code) ∨ (s.broken = true ∧ s.drain = .returned 1)
  busy : ∀ done more rest, Takes done more → s.drain = more rest → rest ≠ []

theorem Leaving.start : Leaving Client.start := by
  constructor
  · exact fun _ h => absurd h (by simp [Client.start, Drain.code?])
  · intro done more rest hm h
    cases hm <;> cases h

theorem Leaving.keep {s s' : Client} (h : Leaving s) (hexit : s'.exit = s.exit) (hdrain : s'.drain = s.drain)
    (hbroken : s'.broken = s.broken) : Leaving s' := by
  constructor
  · rw [hexit, hdrain, hbroken]
    exact h.code
  · rw [hdrain]
    exact h.busy

theorem Takes.inj {done done' : Drain} {more more' : Bytes → Drain} (h : Takes done more) (h' : Takes done' more')
    {rest rest' : Bytes} (heq : more rest = more' rest') : rest = rest' := by
  rw [← (h.unwritten rest).2, heq, (h'.unwritten rest').2]

theorem Takes.idle {done done' : Drain} {more more' : Bytes → Drain} (h : Takes done more) (h' : Takes done' more')
    (rest : Bytes) : done ≠ more' rest := by
  cases h with
  | selecting =>
    cases h' with
    | selecting => simp
    | draining => simp
  | draining =>
    cases h' with
    | selecting => simp
    | draining => simp

/-- Between the two loops nothing is lost or found: the code stays what it was. -/
theorem Leaving.code_keep {s : Client} (h : Leaving s) (hrun : ∀ code, s.drain ≠ .returned code) {code : Int}
    (hcode : s.drain.code? = some code) : ∃ e, s.exit = some e ∧ code = e.code := by
  rcases h.code code hcode with hchild | ⟨-, hret⟩
  · exact hchild
  · exact absurd hret (hrun 1)

theorem Leaving.step {s s' : Client} {a : Action} (h : Leaving s) (hf : Forwarding s) (hs : step s a = some s') :
    Leaving s' := by
  obtain ⟨hrun, hstep⟩ := step_cases hs
  cases hstep with
  | read => exact h.keep rfl rfl rfl
  | eof => exact h.keep rfl rfl rfl
  | send => exact h.keep rfl rfl rfl
  | @childExit e hexit =>
    refine ⟨?_, h.busy⟩
    intro code hcode
    obtain ⟨e', he', -⟩ := h.code_keep hrun hcode
    rw [hexit] at he'
    cases he'
  | @recv p chunk more hd hget =>
    constructor
    · intro code hcode
      rw [hd.code?] at hcode
      exact .inl (h.code_keep hrun hcode)
    · intro done' more' rest hm heq
      rw [← hd.inj hm heq]
      exact hf.chunks (p, chunk) (List.mem_of_getElem? hget)
  | collecting => exact ⟨fun _ hc => (by cases hc), fun _ _ _ hm heq => by cases hm <;> cases heq⟩
  | closed hd =>
    constructor
    · intro code hcode
      cases hcode
      exact .inl (h.code_keep hrun (by rw [hd]; rfl))
    · intro _ _ _ hm heq
      cases hm <;> cases heq
  | @write more done rest count hm hd hcount =>
    constructor
    · intro code hcode
      rw [(hm.wrote rest count).2, ← hm.code? rest, ← hd] at hcode
      exact .inl (h.code_keep hrun hcode)
    · intro done' more' rest' hm' heq
      change wrote rest count more done = more' rest' at heq
      unfold wrote at heq
      split at heq
      · exact absurd heq (hm.idle hm' rest')
      · rename_i hleft
        rw [← hm.inj hm' heq]
        exact fun hnil => hleft (by rw [hnil]; rfl)
  | fail =>
    refine ⟨fun _ hc => ?_, fun _ _ _ hm heq => by cases hm <;> cases heq⟩
    exact .inr ⟨rfl, rfl⟩
  | ignore hd =>
    refine ⟨fun code hc => ?_, fun _ _ _ hm heq => by cases hm <;> cases heq⟩
    cases hc
    exact .inl (h.code_keep hrun (by rw [hd]; rfl))
  | collect _ hexit =>
    refine ⟨fun code hc => ?_, fun _ _ _ hm heq => by cases hm <;> cases heq⟩
    cases hc
    exact .inl ⟨_, hexit, rfl⟩
  | exited _ hexit =>
    refine ⟨fun code hc => ?_, fun _ _ _ hm heq => by cases hm <;> cases heq⟩
    cases hc
    exact .inl ⟨_, hexit, rfl⟩
  | timeout hd =>
    refine ⟨fun code hc => ?_, fun _ _ _ hm heq => by cases hm <;> cases heq⟩
    cases hc
    exact .inl (h.code_keep hrun (by rw [hd]; rfl))

/-! ### What a step leaves behind -/

/-- The channel and the socket grow; the socket only by a write, and only a failed one leaves its mark. -/
theorem step_grows {s s' : Client} {a : Action} (h : step s a = some s') : s.channel <+: s'.channel ∧
    ((∃ count, a = .write count) ∧ s.conn <+: s'.conn ∧ s'.broken = s.broken ∨
      s'.conn = s.conn ∧ (s'.broken = s.broken ∨ a = .writeFail)) := by
  cases (step_cases h).2 with
  | send => exact ⟨List.prefix_append _ _, .inr ⟨rfl, .inl rfl⟩⟩
  | write => exact ⟨List.prefix_refl _, .inl ⟨⟨_, rfl⟩, List.prefix_append _ _, rfl⟩⟩
  | fail => exact ⟨List.prefix_refl _, .inr ⟨rfl, .inr rfl⟩⟩
  | ignore => exact ⟨List.prefix_refl _, .inr ⟨rfl, .inr rfl⟩⟩
  | _ => exact ⟨List.prefix_refl _, .inr ⟨rfl, .inl rfl⟩⟩

/-! ### Whole runs -/

structure Sound (s : Client) : Prop where
  forwarding : Forwarding s
  writing : Writing s
  leaving : Leaving s

theorem Sound.step {s s' : Client} {a : Action} (h : Sound s) (hs : step s a = some s') : Sound s' :=
  ⟨h.forwarding.step hs, h.writing.step hs, h.leaving.step h.forwarding hs⟩

theorem sound_of_run {as : List Action} {s : Client} (hr : RunsTo as s) : Sound s :=
  hr.invariant (fun _ _ _ h _ hs => h.step hs) ⟨.start, .start, .start⟩

theorem merged_prefix {xs ys : List (Source × Bytes)} (h : xs <+: ys) : merged xs <+: merged ys := by
  obtain ⟨more, rfl⟩ := h
  rw [merged, merged, List.flatMap_append]
  exact List.prefix_append _ _

theorem Sound.conn_prefix {s : Client} (h : Sound s) (hb : s.broken = false) : s.conn <+: merged s.channel := by
  refine (List.prefix_append s.conn s.drain.unwritten).trans ?_
  rw [h.writing.conn hb]
  exact merged_prefix (List.take_prefix _ _)

/-- A client that returns without a failed write has written all of the channel. -/
theorem Sound.returned {s : Client} (h : Sound s) (hb : s.broken = false) {code : Int} (hd : s.drain = .returned code) :
    s.conn = merged s.channel := by
  have hconn := h.writing.conn hb
  rw [hd, h.writing.all hb (.inr ⟨code, hd⟩), List.take_length] at hconn
  exact (List.append_nil _).symm.trans hconn

theorem Sound.finished {s : Client} (h : Sound s) {p : Source} (hf : s.forwarder p = .finished) :
    sentBy p s.channel = s.bytesRead p := by
  have hread := h.forwarding.read p
  rw [hf] at hread
  exact (List.append_nil _).symm.trans hread

/-- Until a write fails, the socket has the chunks of the channel in their order, up to the chunk in hand. Every
pipe's part of the channel is what was read from it but for one chunk of a forwarder, and a client that returns has
written the whole channel. -/
theorem output_delivered {as : List Action} {s : Client} (hr : RunsTo as s) (hb : s.broken = false) :
    s.conn ++ s.drain.unwritten = merged (s.channel.take s.received) ∧
    (∀ p, sentBy p s.channel ++ (s.forwarder p).pending = s.bytesRead p ∧ (s.forwarder p).pending.length ≤ bufSize) ∧
    ∀ code, s.drain = .returned code → s.conn = merged s.channel ∧
      ∀ p, s.forwarder p = .finished → sentBy p s.channel = s.bytesRead p := by
  have h := sound_of_run hr
  refine ⟨h.writing.conn hb, fun p => ⟨h.forwarding.read p, h.forwarding.pending p⟩, fun code hd => ?_⟩
  exact ⟨h.returned hb hd, fun p hf => h.finished hf⟩

def oneCommand : List Action :=
  [.read .stdout [0x61, 0x62], .read .stderr [0x63], .send .stderr, .recv, .send .stdout, .write 1, .recv, .write 1, .write 1,
    .eof .stdout, .eof .stderr, .closed, .childExit (.status (some 0)), .collect]

theorem output_delivered_oneCommand : ∃ s, RunsTo oneCommand s ∧ s.drain = .returned 0 ∧ s.conn = merged s.channel := by
  obtain ⟨s, hs⟩ : ∃ s, oneCommand.foldlM step Client.start = some s := ⟨_, rfl⟩
  have hr : RunsTo oneCommand s := Machine.runs_of_foldlM (fun _ _ _ => trivial) hs
  have hend : s.broken = false ∧ s.drain = .returned 0 := by
    cases hs
    exact ⟨rfl, rfl⟩
  exact ⟨s, hr, hend.2, ((output_delivered hr hend.1).2.2 0 hend.2).1⟩

/-! ### The client always gets away -/

/-- The steps of `drain_with_child_exit` itself, on a socket that takes what is written. -/
def Action.Own : Action → Prop
  | .recv | .closed | .write _ | .collect | .exited | .timeout => True
  | _ => False

def Drain.rank : Drain → Nat
  | .writing _ => 4
  | .selecting => 3
  | .flushing _ _ => 2
  | .draining _ => 1
  | .collecting => 1
  | .returned _ => 0

def Client.distance (s : Client) : Nat := 3 * (s.channel.length - s.received) + s.drain.rank

structure Onward (s₀ s : Client) : Prop where
  sound : Sound s
  exit : s.exit = s₀.exit
  channel : s.channel = s₀.channel
  broken : s.broken = s₀.broken

theorem Takes.rank {done : Drain} {more : Bytes → Drain} (h : Takes done more) (rest : Bytes) :
    (more rest).rank = done.rank + 1 := by
  cases h with
  | selecting => rfl
  | draining => rfl

/-- A loop in front of a chunk, or with one in hand, goes on. -/
theorem takes_next {s : Client} {done : Drain} {more : Bytes → Drain} (hm : Takes done more) {p : Source} {chunk : Bytes}
    (hd : s.drain = done) (hget : s.channel[s.received]? = some (p, chunk)) :
    step s .recv = some { s with received := s.received + 1, drain := more chunk } := by
  cases hm with
  | selecting => simp [step, advance, hd, hget]
  | draining => simp [step, advance, hd, hget]

theorem takes_rest {s : Client} {done : Drain} {more : Bytes → Drain} (hm : Takes done more) {rest : Bytes}
    (hd : s.drain = more rest) (hrest : rest ≠ []) :
    step s (.write rest.length) = some { s with conn := s.conn ++ rest, drain := done } := by
  have hpos : 0 < rest.length := List.length_pos_iff.mpr hrest
  cases hm with
  | selecting => simp [step, advance, hd, hpos, wrote]
  | draining => simp [step, advance, hd, hpos, wrote]

theorem takes_or {s : Client} (hrun : ∀ code, s.drain ≠ .returned code) :
    (∃ done more, Takes done more ∧ (s.drain = done ∨ ∃ rest, s.drain = more rest)) ∨ s.drain = .collecting := by
  cases hd : s.drain with
  | selecting => exact .inl ⟨_, _, .selecting, .inl rfl⟩
  | writing rest => exact .inl ⟨_, _, .selecting, .inr ⟨rest, rfl⟩⟩
  | draining code => exact .inl ⟨_, _, .draining code, .inl rfl⟩
  | flushing code rest => exact .inl ⟨_, _, .draining code, .inr ⟨rest, rfl⟩⟩
  | collecting => exact .inr rfl
  | returned code => exact absurd hd (hrun code)

/-- Behind the last chunk of the channel, the exit of the child is enough to go on. -/
theorem takes_last {s : Client} {e : Exited} {done : Drain} {more : Bytes → Drain} (hm : Takes done more)
    (hd : s.drain = done) (hexit : s.exit = some e) (hall : s.received = s.channel.length) :
    ∃ (a : Action) (drain : Drain), a.Own ∧ step s a = some { s with drain := drain } ∧ drain.rank < done.rank := by
  cases hm with
  | selecting =>
    by_cases hend : s.Ended
    · exact ⟨.closed, .collecting, trivial, by simp [step, advance, hd, hend, hall], by decide⟩
    · exact ⟨.exited, .draining e.code, trivial, by simp [step, advance, hd, hend, hall, hexit], by simp [Drain.rank]⟩
  | draining code =>
    exact ⟨.timeout, .returned code, trivial, by simp [step, advance, hd, hall], by simp [Drain.rank]⟩

theorem Onward.advance {s₀ s : Client} (h : Onward s₀ s) {e : Exited} (hexit : s₀.exit = some e)
    (hrun : ∀ code, s.drain ≠ .returned code) :
    ∃ (a : Action) (t : Client), a.Own ∧ step s a = some t ∧ Onward s₀ t ∧ t.distance < s.distance := by
  have hexit' : s.exit = some e := h.exit.trans hexit
  have hle := h.sound.forwarding.received
  rcases takes_or hrun with ⟨done, more, hm, hd | ⟨rest, hd⟩⟩ | hd
  · rcases hle.lt_or_eq with hlt | hall
    · have hget := List.getElem?_eq_getElem hlt
      have hs := takes_next hm hd hget
      refine ⟨.recv, _, trivial, hs, ⟨h.sound.step hs, h.exit, h.channel, h.broken⟩, ?_⟩
      change 3 * (s.channel.length - (s.received + 1)) + (more _).rank < _
      rw [Client.distance, hm.rank, hd]
      omega
    · obtain ⟨a, drain, ha, hs, hlt⟩ := takes_last hm hd hexit' hall
      refine ⟨a, _, ha, hs, ⟨h.sound.step hs, h.exit, h.channel, h.broken⟩, ?_⟩
      rw [← hd] at hlt
      exact Nat.add_lt_add_left hlt _
  · have hs := takes_rest hm hd (h.sound.leaving.busy _ _ _ hm hd)
    refine ⟨.write rest.length, _, trivial, hs, ⟨h.sound.step hs, h.exit, h.channel, h.broken⟩, ?_⟩
    change 3 * (s.channel.length - s.received) + done.rank < _
    rw [Client.distance, hd, hm.rank]
    omega
  · have hs : step s .collect = some { s with drain := .returned e.code } := by simp [step, Exec.advance, hd, hexit']
    refine ⟨.collect, _, trivial, hs, ⟨h.sound.step hs, h.exit, h.channel, h.broken⟩, ?_⟩
    change 3 * (s.channel.length - s.received) + 0 < _
    rw [Client.distance, hd]
    exact Nat.lt_succ_self _

/-- The client returns the code of its child, or 1 behind a failed write. Once the child has exited, the steps of the
two loops alone lead to the return: no pipe that a process left behind holds open can keep it, and what was in the
channel is written before. -/
theorem exit_code_returned {as : List Action} {s : Client} (hr : RunsTo as s) :
    (∀ code, s.drain = .returned code →
      (∃ e, s.exit = some e ∧ code = e.code) ∨ (s.broken = true ∧ code = 1)) ∧
    ∀ e, s.exit = some e → ∃ bs t code, Machine.Runs step (fun _ a => Action.Own a) s bs t ∧ t.drain = .returned code ∧
      (s.broken = false → code = e.code ∧ t.conn = merged s.channel) := by
  have h := sound_of_run hr
  refine ⟨fun code hd => ?_, fun e hexit => ?_⟩
  · rcases h.leaving.code code (by rw [hd]; rfl) with hchild | ⟨hb, hone⟩
    · exact .inl hchild
    · exact .inr ⟨hb, Drain.returned.inj (hd.symm.trans hone)⟩
  · have hgoal : ∃ bs t, Machine.Runs step (fun _ a => Action.Own a) s bs t ∧ Onward s t ∧ ∃ code, t.drain = .returned code := by
      apply Machine.Runs.exists_goal (m := Client.distance) ?_ ⟨h, rfl, rfl, rfl⟩
      exact fun t ht hg => ht.advance hexit (fun code hd => hg ⟨code, hd⟩)
    obtain ⟨bs, t, hbs, ht, code, hcode⟩ := hgoal
    refine ⟨bs, t, code, hbs, hcode, fun hb => ?_⟩
    have hb' : t.broken = false := ht.broken.trans hb
    refine ⟨?_, by rw [ht.sound.returned hb' hcode, ht.channel]⟩
    rcases ht.sound.leaving.code code (by rw [hcode]; rfl) with ⟨e', he', hcode'⟩ | ⟨hbroken, -⟩
    · rw [ht.exit, hexit] at he'
      cases he'
      exact hcode'
    · rw [hb'] at hbroken
      cases hbroken

/-- The child has gone, a process that it left behind has the other pipe, and a chunk is still in the channel. -/
def heldPipe : List Action :=
  [.read .stdout [0x61], .send .stdout, .eof .stdout, .childExit (.status (some 3))]

theorem exit_code_returned_heldPipe : ∃ s bs t, RunsTo heldPipe s ∧ Machine.Runs step (fun _ a => Action.Own a) s bs t ∧
    t.drain = .returned 3 ∧ t.conn = [0x61] := by
  obtain ⟨s, hs⟩ : ∃ s, heldPipe.foldlM step Client.start = some s := ⟨_, rfl⟩
  have hr : RunsTo heldPipe s := Machine.runs_of_foldlM (fun _ _ _ => trivial) hs
  have hnow : s.broken = false ∧ s.exit = some (.status (some 3)) ∧ merged s.channel = [0x61] := by
    cases hs
    exact ⟨rfl, rfl, rfl⟩
  obtain ⟨bs, t, code, hbs, hd, hcode⟩ := (exit_code_returned hr).2 _ hnow.2.1
  obtain ⟨rfl, hconn⟩ := hcode hnow.1
  exact ⟨s, bs, t, hr, hbs, hd, hconn.trans hnow.2.2⟩

end VirtiosoMux.Exec
