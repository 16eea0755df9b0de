import VirtiosoMux.Muxd.Ownership

/-! # Building runs of the daemon

A run that reaches a given pool or a given channel is put together from the actions of
one client, or of `sink_task`, at a time; each piece says exactly which fields it changes.
-/
namespace VirtiosoMux.Muxd

/-- A client that enrolls and is gone before it reads its identifier. -/
def passing (c : Nat) : List Action := [.enroll c [0x61], .alloc c, .reply c false, .free c]

/-- It moves the cursor behind the identifier it got and leaves no other trace. -/
theorem passing_runs {s : Daemon} {c : Nat} (ht : s.task c = .enrolling) (hp : s.pool.Sound) {id : Byte}
    (hid : s.pool.NextFree id) :
    Machine.Runs step anyStep s (passing c)
      { s with task := Function.update s.task c .finished, pool := ⟨advance id, s.pool.used⟩ } := by
  have halloc : s.pool.alloc = some (id, ⟨advance id, Function.update s.pool.used id true⟩) := by
    rcases alloc_spec hp.next with ⟨id', hf, he⟩ | ⟨hall, -⟩
    · rw [hid.unique hf, he]
    · have hu := hid.unused
      rw [hall id (hid.ne_zero hp.next)] at hu
      cases hu
  have hfree : IdPool.free ⟨advance id, Function.update s.pool.used id true⟩ id = ⟨advance id, s.pool.used⟩ := by
    have hsel := not_reserved_iff.mp (hp.not_reserved hid.unused)
    have hback : Function.update (Function.update s.pool.used id true) id false = s.pool.used := by
      rw [Function.update_idem, ← hid.unused, Function.update_eq_self]
    simp only [IdPool.free, if_pos hsel, hback]
  refine Machine.runs_of_foldlM (fun _ _ _ => trivial) ?_
  simp [passing, step, Daemon.setTask, ht, halloc, hfree]

def passings : Nat → Nat → List Action
  | _, 0 => []
  | c, n + 1 => passing c ++ passings (c + 1) n

theorem passings_runs (n : Nat) {s : Daemon} {c : Nat} (ht : ∀ k < n, s.task (c + k) = .enrolling)
    (hp : s.pool.Sound) (hfree : ∀ k < n, s.pool.used (candidate s.pool.next k) = false) :
    ∃ task : Nat → Task, (∀ c', c' < c ∨ c + n ≤ c' → task c' = s.task c') ∧
      Machine.Runs step anyStep s (passings c n)
        { s with task := task, pool := ⟨candidate s.pool.next n, s.pool.used⟩ } := by
  induction n generalizing s c with
  | zero => exact ⟨s.task, fun _ _ => rfl, .refl s⟩
  | succ n ih =>
    have hnext : s.pool.NextFree s.pool.next := ⟨0, by omega, rfl, hfree 0 (by omega), by simp⟩
    have hfirst := passing_runs (by simpa using ht 0 (by omega)) hp hnext
    have hshift : ∀ k, candidate (advance s.pool.next) k = candidate s.pool.next (k + 1) := by
      intro k
      induction k with
      | zero => rfl
      | succ k ih => rw [candidate, ih]; rfl
    obtain ⟨task, hkeep, hruns⟩ := ih (s := { s with
        task := Function.update s.task c .finished, pool := ⟨advance s.pool.next, s.pool.used⟩ }) (c := c + 1)
      (fun k hk => by
        have hne : c + 1 + k ≠ c := by omega
        simpa [Function.update_of_ne hne, Nat.add_assoc, Nat.add_comm 1 k] using ht (k + 1) (by omega))
      ⟨advance_ne_zero hp.next, hp.zero, hp.control, hp.escape⟩
      (fun k hk => by simpa [hshift] using hfree (k + 1) (by omega))
    refine ⟨task, ?_, ?_⟩
    · intro c' hc'
      rw [hkeep c' (by omega)]
      exact Function.update_of_ne (by omega) _ _
    · have := hfirst.trans hruns
      simpa only [hshift, passings] using this

def announcing (c : Nat) (name : Bytes) : List Action := [.enroll c name, .alloc c, .reply c true, .send c]

theorem announcing_runs {s : Daemon} {c : Nat} {name : Bytes} (ht : s.task c = .enrolling)
    (hname : 0 < name.length ∧ name.length ≤ 255) (hrec : s.receiving = true) (hroom : s.channel.length < channelCapacity)
    {id : Byte} {pool : IdPool} (hp : s.pool.alloc = some (id, pool)) :
    Machine.Runs step anyStep s (announcing c name)
      { s with
        task := Function.update s.task c (.reading (fromUtf8Lossy name) id)
        pool := pool
        channel := s.channel ++ [(c, .connected id (fromUtf8Lossy name))] } := by
  have hroom' : s.channel.length - s.received < channelCapacity := by omega
  refine Machine.runs_of_foldlM (fun _ _ _ => trivial) ?_
  simp [announcing, step, Daemon.setTask, Daemon.send, ht, hname, hrec, hp, hroom']

/-- A client in its read loop sends one chunk. -/
theorem chunk_runs {s : Daemon} {c : Nat} {name chunk : Bytes} {id : Byte} (ht : s.task c = .reading name id)
    (hlen : 0 < chunk.length ∧ chunk.length ≤ maxRead) (hrec : s.receiving = true)
    (hroom : s.channel.length < channelCapacity) :
    Machine.Runs step anyStep s [.read c chunk, .send c] { s with
      bytesRead := Function.update s.bytesRead c (s.bytesRead c ++ chunk)
      channel := s.channel ++ [(c, .data id chunk)] } := by
  have hroom' : s.channel.length - s.received < channelCapacity := by omega
  have hback : Function.update s.task c (.reading name id) = s.task := ht ▸ Function.update_eq_self c s.task
  refine Machine.runs_of_foldlM (fun _ _ _ => trivial) ?_
  simp [step, Daemon.setTask, Daemon.send, ht, hlen, hrec, hroom', hback]

def draining (frames : List (Nat × Frame)) : List Action :=
  frames.flatMap (fun p => [.recv, .sinkWrite p.2.encode.length])

theorem draining_runs (sent frames : List (Nat × Frame)) {s : Daemon}
    (hch : s.channel = sent ++ frames) (hn : s.received = sent.length) (hrec : s.receiving = true)
    (hidle : s.unwritten = []) :
    Machine.Runs step anyStep s (draining frames) { s with
      received := s.channel.length
      sink := s.sink ++ frames.flatMap (fun p => p.2.encode) } := by
  induction frames generalizing s sent with
  | nil =>
    have hall : s.channel.length = s.received := by rw [hch, hn, List.append_nil]
    simpa [draining, hall] using Machine.Runs.refl s
  | cons p frames ih =>
    have hpos : 0 < p.2.encode.length := by
      obtain ⟨c, f⟩ := p
      cases f <;> simp [Frame.encode, encodeDataFrame, encodeControlFrame]
    have hget : s.channel[s.received]? = some p := by simp [hch, hn]
    have hfirst : Machine.Runs step anyStep s [.recv, .sinkWrite p.2.encode.length]
        { s with received := s.received + 1, sink := s.sink ++ p.2.encode } := by
      refine Machine.runs_of_foldlM (fun _ _ _ => trivial) ?_
      simp [step, hrec, hidle, hget, hpos]
    have hrest := ih (sent ++ [p]) (s := { s with received := s.received + 1, sink := s.sink ++ p.2.encode })
      (by simp [hch]) (by simp [hn]) hrec hidle
    have hall := hfirst.trans hrest
    simpa [draining] using hall

end VirtiosoMux.Muxd
