import VirtiosoMux.Host.Invariant
import VirtiosoMux.Host.JsonOutput
import VirtiosoMux.Router.Mappings

/-! # The demuxer's announcements and the router

The router starts the demuxer with `-A`, and then the demuxer prints one JSON object for each
PTY. The router expects the path and the name of a PTY with a tab between them. No record
contains a tab, so the router never learns of a PTY.
-/
namespace VirtiosoMux.RouterSessions
open Host Router

/-! ### No record contains a tab -/

def tab : Byte := 0x09

theorem noTab_of_noControl {text : Bytes} (h : NoControl text) : tab ∉ text := by
  intro hmem
  have hprintable : 0x20 ≤ tab := h tab hmem
  exact absurd hprintable (by decide)

theorem line_noTab {line : Bytes} (h : NoControl line) : tab ∉ line ++ [0x0a] := by
  simp only [List.mem_append, not_or]
  exact ⟨noTab_of_noControl h, by decide⟩

theorem sessionRecords_noTab {env : Host.Env} {out : Bytes} (h : SessionRecords env out) : tab ∉ out := by
  obtain ⟨records, rfl⟩ := h
  intro hmem
  obtain ⟨r, -, hr⟩ := List.mem_flatMap.mp hmem
  rw [ptySessionRecord_eq] at hr
  exact line_noTab (sessionLine_noControl _ _ _ _) hr

/-! ### The demuxer's output -/

theorem feedVirtiosoByte_noTab {env : Host.Env} {h : State} (hs : tab ∉ h.stdout) (ch : Byte) :
    tab ∉ (feedVirtiosoByte env h ch).1.stdout := by
  rcases feedVirtiosoByte_cases env h ch with ⟨p, acks, heq, -⟩ | ⟨i, -, heq⟩ | ⟨sid, name, -, heq⟩ | ⟨json, -, heq⟩
  · rw [heq]
    exact hs
  · obtain ⟨p, n, r, ret, hwrite⟩ := patch2flushStream_slot env (h.setEscape false) i ch
    rw [heq, hwrite]
    exact hs
  · obtain ⟨t, pd, out, happly, -, hout, -⟩ := applyVirtiosoStreamConnected_cases env (storePayload h ch) sid name
    rw [heq, happly]
    change tab ∉ h.stdout ++ out
    simp only [List.mem_append, not_or]
    exact ⟨hs, sessionRecords_noTab hout⟩
  · have hregistry : tab ∉ (withRegistry h ch json).stdout := by
      change tab ∉ h.stdout ++ (ascii "\x7b\"event\":\"stream_registry\",\"registry_json\":" ++ writeJsonString json ++
        ascii "\x7d\n")
      rw [registryRecord_eq]
      apply List.not_mem_append hs
      exact line_noTab (registryLine_noControl json)
    have happlied : tab ∉ (applyVirtiosoRegistryJson env (withRegistry h ch json) json).1.stdout := by
      rcases applyVirtiosoRegistryJson_cases env (withRegistry h ch json) json with
        ⟨entries, pd, out, -, -, happly, -, hout⟩ | ⟨t, pd, out, happly, -, -, hout⟩
      · rw [happly]
        simp only [List.mem_append, not_or]
        exact ⟨hregistry, sessionRecords_noTab hout⟩
      · rw [happly]
        simp only [List.mem_append, not_or]
        exact ⟨hregistry, sessionRecords_noTab hout⟩
    rw [heq]
    split
    · exact happlied
    · exact happlied

theorem receive_noTab {env : Host.Env} {h : State} (hs : tab ∉ h.stdout) (ch : Byte) :
    tab ∉ (feedNvidiaOuterOrVirtiosoRaw env h ch).1.stdout := by
  cases hh : handed env h ch with
  | none =>
    rcases feed_unhanded hh with ⟨p, n, r, heq⟩ | ⟨e, tag, cur, esc, heq, -⟩
    · rw [heq]
      exact hs
    · rw [heq]
      exact hs
  | some res =>
    obtain ⟨g, b⟩ := res
    obtain ⟨p, n, r, e, hg⟩ := handed_state hh
    rw [feed_handed hh]
    refine feedVirtiosoByte_noTab ?_ b
    rw [hg]
    exact hs

/-- Whatever is received and whichever calls fail, the demuxer prints no tab. -/
theorem stdout_noTab (env : Host.Env) (bytes : Bytes) : tab ∉ (ttyInputHandler env (start env) bytes).1.stdout := by
  refine handler_invariant (I := fun h => tab ∉ h.stdout) (fun _ hs => hs) (fun h ch hs _ => receive_noTab hs ch) ?_
    (along_of_forall (fun _ _ => trivial) (start env) bytes)
  obtain ⟨pd, out, heq, -, hout⟩ := start_state env
  rw [heq]
  exact sessionRecords_noTab hout

/-! ### What the router learns -/

def Learned (saveOutputPath : Option Bytes) (router : Router.Env) (reads : List Bytes) (value : Byte) (device name : Bytes) :
    Prop :=
  ptySessionRecord saveOutputPath value device name <:+: reads.flatten →
    ∃ session, (decodeUtf8 name, session) ∈ (drainReads router .empty [] reads).2.1.sessions ∧
      session.ptyPath = decodeUtf8 device

theorem sessions_empty (env : Host.Env) (bytes : Bytes) (router : Router.Env) {reads : List Bytes}
    (hreads : reads.flatten <+: (ttyInputHandler env (start env) bytes).1.stdout) :
    (drainReads router .empty [] reads).2.1.sessions = [] := by
  have hflat : tab ∉ reads.flatten := fun hmem => stdout_noTab env bytes (hreads.subset hmem)
  exact drainReads_sessions router .empty List.not_mem_nil hflat

theorem demuxer_started_announcing (transport : Transport) (paths : RunPaths) {cmd : List Text}
    (h : virtiosoMuxCmd transport paths = some cmd) : "-A".toList ∈ cmd := by
  unfold virtiosoMuxCmd at h
  split at h
  · cases h
  · dsimp only at h
    split at h
    · cases h
      simp
    · split at h
      · cases h
        simp
      · cases h

/-- The router always starts the demuxer with `-A`, and of no PTY that the demuxer then opens does
it learn: not for any received bytes, any failing calls, and any way in which the output is read. -/
theorem opened_ptys_unknown (env : Host.Env) (bytes : Bytes) (router : Router.Env) {reads : List Bytes}
    (hreads : reads.flatten <+: (ttyInputHandler env (start env) bytes).1.stdout) {value : Byte} {device name : Bytes}
    (hline : ptySessionRecord env.saveOutputPath value device name <:+: reads.flatten) :
    (∀ transport paths cmd, virtiosoMuxCmd transport paths = some cmd → "-A".toList ∈ cmd) ∧
    ¬ Learned env.saveOutputPath router reads value device name := by
  refine ⟨fun transport paths _ h => demuxer_started_announcing transport paths h, ?_⟩
  intro hlearned
  obtain ⟨session, hmem, -⟩ := hlearned hline
  rw [sessions_empty env bytes router hreads] at hmem
  cases hmem

def quietRouter : Router.Env := ⟨id, fun _ => ⟨some 4096, true, true⟩⟩

theorem raw_ccplex_announced : ptySessionRecord quietEnv.saveOutputPath 0x00 (ascii "/dev/pts/7") rawCcplexPty <:+:
    [(start quietEnv).stdout].flatten := by
  decide +kernel

theorem opened_ptys_unknown_rawCcplex :
    ¬ Learned quietEnv.saveOutputPath quietRouter [(start quietEnv).stdout] 0x00 (ascii "/dev/pts/7") rawCcplexPty :=
  (opened_ptys_unknown quietEnv [] quietRouter (by simp [ttyInputHandler]) raw_ccplex_announced).2

/-- The PTY `raw_ccplex` of a demuxer that has just started, read in one piece. -/
theorem raw_ccplex_not_learned :
    ¬ ∀ reads value device name, reads.flatten <+: (ttyInputHandler quietEnv (start quietEnv) []).1.stdout →
      Learned quietEnv.saveOutputPath quietRouter reads value device name := by
  intro hall
  have hreads : [(start quietEnv).stdout].flatten <+: (ttyInputHandler quietEnv (start quietEnv) []).1.stdout := by
    simp [ttyInputHandler]
  obtain ⟨session, hmem, -⟩ := hall _ 0x00 (ascii "/dev/pts/7") rawCcplexPty hreads raw_ccplex_announced
  rw [sessions_empty quietEnv [] quietRouter hreads] at hmem
  cases hmem

end VirtiosoMux.RouterSessions
