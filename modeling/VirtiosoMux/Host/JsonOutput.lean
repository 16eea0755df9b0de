import VirtiosoMux.Library.JsonString
import VirtiosoMux.Host.Steps

/-! # Records on standard output

A string is written so that it reads back as it was, between two quotes and without a control
character. So a record is one line, and its strings can be told from it.
-/
namespace VirtiosoMux.Host
open Json

def NoControl (text : Bytes) : Prop := ∀ b ∈ text, 0x20 ≤ b

theorem NoControl.append {t u : Bytes} (ht : NoControl t) (hu : NoControl u) : NoControl (t ++ u) := by
  intro b hb
  rcases List.mem_append.mp hb with hb | hb
  · exact ht b hb
  · exact hu b hb

theorem NoControl.cons {b : Byte} {t : Bytes} (hb : 0x20 ≤ b) (ht : NoControl t) : NoControl (b :: t) := by
  intro c hc
  rcases List.mem_cons.mp hc with rfl | hc
  · exact hb
  · exact ht c hc

/-! ### Strings -/

theorem hexDigit_bytes {n : Nat} (h : n < 16) : 0x20 ≤ hexDigit n ∧ hexDigit n ≠ 0x22 ∧ hexDigit n ≠ 0x5c ∧
    hexValue (hexDigit n) = some n := by
  have hall : ∀ n < 16, 0x20 ≤ hexDigit n ∧ hexDigit n ≠ 0x22 ∧ hexDigit n ≠ 0x5c ∧ hexValue (hexDigit n) = some n := by
    decide
  exact hall n h

structure WrittenAs (text : Bytes) (c : Byte) : Prop where
  stands : StandsFor text c
  escaped : Escaped text
  printable : NoControl text

theorem writtenAs_short {e c : Byte} (h : shortEscape e = some c) (he : 0x20 ≤ e) : WrittenAs [0x5c, e] c := by
  constructor
  · exact standsFor_short h
  · exact .pair .nil
  · intro b hb
    rcases List.mem_cons.mp hb with rfl | hb
    · decide
    · exact List.mem_singleton.mp hb ▸ he

theorem writtenAs_control {c : Byte} (hc : c < 0x20) :
    WrittenAs [0x5c, 0x75, 0x30, 0x30, hexDigit (c.toNat / 16), hexDigit (c.toNat % 16)] c := by
  have hlt : c.toNat < 0x20 := hc
  obtain ⟨hhi, hhi22, hhi5c, hhival⟩ := hexDigit_bytes (n := c.toNat / 16) (by omega)
  obtain ⟨hlo, hlo22, hlo5c, hloval⟩ := hexDigit_bytes (n := c.toNat % 16) (by omega)
  have hzero : hexValue 0x30 = some 0 := by decide
  constructor
  · apply standsFor_unicode
    · exact UInt8.lt_iff_toNat_lt.mpr (Nat.lt_trans hlt (by decide))
    · intro rest
      have hvalue : ((0 * 16 + 0) * 16 + c.toNat / 16) * 16 + c.toNat % 16 = c.toNat := by omega
      simp only [hexUnit, hzero, hhival, hloval, hvalue]
  · exact .pair (.plain (by decide) (by decide) (.plain (by decide) (by decide) (.plain hhi22 hhi5c (.plain hlo22 hlo5c .nil))))
  · intro b hb
    simp only [List.mem_cons, List.not_mem_nil, or_false] at hb
    rcases hb with rfl | rfl | rfl | rfl | rfl | rfl
    · decide
    · decide
    · decide
    · decide
    · exact hhi
    · exact hlo

/-- Every byte is written as one token for it. -/
theorem jsonEscapeByte_writtenAs (c : Byte) : WrittenAs (jsonEscapeByte c) c := by
  unfold jsonEscapeByte
  split
  · rename_i hc
    rcases hc with rfl | rfl
    · exact writtenAs_short (by decide) (by decide)
    · exact writtenAs_short (by decide) (by decide)
  rename_i hquote
  split
  · rename_i hc
    exact hc ▸ writtenAs_short (by decide) (by decide)
  split
  · rename_i hc
    exact hc ▸ writtenAs_short (by decide) (by decide)
  split
  · rename_i hc
    exact hc ▸ writtenAs_short (by decide) (by decide)
  split
  · rename_i hc
    exact writtenAs_control hc
  · rename_i hctrl
    obtain ⟨hq, hb⟩ := not_or.mp hquote
    have hge : 0x20 ≤ c := UInt8.not_lt.mp hctrl
    constructor
    · exact standsFor_self hq hb hge
    · exact .plain hq hb .nil
    · intro b hb
      exact List.mem_singleton.mp hb ▸ hge

theorem writeJsonString_escaped (s : Bytes) : Escaped (s.flatMap jsonEscapeByte) := by
  induction s with
  | nil => exact .nil
  | cons c s ih =>
    rw [List.flatMap_cons]
    exact (jsonEscapeByte_writtenAs c).escaped.append ih

theorem writeJsonString_noControl (s : Bytes) : NoControl (writeJsonString s) := by
  have hquote : NoControl [0x22] := by
    intro b hb
    rw [List.mem_singleton.mp hb]
    decide
  have hbody : NoControl (s.flatMap jsonEscapeByte) := by
    intro b hb
    obtain ⟨c, -, hmem⟩ := List.mem_flatMap.mp hb
    exact (jsonEscapeByte_writtenAs c).printable b hmem
  exact (hquote.append hbody).append hquote

theorem length_le_escaped (s : Bytes) : s.length ≤ (s.flatMap jsonEscapeByte).length := by
  induction s with
  | nil => exact Nat.le_refl 0
  | cons c s ih =>
    have hone : 1 ≤ (jsonEscapeByte c).length := by
      unfold jsonEscapeByte
      (repeat' split) <;> simp
    rw [List.flatMap_cons, List.length_append, List.length_cons]
    omega

/-- Whatever follows it, a written string is read back and reading stops at its last quote. -/
theorem readString_writeJsonString (s rest : Bytes) : readString (writeJsonString s ++ rest) = some (s, rest) := by
  have hlen := length_le_escaped s
  have htext : writeJsonString s ++ rest = 0x22 :: (s.flatMap jsonEscapeByte ++ 0x22 :: rest) := by
    simp [writeJsonString]
  obtain ⟨rounds, hrounds⟩ := Nat.exists_eq_add_of_le
    (show s.length + 1 ≤ (s.flatMap jsonEscapeByte ++ 0x22 :: rest).length by
      rw [List.length_append, List.length_cons]
      omega)
  rw [htext, readString, if_pos rfl, hrounds]
  exact readChars_tokens (fun c => (jsonEscapeByte_writtenAs c).stands) s rest rounds

/-- Texts that start with a written string agree only if the strings and what follows do. -/
theorem writeJsonString_append_inj {s s' rest rest' : Bytes} (h : writeJsonString s ++ rest = writeJsonString s' ++ rest') :
    s = s' ∧ rest = rest' := by
  have hread := congrArg readString h
  rw [readString_writeJsonString, readString_writeJsonString] at hread
  simpa using hread

/-! ### Records -/

theorem decimal_digit {n : Nat} {b : Byte} (hb : b ∈ Host.decimal n) : 0x30 ≤ b ∧ b ≤ 0x39 :=
  digits_isDigit n b hb

theorem noControl_literal {text : Bytes} (h : text.all (fun b => decide (0x20 ≤ b)) = true) : NoControl text := by
  intro b hb
  simpa using List.all_eq_true.mp h b hb

def recordLogPath (saveOutputPath : Option Bytes) (name : Bytes) : Option Bytes :=
  saveOutputPath.map fun dir => (dir ++ ascii "/" ++ name ++ ascii ".txt").take 1023

def logMember : Option Bytes → Bytes
  | none => []
  | some path => ascii ",\"log_path\":" ++ writeJsonString path

def sessionLine (saveOutputPath : Option Bytes) (value : Byte) (device name : Bytes) : Bytes :=
  ascii "\x7b\"event\":\"session_open\",\"name\":" ++ (writeJsonString name ++
  (ascii ",\"kind\":" ++ (writeJsonString (virtiosoSessionKind name) ++
  (ascii ",\"stream_id\":" ++ (Host.decimal value.toNat ++ 0x2c :: (ascii "\"pty_path\":" ++ (writeJsonString device ++
  (logMember (recordLogPath saveOutputPath name) ++ [0x7d]))))))))

theorem ptySessionRecord_eq (saveOutputPath : Option Bytes) (value : Byte) (device name : Bytes) :
    ptySessionRecord saveOutputPath value device name = sessionLine saveOutputPath value device name ++ [0x0a] := by
  have hpath : ascii ",\"pty_path\":" = 0x2c :: ascii "\"pty_path\":" := rfl
  have hend : ascii "\x7d\n" = [0x7d, 0x0a] := rfl
  unfold ptySessionRecord sessionLine
  rw [hpath, hend]
  cases saveOutputPath with
  | none => simp only [recordLogPath, logMember, Option.map_none, List.append_assoc, List.cons_append, List.nil_append]
  | some dir => simp only [recordLogPath, logMember, Option.map_some, List.append_assoc, List.cons_append, List.nil_append]

theorem sessionLine_noControl (saveOutputPath : Option Bytes) (value : Byte) (device name : Bytes) :
    NoControl (sessionLine saveOutputPath value device name) := by
  have hdecimal : NoControl (Host.decimal value.toNat) :=
    fun b hb => UInt8.le_trans (by decide) (decimal_digit hb).1
  have hlog : NoControl (logMember (recordLogPath saveOutputPath name)) := by
    cases recordLogPath saveOutputPath name with
    | none => exact noControl_literal (by decide)
    | some path => exact (noControl_literal (by decide)).append (writeJsonString_noControl path)
  apply NoControl.append (noControl_literal (by decide))
  apply NoControl.append (writeJsonString_noControl name)
  apply NoControl.append (noControl_literal (by decide))
  apply NoControl.append (writeJsonString_noControl _)
  apply NoControl.append (noControl_literal (by decide))
  apply NoControl.append hdecimal
  apply NoControl.cons (by decide)
  apply NoControl.append (noControl_literal (by decide))
  apply NoControl.append (writeJsonString_noControl device)
  exact hlog.append (noControl_literal (by decide))

/-- Behind its first comma nothing of a text with digits in front is lost. -/
theorem digits_append_inj {n m : Nat} {rest rest' : Bytes}
    (h : Host.decimal n ++ 0x2c :: rest = Host.decimal m ++ 0x2c :: rest') : Host.decimal n = Host.decimal m ∧ rest = rest' := by
  have hcomma : ∀ k, ∀ b ∈ Host.decimal k, (b != 0x2c) = true := by
    intro k b hb
    have hle := (decimal_digit hb).1
    have hne : b ≠ 0x2c := by
      rintro rfl
      exact absurd hle (by decide)
    simpa using hne
  have htake : ∀ k (r : Bytes), (Host.decimal k ++ 0x2c :: r).takeWhile (· != 0x2c) = Host.decimal k := by
    intro k r
    rw [List.takeWhile_append_of_pos (hcomma k)]
    simp
  have hnum : Host.decimal n = Host.decimal m := by rw [← htake n rest, h, htake m rest']
  rw [hnum] at h
  exact ⟨hnum, List.tail_eq_of_cons_eq (List.append_cancel_left h)⟩

theorem logMember_inj {path path' : Option Bytes} (h : logMember path ++ [0x7d] = logMember path' ++ [0x7d]) : path = path' := by
  have hlead : ∀ (p : Bytes) (text : Bytes), logMember (some p) ++ text =
      0x2c :: (ascii "\"log_path\":" ++ (writeJsonString p ++ text)) := by
    intro p text
    have hlit : ascii ",\"log_path\":" = 0x2c :: ascii "\"log_path\":" := rfl
    rw [logMember, hlit, List.append_assoc, List.cons_append]
  cases path with
  | none =>
    cases path' with
    | none => rfl
    | some p =>
      rw [hlead] at h
      exact absurd (List.head_eq_of_cons_eq h) (by decide)
  | some p =>
    cases path' with
    | none =>
      rw [hlead] at h
      exact absurd (List.head_eq_of_cons_eq h) (by decide)
    | some p' =>
      rw [hlead, hlead] at h
      have hpath := List.append_cancel_left (List.tail_eq_of_cons_eq h)
      rw [(writeJsonString_append_inj hpath).1]

/-- Name, device and log path can be told from a record. -/
theorem ptySessionRecord_inj {save save' : Option Bytes} {value value' : Byte} {device device' name name' : Bytes}
    (h : ptySessionRecord save value device name = ptySessionRecord save' value' device' name') :
    name = name' ∧ device = device' ∧ recordLogPath save name = recordLogPath save' name' := by
  rw [ptySessionRecord_eq, ptySessionRecord_eq] at h
  have hline : sessionLine save value device name = sessionLine save' value' device' name' := List.append_cancel_right h
  unfold sessionLine at hline
  obtain ⟨hname, hkind⟩ := writeJsonString_append_inj (List.append_cancel_left hline)
  obtain ⟨-, hid⟩ := writeJsonString_append_inj (List.append_cancel_left hkind)
  obtain ⟨-, hpty⟩ := digits_append_inj (List.append_cancel_left hid)
  obtain ⟨hdevice, hlog⟩ := writeJsonString_append_inj (List.append_cancel_left hpty)
  exact ⟨hname, hdevice, logMember_inj hlog⟩

def registryLine (json : Bytes) : Bytes :=
  ascii "\x7b\"event\":\"stream_registry\",\"registry_json\":" ++ (writeJsonString json ++ [0x7d])

theorem registryRecord_eq (json : Bytes) :
    ascii "\x7b\"event\":\"stream_registry\",\"registry_json\":" ++ writeJsonString json ++ ascii "\x7d\n" =
      registryLine json ++ [0x0a] := by
  have hend : ascii "\x7d\n" = [0x7d, 0x0a] := rfl
  simp only [registryLine, hend, List.append_assoc, List.cons_append, List.nil_append]

theorem emitVirtiosoRegistryRecord_stdout {h : State} {json : Bytes} (hjson : h.virtiosoRegistryJson = some json) :
    (emitVirtiosoRegistryRecord h).stdout = h.stdout ++ (registryLine json ++ [0x0a]) := by
  unfold emitVirtiosoRegistryRecord
  rw [hjson, ← registryRecord_eq]

theorem registryLine_noControl (json : Bytes) : NoControl (registryLine json) := by
  apply NoControl.append (noControl_literal (by decide))
  exact (writeJsonString_noControl json).append (noControl_literal (by decide))

theorem registryLine_inj {json json' : Bytes} (h : registryLine json = registryLine json') : json = json' :=
  (writeJsonString_append_inj (List.append_cancel_left h)).1

theorem emitPtySessionRecord_stdout (env : Env) (h : State) (i : Nat) (name : Bytes) :
    (emitPtySessionRecord env h i name).stdout = h.stdout ++
      (sessionLine env.saveOutputPath (h.table.tags i).value (h.ptyData i).deviceName name ++ [0x0a]) := by
  rw [← ptySessionRecord_eq]
  rfl

/-- Written strings are quoted, escaped and read back as they were; records are single lines, and
distinct names, paths and registry texts give distinct records. -/
theorem json_output_faithful :
    (∀ s, writeJsonString s = 0x22 :: s.flatMap jsonEscapeByte ++ [0x22] ∧ Escaped (s.flatMap jsonEscapeByte) ∧
      NoControl (writeJsonString s) ∧ ∀ rest, readString (writeJsonString s ++ rest) = some (s, rest)) ∧
    (∀ save value device name save' value' device' name',
      ptySessionRecord save value device name = ptySessionRecord save' value' device' name' →
        name = name' ∧ device = device' ∧ recordLogPath save name = recordLogPath save' name') ∧
    (∀ env h i name, ∃ line, NoControl line ∧ (emitPtySessionRecord env h i name).stdout = h.stdout ++ (line ++ [0x0a])) ∧
    ∀ h json, h.virtiosoRegistryJson = some json → ∃ line, NoControl line ∧
      (emitVirtiosoRegistryRecord h).stdout = h.stdout ++ (line ++ [0x0a]) ∧
      ∀ h' json', h'.virtiosoRegistryJson = some json' →
        (emitVirtiosoRegistryRecord h').stdout = h'.stdout ++ (line ++ [0x0a]) → json' = json := by
  refine ⟨?_, fun _ _ _ _ _ _ _ _ => ptySessionRecord_inj, ?_, ?_⟩
  · intro s
    exact ⟨rfl, writeJsonString_escaped s, writeJsonString_noControl s, readString_writeJsonString s⟩
  · intro env h i name
    exact ⟨_, sessionLine_noControl _ _ _ _, emitPtySessionRecord_stdout env h i name⟩
  · intro h json hjson
    refine ⟨registryLine json, registryLine_noControl json, emitVirtiosoRegistryRecord_stdout hjson, ?_⟩
    intro h' json' hjson' heq
    rw [emitVirtiosoRegistryRecord_stdout hjson'] at heq
    exact registryLine_inj (List.append_cancel_right (List.append_cancel_left heq))

def brokenRegistry : Bytes := ascii "\x7b\"streams\":\n[]\x7d"

/-- A registry whose text has quotes and a line break is printed with the escapes, on one line, and
another text does not share its record with it. -/
theorem json_output_faithful_brokenRegistry :
    writeJsonString brokenRegistry = ascii "\"\x7b\\\"streams\\\":\\n[]\x7d\"" ∧
      readString (writeJsonString brokenRegistry) = some (brokenRegistry, []) ∧
    ∃ line, NoControl line ∧
      (emitVirtiosoRegistryRecord { start quietEnv with virtiosoRegistryJson := some brokenRegistry }).stdout =
        (start quietEnv).stdout ++ (line ++ [0x0a]) ∧
      (emitVirtiosoRegistryRecord { start quietEnv with virtiosoRegistryJson := some (ascii "[]") }).stdout ≠
        (start quietEnv).stdout ++ (line ++ [0x0a]) := by
  obtain ⟨hstring, -, -, hregistry⟩ := json_output_faithful
  obtain ⟨line, hline, hout, hinj⟩ :=
    hregistry { start quietEnv with virtiosoRegistryJson := some brokenRegistry } brokenRegistry rfl
  refine ⟨by decide, ?_, line, hline, hout, fun heq => ?_⟩
  · have hread := (hstring brokenRegistry).2.2.2 []
    rwa [List.append_nil] at hread
  · exact absurd (hinj { start quietEnv with virtiosoRegistryJson := some (ascii "[]") } (ascii "[]") rfl heq) (by decide)

end VirtiosoMux.Host
