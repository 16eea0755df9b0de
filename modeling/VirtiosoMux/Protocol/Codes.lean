import Mathlib.Data.List.Basic
import Mathlib.Data.List.TakeWhile
import Mathlib.Logic.Function.Basic
import Mathlib.Data.Nat.Basic
import Mathlib.Order.Basic
import Mathlib.Tactic.Common
import Mathlib.Tactic.Simps.Basic

/-! # Protocol bytes of the two escape layers

The outer `0xff` layer is the NVIDIA TCU protocol, the inner `0xfe` layer is the
Virtual Channel Mux. Both directions and all four programs share these codes.
-/
namespace VirtiosoMux

abbrev Byte := UInt8
abbrev Bytes := List UInt8

def ascii (s : String) : Bytes := s.toList.map (fun c => UInt8.ofNat c.toNat)

/-- A C string stops at its first NUL. -/
def cString (b : Bytes) : Bytes := b.takeWhile (· != 0)

theorem cString_of_notMem {b : Bytes} (h : (0 : Byte) ∉ b) : cString b = b := by
  refine List.takeWhile_eq_self_iff.mpr ?_
  intro x hx
  have : x ≠ 0 := fun h0 => h (h0 ▸ hx)
  simpa using this

abbrev uartProtoEscStart : Byte := 0xff
abbrev uartProtoEscEsc : Byte := 0xff
abbrev uartProtoEscReset : Byte := 0xfd

abbrev vcmuxProtoEscStart : Byte := 0xfe
abbrev vcmuxProtoEscEsc : Byte := 0xfe
abbrev vcmuxProtoEscDefault : Byte := 0x00
abbrev vcmuxProtoEscControl : Byte := 0xfd

abbrev vcmuxProtoControlStreamConnected : Byte := 0x01
abbrev vcmuxProtoControlStreamRegistry : Byte := 0x02
abbrev vcmuxProtoControlDownlinkAck : Byte := 0x03
abbrev vcmuxProtoControlStreamDisconnected : Byte := 0x04

/-- The bytes that may not follow an escape as a stream identifier. -/
def Reserved (id : Byte) : Prop :=
  id = vcmuxProtoEscDefault ∨ id = vcmuxProtoEscControl ∨ id = vcmuxProtoEscStart

instance (id : Byte) : Decidable (Reserved id) := inferInstanceAs (Decidable (_ ∨ _ ∨ _))

theorem not_reserved_iff {id : Byte} :
    ¬ Reserved id ↔ id ≠ vcmuxProtoEscDefault ∧ id ≠ vcmuxProtoEscControl ∧ id ≠ vcmuxProtoEscStart := by
  simp only [Reserved, not_or]

theorem not_reserved_ofNat {n : Nat} (hlt : n < 256) (h0 : n ≠ 0) (h1 : n ≠ 0xfd) (h2 : n ≠ 0xfe) :
    ¬ Reserved (UInt8.ofNat n) := by
  have hne : ∀ m < 256, n ≠ m → UInt8.ofNat n ≠ UInt8.ofNat m := by
    intro m hm hnm heq
    have hnat := congrArg UInt8.toNat heq
    rw [UInt8.toNat_ofNat_of_lt' hlt, UInt8.toNat_ofNat_of_lt' hm] at hnat
    exact hnm hnat
  exact not_reserved_iff.mpr ⟨hne 0 (by omega) h0, hne 0xfd (by omega) h1, hne 0xfe (by omega) h2⟩

end VirtiosoMux
