import VirtiosoMux.Protocol.Codes
import VirtiosoMux.Library.ByteStuffing

/-! # Wire images of the inner protocol

What one frame and one control record look like on the wire. The encoders of the three
programs are proved to produce these images, and the decoders to read them.
-/
namespace VirtiosoMux
open ByteStuffing

def frameBytes (id : Byte) (payload : Bytes) : Bytes :=
  [vcmuxProtoEscStart, id] ++ stuff vcmuxProtoEscStart payload ++ [vcmuxProtoEscStart, vcmuxProtoEscDefault]

def ackBytes : Bytes := [vcmuxProtoEscStart, vcmuxProtoEscControl, vcmuxProtoControlDownlinkAck]

def lenHi (n : Nat) : Byte := UInt8.ofNat (n >>> 8)
def lenLo (n : Nat) : Byte := UInt8.ofNat n

def recordBytes (kind : Byte) (payload : Bytes) : Bytes :=
  [vcmuxProtoEscStart, vcmuxProtoEscControl, kind, lenHi payload.length, lenLo payload.length] ++ payload

theorem len_bytes {n : Nat} (hn : n < 65536) : ((lenHi n).toNat <<< 8) ||| (lenLo n).toNat = n := by
  have hhi : (lenHi n).toNat = n / 256 := by
    simp only [lenHi, UInt8.toNat_ofNat', Nat.shiftRight_eq_div_pow]
    omega
  have hlo : (lenLo n).toNat = n % 256 := by simp [lenLo]
  rw [hhi, hlo, ← Nat.shiftLeft_add_eq_or_of_lt (by omega), Nat.shiftLeft_eq]
  omega

/-- The payload of a data frame, read back from its wire image. -/
def framePayload (w : Bytes) : Bytes := unstuff vcmuxProtoEscStart (w.drop 2)

theorem framePayload_frameBytes (id : Byte) (p : Bytes) : framePayload (frameBytes id p) = p := by
  have hne : vcmuxProtoEscDefault ≠ vcmuxProtoEscStart := by decide
  simpa [framePayload, frameBytes] using unstuff_stuff_append vcmuxProtoEscStart hne p []

end VirtiosoMux
