import VirtiosoMux.Protocol.Wire

/-! # Frame encoders of `virtioso-mux-proto`

The two encoders push onto an output vector. In a release build the assertion of the
data encoder is absent, so it encodes any identifier.
-/
namespace VirtiosoMux.Muxd
open ByteStuffing

def encodeDataFrame (streamId : Byte) (payload out : Bytes) : Bytes :=
  let out := out ++ [vcmuxProtoEscStart] ++ [streamId]
  let out := payload.foldl
    (fun out b => (if b = vcmuxProtoEscStart then out ++ [vcmuxProtoEscStart] else out) ++ [b]) out
  out ++ [vcmuxProtoEscStart] ++ [vcmuxProtoEscDefault]

def encodeControlFrame (ctrlType streamId : Byte) (name out : Bytes) : Bytes :=
  let payloadLen := min (1 + name.length) 0xffff
  let lenHi := UInt8.ofNat (payloadLen >>> 8)
  let lenLo := UInt8.ofNat payloadLen
  let out := out ++ [vcmuxProtoEscStart] ++ [vcmuxProtoEscControl] ++ [ctrlType] ++ [lenHi] ++ [lenLo] ++ [streamId]
  let nameLen := payloadLen - 1
  out ++ name.take nameLen

/-- The payload loop of the data encoder pushes the stuffed payload. -/
theorem payloadLoop_eq (payload out : Bytes) :
    payload.foldl (fun out b => (if b = vcmuxProtoEscStart then out ++ [vcmuxProtoEscStart] else out) ++ [b]) out =
      out ++ stuff vcmuxProtoEscStart payload := by
  induction payload generalizing out with
  | nil => simp
  | cons b bs ih =>
    rw [List.foldl_cons, ih]
    by_cases h : b = vcmuxProtoEscStart <;> simp [h]

theorem encodeDataFrame_eq (id : Byte) (payload out : Bytes) :
    encodeDataFrame id payload out = out ++ frameBytes id payload := by
  simp only [encodeDataFrame, payloadLoop_eq, frameBytes, List.append_assoc, List.cons_append, List.nil_append]

/-- A name is cut so that the record length fits its two bytes. -/
theorem encodeControlFrame_eq (kind id : Byte) (name out : Bytes) :
    encodeControlFrame kind id name out = out ++ recordBytes kind (id :: name.take 65534) := by
  have hlen : min (1 + name.length) 65535 = (id :: name.take 65534).length := by
    simp only [List.length_cons, List.length_take]; omega
  have htake : name.take (min (1 + name.length) 65535 - 1) = name.take 65534 := by
    rcases Nat.le_total name.length 65534 with h | h
    · rw [List.take_of_length_le (by omega), List.take_of_length_le h]
    · congr 1; omega
  simp only [encodeControlFrame, htake]
  rw [hlen]
  simp [recordBytes, VirtiosoMux.lenHi, VirtiosoMux.lenLo]

end VirtiosoMux.Muxd
