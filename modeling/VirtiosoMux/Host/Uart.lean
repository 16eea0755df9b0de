import Mathlib
import VirtiosoMux.Host.State
import VirtiosoMux.Protocol.Wire
import VirtiosoMux.Library.Pieces

/-! # Writing to the UART

The functions of `tcu_com.c` from a PTY's input to the serial device, with the outcome of
every system call as an argument. A write may accept only a part of its buffer, and the
bytes it accepts have left the host whatever the caller makes of its result.
-/
namespace VirtiosoMux.Host
open ByteStuffing Pieces

def maxWriteChunkSize : Nat := 4096
def virtiosoDownlinkFragmentPayloadSize : Nat := 512

def einval : Int := 22
def enomem : Int := 12

/-- Outcome of the calls of one `putbuf_or_exit`: the poll times out, the write fails, or it
accepts up to `count` bytes and the drain that follows a complete write succeeds or not. -/
inductive PutbufIo
  | timedOut
  | failed
  | accepted (count : Nat) (drained : Bool)
deriving DecidableEq

def toInt32 (n : Nat) : Int := (n : Int).bmod (2 ^ 32)

def putbufOrExit (io : PutbufIo) (buf : Bytes) : Bytes × Int :=
  match io with
  | .timedOut => ([], -1)
  | .failed => ([], -1)
  | .accepted count drained =>
    let ret := min count buf.length
    if ret ≠ buf.length then (buf.take ret, toInt32 ret)
    else if drained then (buf, 0)
    else (buf, -1)

/-- The outcomes of the calls of one write: `malloc k` and `putbuf k` are those made for the
`k`-th piece of the data. -/
structure UartIo where
  malloc : Nat → Bool
  putbuf : Nat → PutbufIo

structure Uart where
  virtiosoModeEnabled : Bool
  virtiosoOuterMode : OuterMode
  virtiosoOuterTagIdx : Nat
  enableWriteRawPty : Bool
  tags : Nat → Tag
  ptyMaxCount : Nat
  rawPtyIdx : Nat

/-- The chunk loop common to both modes. `encode k piece` is the buffer built for the `k`-th
piece, or the error that ends the call before anything is written. -/
def writePieces (io : UartIo) (encode : Nat → Bytes → Except Int Bytes) : Nat → List Bytes → Bytes × Int
  | _, [] => ([], 0)
  | k, piece :: rest =>
    match encode k piece with
    | .error e => ([], e)
    | .ok buf =>
      let (accepted, r) := putbufOrExit (io.putbuf k) buf
      if r < 0 then (accepted, r)
      else
        let (more, result) := writePieces io encode (k + 1) rest
        (accepted ++ more, result)

def outerWrap (u : Uart) (bytes : Bytes) : Bytes :=
  [uartProtoEscStart, ((chipTags[u.virtiosoOuterTagIdx]?).getD Tag.cleared).value] ++
    bytes.flatMap (fun b => if b = uartProtoEscStart then [b, uartProtoEscEsc] else [b])

def carry (u : Uart) (bytes : Bytes) : Bytes :=
  match u.virtiosoOuterMode with
  | .nvidiaTcu => outerWrap u bytes
  | .raw => bytes

def innerFrame (value : Byte) (chunk : Bytes) : Bytes :=
  [vcmuxProtoEscStart, value] ++
    chunk.flatMap (fun b => if b = vcmuxProtoEscStart then [vcmuxProtoEscEsc, b] else [b]) ++
    [vcmuxProtoEscStart, vcmuxProtoEscDefault]

def writeVirtiosoDataToUart (u : Uart) (io : UartIo) (ptyIdx : Byte) (data : Bytes) : Bytes × Int :=
  if u.ptyMaxCount ≤ ptyIdx.toNat then ([], -einval)
  else if ptyIdx.toNat = u.rawPtyIdx ∨ ptyIdx.toNat = virtiosoDefaultPtyIdx then
    if !u.enableWriteRawPty then ([], 0)
    else
      match u.virtiosoOuterMode with
      | .nvidiaTcu => if io.malloc 0 then putbufOrExit (io.putbuf 0) (outerWrap u data) else ([], -enomem)
      | .raw => putbufOrExit (io.putbuf 0) data
  else
    writePieces io (fun k chunk =>
        if io.malloc k then .ok (carry u (innerFrame (u.tags ptyIdx.toNat).value chunk)) else .error (-enomem))
      0 (pieces virtiosoDownlinkFragmentPayloadSize data)

/-- `WRITE_BYTE_TO_ENCODED_BUF`, which refuses to run over the buffer. -/
def writeByteToEncodedBuf (buf : Bytes) (x : Byte) : Except Int Bytes :=
  if maxWriteChunkSize * 4 + 16 ≤ buf.length then .error (-enomem) else .ok (buf ++ [x])

/-- The tag before the first chunk; the raw PTY has none. -/
def writeLegacyHeader (u : Uart) (ptyIdx : Byte) (k : Nat) : Except Int Bytes :=
  if k = 0 ∧ ptyIdx.toNat ≠ u.rawPtyIdx then
    match writeByteToEncodedBuf [] uartProtoEscStart with
    | .error e => .error e
    | .ok buf => writeByteToEncodedBuf buf (u.tags ptyIdx.toNat).value
  else .ok []

def writeLegacyByte (u : Uart) (ptyIdx : Byte) (buf : Bytes) (b : Byte) : Except Int Bytes :=
  match writeByteToEncodedBuf buf b with
  | .error e => .error e
  | .ok buf =>
    if b = uartProtoEscStart ∧ ptyIdx.toNat ≠ u.rawPtyIdx then writeByteToEncodedBuf buf uartProtoEscEsc
    else .ok buf

def encodeLegacyChunk (u : Uart) (ptyIdx : Byte) (k : Nat) (chunk : Bytes) : Except Int Bytes :=
  match writeLegacyHeader u ptyIdx k with
  | .error e => .error e
  | .ok buf => chunk.foldlM (writeLegacyByte u ptyIdx) buf

def writeDataToUart (u : Uart) (io : UartIo) (ptyIdx : Byte) (data : Bytes) : Bytes × Int :=
  if u.virtiosoModeEnabled then writeVirtiosoDataToUart u io ptyIdx data
  else if u.ptyMaxCount ≤ ptyIdx.toNat then ([], -einval)
  else if ptyIdx.toNat = u.rawPtyIdx ∧ !u.enableWriteRawPty then ([], 0)
  else if !io.malloc 0 then ([], -enomem)
  else writePieces io (encodeLegacyChunk u ptyIdx) 0 (pieces maxWriteChunkSize data)

end VirtiosoMux.Host
