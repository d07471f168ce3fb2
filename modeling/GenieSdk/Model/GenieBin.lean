import Mathlib.Data.List.GetD
import Mathlib.Tactic

/-!
# The binary protocol

The frames between the module and its MCU, and the mesh messages that go down to the MCU in them.
-/

set_option autoImplicit false

namespace GenieSdk.Model

def genieBinOpcodeData : UInt16 := 0xFF00

def genieBinOpcodeCmd : UInt16 := 0xFE00

def genieBinMinDataLen : ℕ := 5

/-- The bytes that go out on the UART; there are `len` bytes at `p_data` at least.
SRCLINE: genie_bin_cmds.c:9-28 -/
def genieBinCmdsSend (opcode : UInt16) (data : List UInt8) (len : UInt16) : List UInt8 :=
  let checksum := (len >>> 8).toUInt8 + (len &&& 0xFF).toUInt8
  [(opcode >>> 8).toUInt8, (opcode &&& 0xFF).toUInt8, (len >>> 8).toUInt8, (len &&& 0xFF).toUInt8] ++
    data.take len.toNat ++ [(data.take len.toNat).foldl (· + ·) checksum]

/-- What becomes of the bytes that came in. -/
inductive BinReply
  | ignored
  | error (code : UInt8)
  | dispatched (opcode len : UInt16) (payload : List UInt8)
  deriving DecidableEq

/-- `p` are the `data_len` bytes at `p_data`. Both of the functions that are dispatched to take the length
from the frame and the payload behind it. SRCLINE: genie_bin_cmds.c:380-429 -/
def genieBinCmdsHandle (p : List UInt8) : BinReply :=
  let byte := fun i => p.getD i 0
  let dataLen := p.length
  if 0 < dataLen ∧ byte 0 ≠ 0xFF ∧ byte 0 ≠ 0xFE then .ignored
  else if dataLen < genieBinMinDataLen then .error 0x01
  else
    let len : UInt16 := (byte 3).toUInt16 + (byte 2).toUInt16 <<< 8
    if len.toNat ≠ dataLen - 5 then .error 0x02
    else
      let payload := (p.drop 4).take len.toNat
      if payload.foldl (· + ·) (byte 2 + byte 3) ≠ byte (dataLen - 1) then .error 0x03
      else
        let opcode := (byte 0).toUInt16 <<< 8 ||| (byte 1).toUInt16
        if opcode = genieBinOpcodeData ∨ opcode = genieBinOpcodeCmd then .dispatched opcode len payload
        else .ignored

/-- A mesh message on its way to the MCU. -/
inductive DownMesg
  | vendor (opid tid : UInt8) (data : List UInt8)
  | sig (data : List UInt8)

/-- The bytes that are built from the message; `data_len` is their number, in 16 bits.
SRCLINE: genie_event.c:266-332 -/
def genieDownMsgData (opcode : UInt32) : DownMesg → List UInt8
  | .vendor opid tid data => [opid, opcode.toUInt8, (opcode >>> 8).toUInt8, tid] ++ data
  | .sig data =>
    if opcode < 0x7F then [(opcode &&& 0xFF).toUInt8] ++ data
    else [((opcode >>> 8) &&& 0xFF).toUInt8, (opcode &&& 0xFF).toUInt8] ++ data

/-- The length is an `uint8_t`. SRCLINE: genie_bin_cmds.c:463-466 -/
def genieBinCmdsSendDataToMcu (data : List UInt8) (len : UInt8) : List UInt8 :=
  genieBinCmdsSend genieBinOpcodeData data len.toUInt16

/-- The frame that a message goes down in. SRCLINE: genie_event.c:334-336 -/
def genieDownMsgFrame (opcode : UInt32) (mesg : DownMesg) : List UInt8 :=
  let data := genieDownMsgData opcode mesg
  let dataLen := UInt16.ofNat data.length
  genieBinCmdsSendDataToMcu data dataLen.toUInt8

end GenieSdk.Model
