import GenieSdk.Lib.Bytes

/-!
# The byte FIFO of `k_fifo.c`

`KFifo` is `struct k_fifo`: two counters that run freely through the 32-bit range, the mask, the
buffer, and the number of free bytes. The memory is passed next to it. A source buffer is given by the
bytes found from its pointer on; what goes to a destination buffer is returned.
-/

set_option autoImplicit false

namespace GenieSdk.Model

open GenieSdk.Lib

/-- `struct k_fifo` (k_fifo.h); `inPos` and `outPos` are the fields `in` and `out`. -/
structure KFifo where
  inPos : UInt32
  outPos : UInt32
  mask : UInt32
  data : ℕ
  freeBytes : UInt32
  size : UInt32
  deriving DecidableEq, Repr

/-- SRCLINE: k_fifo.c:11-14 -/
def fifoUnused (fifo : KFifo) : UInt32 := (fifo.mask + 1) - (fifo.inPos - fifo.outPos)

/-- SRCLINE: k_fifo.c:16-19 -/
def isPowerOf2 (n : UInt32) : Bool := n != 0 && (n &&& (n - 1)) == 0

/-- What it returns, and the FIFO. SRCLINE: k_fifo.c:21-46 -/
def fifoInit (fifo : KFifo) (buffer : ℕ) (size : UInt32) : ℕ × KFifo :=
  if ¬ isPowerOf2 size then (1, fifo)
  else
    let fifo := { fifo with inPos := 0, outPos := 0, data := buffer }
    if size < 2 then (1, { fifo with mask := 0 })
    else (0, { fifo with mask := size - 1, freeBytes := size, size := size })

/-- `fifo_min` (k_fifo.h) -/
def fifoMin (x y : UInt32) : UInt32 := if x > y then y else x

/-- SRCLINE: k_fifo.c:48-63 -/
def fifoCopyIn (fifo : KFifo) (mem : Mem) (src : Mem) (len off : UInt32) : Mem :=
  let size := fifo.mask + 1
  let off := off &&& fifo.mask
  let l := fifoMin len (size - off)
  writeBytes (writeBytes mem (fifo.data + off.toNat) (readBytes src 0 l.toNat)) fifo.data
    (readBytes src l.toNat (len - l).toNat)

/-- SRCLINE: k_fifo.c:65-86 -/
def fifoIn (s : KFifo × Mem) (buf : Mem) (len : UInt32) : UInt32 × (KFifo × Mem) :=
  let (fifo, mem) := s
  let l := fifoUnused fifo
  let len := if len > l then l else len
  (len, { fifo with inPos := fifo.inPos + len, freeBytes := fifo.freeBytes - len },
    fifoCopyIn fifo mem buf len fifo.inPos)

/-- SRCLINE: k_fifo.c:88-101 -/
def kfifoCopyOut (fifo : KFifo) (mem : Mem) (len off : UInt32) : List UInt8 :=
  let size := fifo.mask + 1
  let off := off &&& fifo.mask
  let l := fifoMin len (size - off)
  readBytes mem (fifo.data + off.toNat) l.toNat ++ readBytes mem fifo.data (len - l).toNat

/-- SRCLINE: k_fifo.c:103-116 -/
def internalFifoOutPeek (s : KFifo × Mem) (len : UInt32) : UInt32 × List UInt8 :=
  let (fifo, mem) := s
  let l := fifo.inPos - fifo.outPos
  let len := if len > l then l else len
  (len, kfifoCopyOut fifo mem len fifo.outPos)

/-- SRCLINE: k_fifo.c:118-134 -/
def fifoOutPeek (s : KFifo × Mem) (len : UInt32) : UInt32 × List UInt8 := internalFifoOutPeek s len

/-- The counters after `len` bytes have gone out. -/
def fifoTake (s : KFifo × Mem) (len : UInt32) : KFifo × Mem :=
  ({ s.1 with outPos := s.1.outPos + len, freeBytes := s.1.freeBytes + len }, s.2)

/-- SRCLINE: k_fifo.c:136-150 -/
def fifoOut (s : KFifo × Mem) (len : UInt32) : (UInt32 × List UInt8) × (KFifo × Mem) :=
  let r := internalFifoOutPeek s len
  (r, fifoTake s r.1)

/-- SRCLINE: k_fifo.c:152-176 -/
def fifoOutAll (s : KFifo × Mem) : (UInt32 × List UInt8) × (KFifo × Mem) :=
  let len := s.1.size - s.1.freeBytes
  if len = 0 then ((0, []), s)
  else
    let r := internalFifoOutPeek s len
    (r, fifoTake s r.1)

end GenieSdk.Model
