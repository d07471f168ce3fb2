import GenieSdk.Lib.Bytes
import GenieSdk.Model.Kernel

/-!
# The ring buffer of `k_ringbuf.c`

`KRingBuf` is `k_ringbuf_t`: four pointers into one byte memory, the number of free bytes,
the type and the block size. The memory itself is passed next to it. A source buffer is
given by the bytes found from its pointer on, because the fixed-size path copies `blk_size`
bytes whatever the length argument says.
-/

set_option autoImplicit false

namespace GenieSdk.Model

open GenieSdk.Lib

/-- `RINGBUF_TYPE_FIX` and `RINGBUF_TYPE_DYN` (k_ringbuf.h). -/
inductive RingBufType
  | fix
  | dyn
  deriving DecidableEq, Repr

/-- `k_ringbuf_t` (k_ringbuf.h); `bufEnd` is the field `end`. -/
structure KRingBuf where
  buf : ℕ
  bufEnd : ℕ
  head : ℕ
  tail : ℕ
  freesize : ℕ
  type : RingBufType
  blkSize : ℕ
  deriving DecidableEq, Repr

/-- `RING_BUF_LEN`, the size of the length word of a dynamic message. -/
def ringBufLen : ℕ := 4

/-- `sizeof(k_ringbuf_t)`: seven words. -/
def ringbufStructSize : ℕ := 28

/-- `ringbuf_reset` (k_ringbuf.c:202-209). -/
def ringbufReset (r : KRingBuf) : KRingBuf :=
  { r with head := r.buf, tail := r.buf, freesize := subSize r.bufEnd r.buf }

/-- `ringbuf_init` (k_ringbuf.c:9-21). -/
def ringbufInit (buf len : ℕ) (type : RingBufType) (blockSize : ℕ) : KRingBuf :=
  ringbufReset
    { buf := buf, bufEnd := buf + len, head := 0, tail := 0, freesize := 0,
      type := type, blkSize := blockSize }

/-- `ringbuf_is_empty` (k_ringbuf.c:192-199). -/
def ringbufIsEmpty (r : KRingBuf) : Bool := r.freesize == subSize r.bufEnd r.buf

/-- A tail resting on `end` goes back to `buf` (k_ringbuf.c:35-37, 56-58, 80-82). -/
def wrapTail (r : KRingBuf) : KRingBuf :=
  if r.tail = r.bufEnd then { r with tail := r.buf } else r

/-- A head resting on `end` goes back to `buf` (k_ringbuf.c:115-117, 132-134, 156-158). -/
def wrapHead (r : KRingBuf) : KRingBuf :=
  if r.head = r.bufEnd then { r with head := r.buf } else r

/-- Copy `bs` to the tail in one piece. -/
def putChunk (r : KRingBuf) (mem : Mem) (bs : List UInt8) : KRingBuf × Mem :=
  ({ r with tail := r.tail + bs.length, freesize := subSize r.freesize bs.length },
    writeBytes mem r.tail bs)

/-- Copy `bs` to the tail, in two pieces when the end of the buffer cuts it: the code of
lines 56-75 for the length word and of lines 80-96 for the payload. -/
def ringbufPut (r : KRingBuf) (mem : Mem) (bs : List UInt8) : KRingBuf × Mem :=
  let r := wrapTail r
  let splitLen := subSize r.bufEnd r.tail
  if r.head ≤ r.tail ∧ splitLen < bs.length ∧ 0 < splitLen then
    let (r, mem) := putChunk r mem (bs.take splitLen)
    putChunk { r with tail := r.buf } mem (bs.drop splitLen)
  else
    putChunk r mem bs

/-- `ringbuf_push` (k_ringbuf.c:23-100); `data` are the bytes from the message pointer on. -/
def ringbufPush (r : KRingBuf) (mem : Mem) (data : Mem) (len : ℕ) : KStat × KRingBuf × Mem :=
  match r.type with
  | .fix =>
    if r.freesize < r.blkSize then (.ringbufFull, r, mem)
    else (.success, putChunk (wrapTail r) mem (readBytes data 0 r.blkSize))
  | .dyn =>
    if len = 0 ∨ sizeRange - 1 ≤ len then (.invParam, r, mem)
    else if r.freesize < addSize ringBufLen len then (.ringbufFull, r, mem)
    else
      let (r, mem) := ringbufPut r mem (leBytes ringBufLen len)
      (.success, ringbufPut r mem (readBytes data 0 len))

/-- Copy `n` bytes from the head in one piece. -/
def getChunk (r : KRingBuf) (mem : Mem) (n : ℕ) : List UInt8 × KRingBuf :=
  (readBytes mem r.head n,
    { r with head := r.head + n, freesize := addSize r.freesize n })

/-- The length word of the message at the head (k_ringbuf.c:130-153). -/
def popLen (r : KRingBuf) (mem : Mem) : List UInt8 × KRingBuf :=
  let r := wrapHead r
  let splitLen := subSize r.bufEnd r.head
  if splitLen < ringBufLen ∧ 0 < splitLen then
    let (c₁, r) := getChunk r mem splitLen
    let (c₂, r) := getChunk { r with head := r.buf } mem (ringBufLen - splitLen)
    (c₁ ++ c₂, r)
  else
    getChunk r mem ringBufLen

/-- The payload of `len` bytes at the head (k_ringbuf.c:156-171): unlike in `popLen` the
copy is cut only if the head lies after the tail. -/
def popData (r : KRingBuf) (mem : Mem) (len : ℕ) : List UInt8 × KRingBuf :=
  let r := wrapHead r
  let splitLen := subSize r.bufEnd r.head
  if r.tail < r.head ∧ splitLen < len then
    let (d₁, r) := getChunk r mem splitLen
    let (d₂, r) := getChunk { r with head := r.buf } mem (len - splitLen)
    (d₁ ++ d₂, r)
  else
    getChunk r mem len

/-- `ringbuf_pop` (k_ringbuf.c:102-176): the status, the bytes stored at `pdata`, the length
stored at `plen` and the buffer. An empty buffer stores nothing. -/
def ringbufPop (r : KRingBuf) (mem : Mem) : KStat × Option (List UInt8 × ℕ) × KRingBuf :=
  if ringbufIsEmpty r then (.ringbufEmpty, none, r)
  else
    match r.type with
    | .fix =>
      let (bs, r) := getChunk (wrapHead r) mem r.blkSize
      (.success, some (bs, r.blkSize), r)
    | .dyn =>
      let (cLen, r) := popLen r mem
      let len := leVal cLen
      let (bs, r) := popData r mem len
      (.success, some (bs, len), r)

end GenieSdk.Model
