import GenieSdk.Model.Bitmap
import GenieSdk.Model.Kernel

/-!
# The heap allocator

`k_mm.c` with `RHINO_CONFIG_MM_DEBUG` and the fixed-block pool of `k_mm_blk.c`, which the
allocator keeps inside one of its own blocks. Memory is a map from byte addresses to 32-bit
words. A block header occupies four words, `dye`, `owner`, `prev` and `buf_size`; the two words
after it are the buffer's first words, or the links of the free list the block is filed in.

A result `none` means that the call reaches `k_err_proc`, or a loop that does not end.
-/

set_option autoImplicit false

namespace GenieSdk.Model

/-- The compile-time configuration of the heap. -/
structure MmConfig where
  /-- `RHINO_CONFIG_MM_MAXMSIZEBIT` -/
  maxBit : ℕ
  /-- `RHINO_CONFIG_MM_QUICK` -/
  quick : Bool
  /-- `RHINO_CONFIG_MM_BLK`: whether the fixed pool is compiled in -/
  blk : Bool
  /-- `RHINO_CONFIG_MM_TLF_BLK_SIZE` -/
  tlfBlkSize : ℕ
  /-- `sizeof(k_mm_head)` -/
  headSize : ℕ
  /-- `sizeof(mblk_pool_t)` -/
  poolHdrSize : ℕ
  minBit_le : 6 ≤ maxBit
  maxBit_le : maxBit ≤ 30
  tlfBlkSize_le : tlfBlkSize ≤ 2 ^ 30
  /-- a whole number of blocks of the pool, as in every configuration of the repository -/
  tlfBlkSize_dvd : tlfBlkSize % 32 = 0
  headSize_le : headSize ≤ 896
  poolHdrSize_le : poolHdrSize ≤ 128

/-- `RHINO_CONFIG_MM_MINISIZEBIT` -/
def mmMinBit : ℕ := 6

/-- `MM_MIN_SIZE` -/
def mmMinSize : ℕ := 32

/-- `RHINO_CONFIG_MM_BLK_SIZE` -/
def mmBlkSize : ℕ := 32

/-- `MMLIST_HEAD_SIZE` -/
def mmlistHeadSize : ℕ := 16

def MmConfig.bitLevel (cfg : MmConfig) : ℕ := cfg.maxBit - mmMinBit + 2

def MmConfig.maxSize (cfg : MmConfig) : ℕ := 2 ^ cfg.maxBit

def mmCorruptDye : ℕ := 0xFEFEFEFE

def mmFreeDye : ℕ := 0xABABABAB

/-- `MM_ALIGN_UP`: the sum wraps before it is rounded. SRCLINE: k_mm.h:18 -/
def mmAlignUp (a : ℕ) : ℕ := addSize a 7 / 8 * 8

def mmAlignDown (a : ℕ) : ℕ := a / 8 * 8

/-- `none` stands for -1. SRCLINE: k_mm.c:77-91 -/
def sizeToLevel (cfg : MmConfig) (size : ℕ) : Option ℕ :=
  let cnt := 32 - krhinoClz32 size
  if cnt < mmMinBit then some 0
  else if cfg.maxBit < cnt then none
  else some (cnt - mmMinBit)

/-- Memory, as words at byte addresses. -/
abbrev Words := ℕ → ℕ

def setWord (m : Words) (a v : ℕ) : Words := fun b => if b = a then v else m b

/-- `memset(addr, 0, len)` in the 32-bit address space. -/
def zeroWords (m : Words) (addr len : ℕ) : Words := fun b => if subSize b addr < len then 0 else m b

/-- `memcpy(dst, src, len)`. -/
def copyWords (m : Words) (dst src len : ℕ) : Words :=
  fun b => if dst ≤ b ∧ b < dst + len then m (src + (b - dst)) else m b

/-- `MM_GET_BUF_SIZE`: `buf_size` without its three status bits. -/
def mmGetBufSize (m : Words) (b : ℕ) : ℕ := m (b + 12) / 8 * 8

def mmGetBlkSize (m : Words) (b : ℕ) : ℕ := mmGetBufSize m b + mmlistHeadSize

def mmGetNextBlk (m : Words) (b : ℕ) : ℕ := addSize (b + mmlistHeadSize) (mmGetBufSize m b)

def mmGetThisBlk (buf : ℕ) : ℕ := buf - mmlistHeadSize

/-- `buf_size & RHINO_MM_FREE` -/
def mmIsFree (w : ℕ) : Bool := w % 2 = 1

/-- `buf_size & RHINO_MM_PREVFREE` -/
def mmIsPrevFree (w : ℕ) : Bool := w / 2 % 2 = 1

/-- `buf_size | RHINO_MM_FREE` -/
def mmSetFree (w : ℕ) : ℕ := w / 2 * 2 + 1

/-- `buf_size & ~RHINO_MM_FREE` -/
def mmClearFree (w : ℕ) : ℕ := w / 2 * 2

/-- `buf_size | RHINO_MM_PREVFREE` -/
def mmSetPrevFree (w : ℕ) : ℕ := w / 4 * 4 + 2 + w % 2

/-- `buf_size & ~RHINO_MM_PREVFREE` -/
def mmClearPrevFree (w : ℕ) : ℕ := w / 4 * 4 + w % 2

/-- `size | (buf_size & RHINO_MM_PRESTAT_MASK)` for an aligned `size`. -/
def mmKeepPrevStat (size w : ℕ) : ℕ := size + w / 2 % 2 * 2

/-- `mblk_pool_t` without its name, lock and statistics link. -/
structure MblkPool where
  poolStart : ℕ
  poolEnd : ℕ
  blkSize : ℕ
  blkAvail : ℕ
  blkWhole : ℕ
  availList : ℕ

/-- `k_mm_head` and the memory it manages. -/
structure MmHead where
  mem : Words
  regioninfo : ℕ
  /-- `fix_pool`, 0 for `NULL`; the pool it points to is `pool`. -/
  fixPool : ℕ
  pool : MblkPool
  usedSize : ℕ
  maxusedSize : ℕ
  freeSize : ℕ
  allocTimes : ℕ → ℕ
  freeBitmap : ℕ
  freelist : ℕ → ℕ

def setAt (f : ℕ → ℕ) (i v : ℕ) : ℕ → ℕ := fun j => if j = i then v else f j

/-- SRCLINE: k_mm.c:94-115 -/
def addsize (cfg : MmConfig) (s : MmHead) (size reqSize : ℕ) : MmHead :=
  let freeSize := if size < s.freeSize then s.freeSize - size else 0
  let usedSize := addSize s.usedSize size
  let maxusedSize := if s.maxusedSize < usedSize then usedSize else s.maxusedSize
  let allocTimes :=
    if 0 < reqSize then
      match sizeToLevel cfg reqSize with
      | none => s.allocTimes
      | some level => setAt s.allocTimes level (addSize (s.allocTimes level) 1)
    else s.allocTimes
  { s with
    freeSize := freeSize, usedSize := usedSize, maxusedSize := maxusedSize,
    allocTimes := allocTimes }

/-- SRCLINE: k_mm.c:117-125 -/
def removesize (s : MmHead) (size : ℕ) : MmHead :=
  { s with
    usedSize := if size < s.usedSize then s.usedSize - size else 0
    freeSize := addSize s.freeSize size }

/-- SRCLINE: k_mm.c:325-347 -/
def kMmFreelistInsert (cfg : MmConfig) (s : MmHead) (blk : ℕ) : MmHead :=
  match sizeToLevel cfg (mmGetBufSize s.mem blk) with
  | none => s
  | some level =>
    if cfg.bitLevel ≤ level then s
    else
      let head := s.freelist level
      let m := setWord (setWord s.mem (blk + 16) 0) (blk + 20) head
      let m := if head ≠ 0 then setWord m (head + 16) blk else m
      { s with
        mem := m
        freelist := setAt s.freelist level blk
        freeBitmap := s.freeBitmap ||| 2 ^ level }

/-- SRCLINE: k_mm.c:350-377 -/
def kMmFreelistDelete (cfg : MmConfig) (s : MmHead) (blk : ℕ) : MmHead :=
  match sizeToLevel cfg (mmGetBufSize s.mem blk) with
  | none => s
  | some level =>
    if cfg.bitLevel ≤ level then s
    else
      let m := s.mem
      let m := if m (blk + 20) ≠ 0 then setWord m (m (blk + 20) + 16) (m (blk + 16)) else m
      let m := if m (blk + 16) ≠ 0 then setWord m (m (blk + 16) + 20) (m (blk + 20)) else m
      let freelist :=
        if s.freelist level = blk then setAt s.freelist level (m (blk + 20)) else s.freelist
      let freeBitmap :=
        if s.freelist level = blk ∧ m (blk + 20) = 0 then
          s.freeBitmap &&& (0xFFFFFFFF ^^^ 2 ^ level)
        else s.freeBitmap
      { s with
        mem := setWord (setWord m (blk + 16) 0) (blk + 20) 0
        freelist := freelist
        freeBitmap := freeBitmap }

/-- SRCLINE: k_mm.c:380-392 -/
def findUpLevel (cfg : MmConfig) (s : MmHead) (level : ℕ) : ℕ :=
  let bitmap := s.freeBitmap &&& (0xFFFFFFFF <<< (level + 1))
  let level := krhinoCtz32 bitmap
  if level < cfg.bitLevel then s.freelist level else 0

/-- The search of one free list: the first block of at least `size` bytes. A list that does not
end within the address space does not end at all. SRCLINE: k_mm.c:443-449 -/
def findInLevel (m : Words) (size : ℕ) : ℕ → ℕ → Option ℕ
  | 0, _ => none
  | fuel + 1, getB =>
    if getB = 0 then some 0
    else if size ≤ mmGetBufSize m getB then some getB
    else findInLevel m size fuel (m (getB + 20))

/-- SRCLINE: k_mm.c:438-477 -/
def findFreeBlk (cfg : MmConfig) (s : MmHead) (level size : ℕ) : Option ℕ :=
  if cfg.quick then
    let getB := findUpLevel cfg s level
    if getB = 0 then findInLevel s.mem size sizeRange (s.freelist level) else some getB
  else
    match findInLevel s.mem size sizeRange (s.freelist level) with
    | none => none
    | some getB => if getB = 0 then some (findUpLevel cfg s level) else some getB

/-- `*(uint8_t **)blk` of a free block of the pool is the next one. SRCLINE: k_mm_blk.c:81-106 -/
def krhinoMblkAlloc (s : MmHead) : Option (ℕ × MmHead) :=
  if 0 < s.pool.blkAvail then
    let availBlk := s.pool.availList
    let pool := { s.pool with availList := s.mem availBlk, blkAvail := s.pool.blkAvail - 1 }
    some (availBlk, { s with pool := pool })
  else none

/-- SRCLINE: k_mm_blk.c:108-126 -/
def krhinoMblkFree (s : MmHead) (blk : ℕ) : MmHead :=
  let mem := setWord s.mem blk s.pool.availList
  let pool := { s.pool with availList := blk, blkAvail := s.pool.blkAvail + 1 }
  { s with mem := mem, pool := pool }

/-- SRCLINE: k_mm_blk.h:57-60 -/
def krhinoMblkCheck (s : MmHead) (blk : ℕ) : Bool :=
  s.fixPool ≠ 0 ∧ s.pool.poolStart ≤ blk ∧ blk < s.pool.poolEnd

/-- SRCLINE: k_mm.c:288-306 -/
def kMmSmallblkAlloc (cfg : MmConfig) (s : MmHead) : ℕ × MmHead :=
  match krhinoMblkAlloc s with
  | none => (0, s)
  | some (tmp, s) => (tmp, addsize cfg s mmBlkSize 0)

/-- SRCLINE: k_mm.c:307-321 -/
def kMmSmallblkFree (s : MmHead) (ptr : ℕ) : MmHead :=
  removesize (krhinoMblkFree s ptr) mmBlkSize

/-- The part of `k_mm_alloc` after a block `getB` has been found. SRCLINE: k_mm.c:479-509 -/
def kMmTake (cfg : MmConfig) (s : MmHead) (getB size reqSize : ℕ) : ℕ × MmHead :=
  let s := kMmFreelistDelete cfg s getB
  let nextB := mmGetNextBlk s.mem getB
  let s :=
    if size + mmlistHeadSize + mmMinSize ≤ mmGetBufSize s.mem getB then
      let leftSize := mmGetBufSize s.mem getB - size - mmlistHeadSize
      let m := setWord s.mem (getB + 12) (mmKeepPrevStat size (s.mem (getB + 12)))
      let newB := mmGetNextBlk m getB
      let m := setWord m (newB + 8) getB
      let m := setWord m (newB + 12) (leftSize + 1)
      let m := setWord m newB mmFreeDye
      let m := setWord m (newB + 4) 0
      let m := setWord m (nextB + 8) newB
      kMmFreelistInsert cfg { s with mem := m } newB
    else { s with mem := setWord s.mem (nextB + 12) (mmClearPrevFree (s.mem (nextB + 12))) }
  let m := setWord s.mem (getB + 12) (mmClearFree (s.mem (getB + 12)))
  let m := setWord m getB mmCorruptDye
  let m := setWord m (getB + 4) 0
  let s := { s with mem := m }
  (getB + mmlistHeadSize, addsize cfg s (mmGetBlkSize s.mem getB) reqSize)

/-- `k_mm_alloc` past the fixed pool. SRCLINE: k_mm.c:430-515 -/
def kMmTlfAlloc (cfg : MmConfig) (s : MmHead) (reqSize : ℕ) : Option (ℕ × MmHead) :=
  let size := mmAlignUp reqSize
  let size := if size < mmMinSize then mmMinSize else size
  match sizeToLevel cfg size with
  | none => some (0, s)
  | some level =>
    match findFreeBlk cfg s level size with
    | none => none
    | some getB => if getB = 0 then some (0, s) else some (kMmTake cfg s getB size reqSize)

/-- SRCLINE: k_mm.c:394-516 -/
def kMmAlloc (cfg : MmConfig) (s : MmHead) (size : ℕ) : Option (ℕ × MmHead) :=
  if size = 0 then some (0, s)
  else if s.fixPool ≠ 0 ∧ size ≤ mmBlkSize ∧ 0 < s.pool.blkAvail then
    let (retptr, s) := kMmSmallblkAlloc cfg s
    if retptr ≠ 0 then some (retptr, s) else kMmTlfAlloc cfg s size
  else kMmTlfAlloc cfg s size

/-- "if the blk after this freed one is freed too, merge them" SRCLINE: k_mm.c:559-564 -/
def kMmMergeNext (cfg : MmConfig) (s : MmHead) (freeB : ℕ) : MmHead :=
  let nextB := mmGetNextBlk s.mem freeB
  if mmIsFree (s.mem (nextB + 12)) then
    let s := kMmFreelistDelete cfg s nextB
    { s with
      mem := setWord s.mem (freeB + 12) (addSize (s.mem (freeB + 12)) (mmGetBlkSize s.mem nextB)) }
  else s

/-- "if the blk before this freed one is freed too, merge them" SRCLINE: k_mm.c:566-580 -/
def kMmMergePrev (cfg : MmConfig) (s : MmHead) (freeB : ℕ) : Option (ℕ × MmHead) :=
  if mmIsPrevFree (s.mem (freeB + 12)) then
    let prevB := s.mem (freeB + 8)
    if s.mem prevB ≠ mmFreeDye then none
    else
      let s := kMmFreelistDelete cfg s prevB
      let m := setWord s.mem (prevB + 12) (addSize (s.mem (prevB + 12)) (mmGetBlkSize s.mem freeB))
      some (prevB, { s with mem := m })
  else some (freeB, s)

/-- "after merge, free to list" SRCLINE: k_mm.c:582-594 -/
def kMmFileFree (cfg : MmConfig) (s : MmHead) (freeB : ℕ) : Option MmHead :=
  let s := kMmFreelistInsert cfg s freeB
  let nextB := mmGetNextBlk s.mem freeB
  if s.mem nextB ≠ mmFreeDye ∧ s.mem nextB ≠ mmCorruptDye then none
  else
    let m := setWord s.mem (nextB + 8) freeB
    some { s with mem := setWord m (nextB + 12) (mmSetPrevFree (m (nextB + 12))) }

/-- SRCLINE: k_mm.c:517-595 -/
def kMmFree (cfg : MmConfig) (s : MmHead) (ptr : ℕ) : Option MmHead :=
  if ptr = 0 then some s
  else if krhinoMblkCheck s ptr then some (kMmSmallblkFree s ptr)
  else
    let freeB := mmGetThisBlk ptr
    if s.mem freeB = mmFreeDye then none
    else if s.mem freeB ≠ mmCorruptDye then none
    else
      let m := setWord s.mem freeB mmFreeDye
      let m := setWord m (freeB + 4) 0
      let m := setWord m (freeB + 12) (mmSetFree (m (freeB + 12)))
      let s := removesize { s with mem := m } (mmGetBlkSize m freeB)
      match kMmMergePrev cfg (kMmMergeNext cfg s freeB) freeB with
      | none => none
      | some (freeB, s) => kMmFileFree cfg s freeB

/-- The split of `k_mm_realloc`: what lies behind `newSize` bytes of `thisB`, up to `nextB`,
becomes a free block of `splitSize` bytes. SRCLINE: k_mm.c:660-676, 699-715 -/
def kMmReallocSplit (cfg : MmConfig) (s : MmHead) (thisB nextB newSize splitSize : ℕ) : MmHead :=
  let m := setWord s.mem (thisB + 12) (mmKeepPrevStat newSize (s.mem (thisB + 12)))
  let splitB := mmGetNextBlk m thisB
  let m := setWord m (splitB + 8) thisB
  let m := setWord m (splitB + 12) (splitSize + 1)
  let m := setWord m splitB mmFreeDye
  let m := setWord m (splitB + 4) 0
  let m := setWord m (nextB + 8) splitB
  let m := setWord m (nextB + 12) (mmSetPrevFree (m (nextB + 12)))
  kMmFreelistInsert cfg { s with mem := m } splitB

/-- `k_mm_realloc` when the block is large enough. SRCLINE: k_mm.c:649-678 -/
def kMmShrink (cfg : MmConfig) (s : MmHead) (thisB newSize reqSize : ℕ) : MmHead :=
  let oldSize := mmGetBufSize s.mem thisB
  let nextB := mmGetNextBlk s.mem thisB
  let s := removesize s (mmGetBlkSize s.mem thisB)
  let (s, oldSize, nextB) :=
    if mmIsFree (s.mem (nextB + 12)) then
      let s := kMmFreelistDelete cfg s nextB
      (s, addSize oldSize (mmGetBlkSize s.mem nextB), mmGetNextBlk s.mem nextB)
    else (s, oldSize, nextB)
  let s :=
    if newSize + mmlistHeadSize + mmMinSize ≤ oldSize then
      kMmReallocSplit cfg s thisB nextB newSize (oldSize - newSize - mmlistHeadSize)
    else s
  addsize cfg s (mmGetBlkSize s.mem thisB) reqSize

/-- `k_mm_realloc` into the free block behind. SRCLINE: k_mm.c:680-718 -/
def kMmEnlarge (cfg : MmConfig) (s : MmHead) (thisB newSize reqSize : ℕ) : MmHead :=
  let nextB := mmGetNextBlk s.mem thisB
  let s := removesize s (mmGetBlkSize s.mem thisB)
  let s := kMmFreelistDelete cfg s nextB
  let m := setWord s.mem (thisB + 12) (addSize (s.mem (thisB + 12)) (mmGetBlkSize s.mem nextB))
  let nextB := mmGetNextBlk m thisB
  let m := setWord m (nextB + 8) thisB
  let m := setWord m (nextB + 12) (mmClearPrevFree (m (nextB + 12)))
  let s := { s with mem := m }
  let s :=
    if newSize + mmlistHeadSize + mmMinSize ≤ mmGetBufSize s.mem thisB then
      kMmReallocSplit cfg s thisB nextB newSize
        (mmGetBufSize s.mem thisB - newSize - mmlistHeadSize)
    else s
  addsize cfg s (mmGetBlkSize s.mem thisB) reqSize

/-- SRCLINE: k_mm.c:597-738 -/
def kMmRealloc (cfg : MmConfig) (s : MmHead) (oldmem reqSize : ℕ) : Option (ℕ × MmHead) :=
  if oldmem = 0 then
    if 0 < reqSize then kMmAlloc cfg s reqSize else some (0, s)
  else if reqSize = 0 then (kMmFree cfg s oldmem).map (fun s => (0, s))
  else if krhinoMblkCheck s oldmem then
    if reqSize ≤ mmBlkSize then some (oldmem, s)
    else
      match kMmAlloc cfg s reqSize with
      | none => none
      | some (ptrAux, s) =>
        if ptrAux = 0 then some (0, s)
        else some (ptrAux, kMmSmallblkFree { s with mem := copyWords s.mem ptrAux oldmem mmBlkSize }
          oldmem)
  else
    let thisB := mmGetThisBlk oldmem
    let oldSize := mmGetBufSize s.mem thisB
    let nextB := mmGetNextBlk s.mem thisB
    let newSize := mmAlignUp reqSize
    let newSize := if newSize < mmMinSize then mmMinSize else newSize
    if newSize ≤ oldSize then
      let s := kMmShrink cfg s thisB newSize reqSize
      some (oldmem, { s with mem := setWord s.mem thisB mmCorruptDye })
    else if mmIsFree (s.mem (nextB + 12)) ∧ newSize ≤ addSize oldSize (mmGetBlkSize s.mem nextB) then
      let s := kMmEnlarge cfg s thisB newSize reqSize
      some (oldmem, { s with mem := setWord s.mem thisB mmCorruptDye })
    else
      match kMmAlloc cfg s newSize with
      | none => none
      | some (ptrAux, s) =>
        if ptrAux = 0 then some (0, s)
        else
          let bufSize := mmGetBufSize s.mem thisB
          let cpsize := if newSize < bufSize then newSize else bufSize
          (kMmFree cfg { s with mem := copyWords s.mem ptrAux oldmem cpsize } oldmem).map
            (fun s => (ptrAux, s))

/-- The three blocks of a fresh region. SRCLINE: k_mm.c:35-74 -/
def initMmRegion (m : Words) (regionaddr len : ℕ) : Words :=
  let firstblk := regionaddr
  let m := setWord m (firstblk + 8) 0
  let m := setWord m (firstblk + 12) 8
  let m := setWord m firstblk mmCorruptDye
  let m := setWord m (firstblk + 4) 0
  let lastblk := subSize (addSize regionaddr len) mmlistHeadSize
  let midblk := mmGetNextBlk m firstblk
  let m := setWord m (midblk + 12) (subSize lastblk (midblk + mmlistHeadSize))
  let m := setWord (setWord m (midblk + 16) 0) (midblk + 20) 0
  let m := setWord m (lastblk + 8) midblk
  let m := setWord m (lastblk + 12) 2
  let m := setWord m lastblk mmCorruptDye
  let m := setWord m (lastblk + 4) 0
  let region := firstblk + mmlistHeadSize
  let m := setWord m (region + 4) 0
  setWord m region lastblk

/-- The loop of `krhino_mblk_pool_init` links the blocks; it yields the last `blk_cur` and the
number of blocks linked. SRCLINE: k_mm_blk.c:46-61 -/
def mblkPoolLoop (m : Words) (blkSize poolEnd : ℕ) : ℕ → ℕ → ℕ → Option (Words × ℕ × ℕ)
  | 0, _, _ => none
  | fuel + 1, blkCur, blks =>
    let blkNext := addSize blkCur blkSize
    if blkNext < poolEnd then
      mblkPoolLoop (setWord m blkCur blkNext) blkSize poolEnd fuel blkNext (blks + 1)
    else some (m, blkCur, if blkNext = poolEnd then blks + 1 else blks)

/-- `none` when the loop does not end, `some none` when the parameters are refused.
SRCLINE: k_mm_blk.c:8-79 -/
def krhinoMblkPoolInit (m : Words) (poolStart blkSize poolSize : ℕ) :
    Option (Option (Words × MblkPool)) :=
  if poolSize < addSize blkSize blkSize then some none
  else if poolStart % 4 ≠ 0 ∨ blkSize % 4 ≠ 0 ∨ poolSize % 4 ≠ 0 then some none
  else
    let poolEnd := addSize poolStart poolSize
    match mblkPoolLoop m blkSize poolEnd sizeRange poolStart 0 with
    | none => none
    | some (m, blkCur, blks) =>
      some (some (setWord m blkCur 0,
        { poolStart := poolStart, poolEnd := poolEnd, blkSize := blkSize, blkAvail := blks,
          blkWhole := blks, availList := poolStart }))

/-- The fixed pool of a new heap. SRCLINE: k_mm.c:203-227 -/
def initFixPool (cfg : MmConfig) (s : MmHead) : Option MmHead :=
  match kMmAlloc cfg s (cfg.tlfBlkSize + mmAlignUp cfg.poolHdrSize) with
  | none => none
  | some (mmblkPool, s) =>
    if mmblkPool = 0 then some s
    else
      let poolStart := addSize mmblkPool (mmAlignUp cfg.poolHdrSize)
      match krhinoMblkPoolInit s.mem poolStart mmBlkSize cfg.tlfBlkSize with
      | none => none
      | some (some (m, pool)) =>
        let s := removesize { s with mem := m, fixPool := mmblkPool, pool := pool } cfg.tlfBlkSize
        some { s with maxusedSize := s.usedSize }
      | some none =>
        match kMmFree cfg s mmblkPool with
        | none => none
        | some s => some { s with maxusedSize := s.usedSize }

def emptyPool : MblkPool :=
  { poolStart := 0, poolEnd := 0, blkSize := 0, blkAvail := 0, blkWhole := 0, availList := 0 }

/-- A `k_mm_head` of zeroes. -/
def zeroMmHead (m : Words) : MmHead :=
  { mem := m, regioninfo := 0, fixPool := 0, pool := emptyPool, usedSize := 0, maxusedSize := 0,
    freeSize := 0, allocTimes := fun _ => 0, freeBitmap := 0, freelist := fun _ => 0 }

/-- SRCLINE: k_mm.c:136-230 -/
def krhinoInitMmHead (cfg : MmConfig) (mem : Words) (addr len : ℕ) : Option (Except KStat MmHead) :=
  if addr = 0 then some (.error .nullPtr)
  else
    let origAddr := addr
    let addr := mmAlignUp addr
    let len := mmAlignDown (subSize len (subSize addr origAddr))
    if len = 0 ∨ len < 1024 + cfg.tlfBlkSize ∨ cfg.maxSize < len then some (.error .mmPoolSizeErr)
    else
      let firstblk := addSize addr (mmAlignUp cfg.headSize)
      let m := initMmRegion mem firstblk (mmAlignDown (len - cfg.headSize))
      let nextblk := mmGetNextBlk m firstblk
      let m := setWord (setWord m nextblk mmCorruptDye) (nextblk + 4) 0
      let s : MmHead := { zeroMmHead m with regioninfo := firstblk + mmlistHeadSize }
      match kMmFree cfg s (nextblk + mmlistHeadSize) with
      | none => none
      | some s =>
        let used := subSize len (mmGetBufSize s.mem nextblk)
        let s :=
          { s with freeSize := mmGetBufSize s.mem nextblk, usedSize := used, maxusedSize := used }
        if cfg.blk then (initFixPool cfg s).map .ok else some (.ok s)

/-- The length `krhino_add_mm_region` works with; the subtraction wraps. SRCLINE: k_mm.c:254-257 -/
def addRegionLen (addr len : ℕ) : ℕ := mmAlignDown (subSize len (subSize (mmAlignUp addr) addr))

/-- `memset(addr, 0, len)`, which also clears the heap's own `k_mm_head` at `mmhead` if that lies
in the range. SRCLINE: k_mm.c:263 -/
def zeroHeap (s : MmHead) (mmhead addr len : ℕ) : MmHead :=
  let m := zeroWords s.mem addr len
  if subSize mmhead addr < len then zeroMmHead m else { s with mem := m }

/-- `mmhead` is the address of the `k_mm_head` `s`. SRCLINE: k_mm.c:244-286 -/
def krhinoAddMmRegion (cfg : MmConfig) (mmhead : ℕ) (s : MmHead) (addr len : ℕ) :
    Option (KStat × MmHead) :=
  if mmhead = 0 ∨ addr = 0 then some (.nullPtr, s)
  else
    let origAddr := addr
    let addr := mmAlignUp addr
    let len := addRegionLen origAddr len
    if len = 0 ∨ len < 8 + mmlistHeadSize * 3 + mmMinSize then some (.mmPoolSizeErr, s)
    else
      let s := zeroHeap s mmhead addr len
      let m := initMmRegion s.mem addr len
      let nextblk := mmGetNextBlk m addr
      let region := addr + mmlistHeadSize
      let m := setWord m (region + 4) s.regioninfo
      let m := setWord (setWord m nextblk mmCorruptDye) (nextblk + 4) 0
      let s :=
        { s with
          mem := m, regioninfo := region
          usedSize := addSize s.usedSize (mmGetBlkSize m nextblk) }
      (kMmFree cfg s (nextblk + mmlistHeadSize)).map (fun s => (.success, s))

end GenieSdk.Model
