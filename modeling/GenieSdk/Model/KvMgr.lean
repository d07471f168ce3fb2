import GenieSdk.Lib.Bytes

/-!
# The key-value store

`kvmgr.c` over a flash partition of `BLK_NUMS` blocks of `2 ^ BLK_BITS` bytes. Flash reads, writes
and erases, memory allocations and the mutex succeed; every write and erase is recorded in `trace`.
A key is the bytes of a C string without its terminator, so `strlen` is its length, and a value is
the `len` bytes at `val`.

A result `none` means that the call does not return.
-/

set_option autoImplicit false

namespace GenieSdk.Model

open GenieSdk.Lib

/-- The `RES_*` codes that are reached. -/
inductive KvRes
  | ok
  | cont
  | noSpace
  | invalidParam
  | itemNotFound
  deriving DecidableEq, Repr

/-- `BLK_BITS` and `BLK_NUMS`. A block is no smaller than the erase sector of 4 KB, and an offset
in the partition fits in 32 bits. SRCLINE: kv_conf.h:9-29 -/
structure KvConf where
  blkBits : ℕ
  blkNums : ℕ
  sector : 12 ≤ blkBits
  total : blkNums * 2 ^ blkBits < 2 ^ 32

/-- `BLK_SIZE` -/
def KvConf.blkSize (c : KvConf) : ℕ := 2 ^ c.blkBits

/-- `BLK_HDR_SIZE` -/
def blkHdrSize : ℕ := 4

/-- `sizeof(kv_size_t)`: two bytes below 64 KB. SRCLINE: kv_defs.h:28-33 -/
def kvSizeBytes (c : KvConf) : ℕ :=
  if 16 ≤ c.blkBits ∨ 0x10000 ≤ c.blkNums * c.blkSize then 4 else 2

/-- A difference of two `kv_size_t`. -/
def kvSizeSub (c : KvConf) (a b : ℕ) : ℕ :=
  (a + 2 ^ (8 * kvSizeBytes c) - b) % 2 ^ (8 * kvSizeBytes c)

/-- `ITEM_HDR_SIZE` -/
def itemHdrSize (c : KvConf) : ℕ := 6 + kvSizeBytes c

def itemMaxKeyLen : ℕ := 128

def itemMaxValLen : ℕ := 512

def itemMaxLen (c : KvConf) : ℕ := itemHdrSize c + itemMaxKeyLen + itemMaxValLen

def kvGcReserved : ℕ := 1

def blkMagicNum : UInt8 := 0x4B

def itemMagicNum : UInt8 := 0x49

def blkStateUsed : UInt8 := 0xCC

def blkStateClean : UInt8 := 0xEE

def blkStateDirty : UInt8 := 0x44

def itemStateNormal : UInt8 := 0xEE

def itemStateDelete : UInt8 := 0x00

/-- `KV_ALIGN`, to the size of a pointer. -/
def kvAlign (x : ℕ) : ℕ := (x + 3) / 4 * 4

/-- What is done to the flash. -/
inductive FlashOp
  | write (pos : ℕ) (bytes : List UInt8)
  | erase (pos size : ℕ)
  deriving DecidableEq

def FlashOp.apply (f : Mem) : FlashOp → Mem
  | .write pos bytes => writeBytes f pos bytes
  | .erase pos size => fun a => if pos ≤ a ∧ a < pos + size then 0xFF else f a

structure BlockInfo where
  space : ℕ
  state : UInt8
  deriving DecidableEq

/-- `kv_mgr_t` with the partition. -/
structure KvMgr where
  flash : Mem
  trace : List FlashOp
  gcTrigger : Bool
  gcWaiter : ℕ
  cleanBlkNums : ℕ
  writePos : ℕ
  blockInfo : ℕ → BlockInfo

def KvMgr.doFlash (s : KvMgr) (op : FlashOp) : KvMgr :=
  { s with flash := op.apply s.flash, trace := s.trace ++ [op] }

def kvOsPartitionWrite (s : KvMgr) (pos : ℕ) (bytes : List UInt8) : KvMgr :=
  s.doFlash (.write pos bytes)

def kvOsPartitionErase (s : KvMgr) (pos size : ℕ) : KvMgr := s.doFlash (.erase pos size)

def KvMgr.setInfo (s : KvMgr) (i : ℕ) (info : BlockInfo) : KvMgr :=
  { s with blockInfo := fun j => if j = i then info else s.blockInfo j }

def KvMgr.setSpace (s : KvMgr) (i space : ℕ) : KvMgr :=
  s.setInfo i { s.blockInfo i with space := space }

def KvMgr.setState (s : KvMgr) (i : ℕ) (state : UInt8) : KvMgr :=
  s.setInfo i { s.blockInfo i with state := state }

/-- `item_hdr_t` -/
structure ItemHdr where
  magic : UInt8
  state : UInt8
  crc : UInt8
  keyLen : ℕ
  valLen : ℕ
  originOff : ℕ

/-- The header at `pos`, as `kv_os_partition_read` into an `item_hdr_t` yields it. -/
def readItemHdr (c : KvConf) (f : Mem) (pos : ℕ) : ItemHdr where
  magic := f pos
  state := f (pos + 1)
  crc := f (pos + 2)
  keyLen := (f (pos + 3)).toNat
  valLen := leVal (readBytes f (pos + 4) 2)
  originOff := leVal (readBytes f (pos + 6) (kvSizeBytes c))

/-- `kv_item_t` -/
structure KvItem where
  hdr : ItemHdr
  store : List UInt8
  len : ℕ
  pos : ℕ

/-- One bit of `calc_crc8`. -/
def crcBit (crc : UInt8) : UInt8 :=
  if crc &&& 0x80 ≠ 0 then (crc <<< 1) ^^^ 0x31 else crc <<< 1

def crcByte (crc b : UInt8) : UInt8 :=
  crcBit (crcBit (crcBit (crcBit (crcBit (crcBit (crcBit (crcBit (crc ^^^ b))))))))

/-- SRCLINE: kvmgr.c:19-41 -/
def calcCrc8 (bytes : List UInt8) : UInt8 := bytes.foldl crcByte 0

/-- SRCLINE: kvmgr.c:48-58 -/
def kvTriggerGc (s : KvMgr) : KvMgr :=
  if s.gcTrigger then s else { s with gcWaiter := 0, gcTrigger := true }

/-- SRCLINE: kvmgr.c:87-90 -/
def kvStateSet (s : KvMgr) (pos : ℕ) (state : UInt8) : KvMgr := kvOsPartitionWrite s (pos + 1) [state]

/-- SRCLINE: kvmgr.c:99-126 -/
def kvBlockFormat (c : KvConf) (s : KvMgr) (i : ℕ) : KvMgr :=
  let s := kvOsPartitionErase s (i * c.blkSize) c.blkSize
  let s := kvOsPartitionWrite s (i * c.blkSize) [blkMagicNum, blkStateClean, 0, 0]
  let s := s.setInfo i { space := c.blkSize - blkHdrSize, state := blkStateClean }
  { s with cleanBlkNums := s.cleanBlkNums + 1 }

/-- The search for another block, from index `i` on. The index is set back to 0 only inside the
body, so with `blkIdx = 0` the exit test is never met. SRCLINE: kvmgr.c:158-180 -/
def kvCalcScan (c : KvConf) (s : KvMgr) (len blkIdx : ℕ) : ℕ → ℕ → Option (ℕ × KvMgr)
  | 0, _ => none
  | fuel + 1, i =>
    if i = blkIdx then some (0, kvTriggerGc s)
    else
      let i := if i = c.blkNums then 0 else i
      if len < (s.blockInfo i).space then
        let writePos := i * c.blkSize + c.blkSize - (s.blockInfo i).space
        let s := { s with writePos := writePos }
        if (s.blockInfo i).state = blkStateClean then
          let s := kvStateSet s (i * c.blkSize) blkStateUsed
          let s := s.setState i blkStateUsed
          some (writePos, { s with cleanBlkNums := s.cleanBlkNums - 1 })
        else some (writePos, s)
      else kvCalcScan c s len blkIdx fuel (i + 1)

/-- SRCLINE: kvmgr.c:135-185 -/
def kvCalcPosition (c : KvConf) (s : KvMgr) (len : ℕ) : Option (ℕ × KvMgr) :=
  let blkIdx := s.writePos / c.blkSize
  let space := (s.blockInfo blkIdx).space
  if len < space then
    if space - len < itemMaxLen c ∧ s.cleanBlkNums ≤ kvGcReserved then
      some (s.writePos, kvTriggerGc s)
    else some (s.writePos, s)
  else if kvGcReserved + 1 < c.blkNums then kvCalcScan c s len blkIdx (2 * c.blkNums) (blkIdx + 1)
  else some (0, kvTriggerGc s)

/-- `KV_DELETE_REMOVE` and `KV_UPDATE_REMOVE` -/
inductive KvDelFlag
  | delete
  | update
  deriving DecidableEq

/-- The common end of `kv_item_del`. SRCLINE: kvmgr.c:253-271 -/
def kvItemKill (c : KvConf) (s : KvMgr) (off : ℕ) : KvMgr :=
  let s := kvStateSet s off itemStateDelete
  let i := off / c.blkSize
  if (s.blockInfo i).state = blkStateUsed then
    (kvStateSet s (off / c.blkSize * c.blkSize) blkStateDirty).setState i blkStateDirty
  else s

/-- What `kv_item_del` requires at `origin_off` before it deletes there: the header of a normal
item with the same key as `item`. SRCLINE: kvmgr.c:208-244 -/
def kvOriginMatches (c : KvConf) (f : Mem) (item : KvItem) : Bool :=
  let off := item.hdr.originOff
  let hdr := readItemHdr c f off
  hdr.magic = itemMagicNum ∧ hdr.state = itemStateNormal ∧ hdr.keyLen = item.hdr.keyLen ∧
    readBytes f (off + itemHdrSize c) hdr.keyLen = readBytes f (item.pos + itemHdrSize c) hdr.keyLen

/-- SRCLINE: kvmgr.c:195-272 -/
def kvItemDel (c : KvConf) (s : KvMgr) (item : KvItem) : KvDelFlag → KvMgr
  | .delete => kvItemKill c s item.pos
  | .update => if kvOriginMatches c s.flash item then kvItemKill c s item.hdr.originOff else s

/-- A callback of the traversal; the item it returns is the one it was given, with `store`. -/
abbrev ItemFunc := KvMgr → KvItem → KvRes × KvItem × KvMgr

/-- SRCLINE: kvmgr.c:282-313 -/
def itemRecoveryCb (c : KvConf) : ItemFunc := fun s item =>
  let p := readBytes s.flash (item.pos + itemHdrSize c) item.len
  let s :=
    if item.hdr.crc = calcCrc8 p then
      if item.hdr.originOff ≠ 0 ∧ item.pos ≠ item.hdr.originOff then kvItemDel c s item .update
      else s
    else kvItemDel c s item .delete
  (.cont, item, s)

/-- SRCLINE: kvmgr.c:325-353 -/
def itemFindCb (c : KvConf) (key : List UInt8) : ItemFunc := fun s item =>
  if item.hdr.keyLen ≠ key.length then (.cont, item, s)
  else
    let item := { item with store := readBytes s.flash (item.pos + itemHdrSize c) item.len }
    if item.store.take key.length = key then (.ok, item, s) else (.cont, item, s)

/-- SRCLINE: kvmgr.c:363-398 -/
def itemGcCb (c : KvConf) : ItemFunc := fun s item =>
  let len := kvAlign (itemHdrSize c + item.len)
  let p := readBytes s.flash item.pos len
  let s := kvOsPartitionWrite s s.writePos p
  let s := { s with writePos := s.writePos + len }
  let idx := s.writePos / c.blkSize
  (.cont, item, s.setSpace idx (kvSizeSub c (s.blockInfo idx).space len))

/-- SRCLINE: kvmgr.c:408-433 -/
def itemDelByPrefixCb (c : KvConf) (keyPrefix : List UInt8) : ItemFunc := fun s item =>
  if item.hdr.keyLen < keyPrefix.length then (.cont, item, s)
  else
    let key := readBytes s.flash (item.pos + itemHdrSize c) item.hdr.keyLen
    if key.take keyPrefix.length = keyPrefix then (.cont, item, kvItemDel c s item .delete)
    else (.cont, item, s)

/-- `none` is a `NULL` prefix. SRCLINE: kvmgr.c:908-938 -/
def itemDelAllCb (c : KvConf) (exPrefix : Option (List UInt8)) : ItemFunc := fun s item =>
  if 0 < item.hdr.keyLen then
    match exPrefix with
    | none => (.cont, item, kvItemDel c s item .delete)
    | some exPrefix =>
      if item.hdr.keyLen < exPrefix.length then (.cont, item, kvItemDel c s item .delete)
      else
        let key := readBytes s.flash (item.pos + itemHdrSize c) item.hdr.keyLen
        if key.take exPrefix.length ≠ exPrefix then (.cont, item, kvItemDel c s item .delete)
        else (.cont, item, s)
  else (.cont, item, s)

/-- A used block in which the traversal meets something else than a normal item is dirty. -/
def kvMarkDirty (c : KvConf) (s : KvMgr) (i : ℕ) : KvMgr :=
  if (s.blockInfo i).state = blkStateUsed then
    (kvStateSet s (i * c.blkSize) blkStateDirty).setState i blkStateDirty
  else s

/-- SRCLINE: kvmgr.c:529-541 -/
def kvTraverseEnd (c : KvConf) (s : KvMgr) (i pos : ℕ) : KvMgr :=
  let stop := i * c.blkSize + c.blkSize
  s.setSpace i (if pos < stop then stop - pos else itemHdrSize c)

/-- The loop of `kv_item_traverse`; it ends well before the fuel does, since every round moves
`pos`. SRCLINE: kvmgr.c:455-527 -/
def kvTraverseLoop (c : KvConf) (func : ItemFunc) (i : ℕ) : ℕ → ℕ → KvMgr → Option KvItem × KvMgr
  | 0, pos, s => (none, kvTraverseEnd c s i pos)
  | fuel + 1, pos, s =>
    let hdr := readItemHdr c s.flash pos
    -- the `do ... while` test, made after every round
    let next := fun (s : KvMgr) (pos : ℕ) =>
      if pos + itemHdrSize c < i * c.blkSize + c.blkSize then kvTraverseLoop c func i fuel pos s
      else (none, kvTraverseEnd c s i pos)
    if hdr.magic ≠ itemMagicNum ∧ hdr.magic = 0xFF ∧ hdr.state = 0xFF then
      (none, kvTraverseEnd c s i pos)
    else
      let valLen := if hdr.magic ≠ itemMagicNum then 0xFFFF else hdr.valLen
      if itemMaxValLen < valLen ∨ itemMaxKeyLen < hdr.keyLen ∨ valLen = 0 ∨ hdr.keyLen = 0 then
        next (kvMarkDirty c s i) (pos + itemHdrSize c)
      else
        let len := kvAlign (itemHdrSize c + hdr.keyLen + valLen)
        if hdr.state = itemStateNormal then
          match func s { hdr := hdr, store := [], len := hdr.keyLen + hdr.valLen, pos := pos } with
          | (.ok, item, s) => (some item, s)
          | (.cont, _, s) => next s (pos + len)
          | (_, _, s) => (none, s)
        else next (kvMarkDirty c s i) (pos + len)

/-- SRCLINE: kvmgr.c:444-542 -/
def kvItemTraverse (c : KvConf) (func : ItemFunc) (s : KvMgr) (i : ℕ) : Option KvItem × KvMgr :=
  kvTraverseLoop c func i c.blkSize (i * c.blkSize + blkHdrSize) s

/-- The blocks of a list in turn, until one holds the key. -/
def kvItemGetIn (c : KvConf) (key : List UInt8) : List ℕ → KvMgr → Option KvItem × KvMgr
  | [], s => (none, s)
  | i :: is, s =>
    if (s.blockInfo i).state ≠ blkStateClean then
      match kvItemTraverse c (itemFindCb c key) s i with
      | (some item, s) => (some item, s)
      | (none, s) => kvItemGetIn c key is s
    else kvItemGetIn c key is s

/-- SRCLINE: kvmgr.c:551-570 -/
def kvItemGet (c : KvConf) (s : KvMgr) (key : List UInt8) : Option KvItem × KvMgr :=
  kvItemGetIn c key (List.range c.blkNums) s

/-- The bytes `kv_item_store` writes. SRCLINE: kvmgr.c:589-611 -/
def kvStoreBytes (c : KvConf) (key val : List UInt8) (originOff : ℕ) : List UInt8 :=
  let crc := calcCrc8 (key ++ val)
  let hdr := [itemMagicNum, itemStateNormal, crc, UInt8.ofNat key.length] ++ leBytes 2 val.length ++
    leBytes (kvSizeBytes c) originOff
  let len := itemHdrSize c + key.length + val.length
  hdr ++ key ++ val ++ List.replicate (kvAlign len - len) 0

/-- SRCLINE: kvmgr.c:581-634 -/
def kvItemStore (c : KvConf) (s : KvMgr) (key val : List UInt8) (originOff : ℕ) :
    Option (KvRes × KvMgr) :=
  let len := kvAlign (itemHdrSize c + key.length + val.length)
  match kvCalcPosition c s len with
  | none => none
  | some (pos, s) =>
    if 0 < pos then
      let s := kvOsPartitionWrite s pos (kvStoreBytes c key val originOff)
      let s := { s with writePos := pos + len }
      let idx := s.writePos / c.blkSize
      some (.ok, s.setSpace idx (kvSizeSub c (s.blockInfo idx).space len))
    else some (.noSpace, s)

/-- SRCLINE: kvmgr.c:646-667 -/
def kvItemUpdate (c : KvConf) (s : KvMgr) (item : KvItem) (key val : List UInt8) :
    Option (KvRes × KvMgr) :=
  if item.hdr.valLen = val.length ∧ item.store.drop item.hdr.keyLen = val then some (.ok, s)
  else
    match kvItemStore c s key val item.pos with
    | none => none
    | some (.ok, s) => some (.ok, kvItemDel c s item .delete)
    | some (res, s) => some (res, s)

/-- `g_kv_mgr` cleared, as at a boot. -/
def KvMgr.boot (s : KvMgr) : KvMgr :=
  { s with
    gcTrigger := false, gcWaiter := 0, cleanBlkNums := 0, writePos := 0
    blockInfo := fun _ => { space := 0, state := 0 } }

/-- One block of the first loop of `kv_init`; `unclean` lists the blocks marked clean that hold
items. SRCLINE: kvmgr.c:683-718 -/
def kvInitBlock (c : KvConf) (s : KvMgr) (unclean : List ℕ) (i : ℕ) : KvMgr × List ℕ :=
  let magic := s.flash (i * c.blkSize)
  let state := s.flash (i * c.blkSize + 1)
  if magic = blkMagicNum then
    if state ≠ blkStateUsed ∧ state ≠ blkStateClean ∧ state ≠ blkStateDirty then
      (kvBlockFormat c s i, unclean)
    else
      let s := (kvItemTraverse c (itemRecoveryCb c) (s.setState i state) i).2
      if state = blkStateClean then
        if (s.blockInfo i).space ≠ c.blkSize - blkHdrSize then (s, i :: unclean)
        else ({ s with cleanBlkNums := s.cleanBlkNums + 1 }, unclean)
      else (s, unclean)
  else (kvBlockFormat c s i, unclean)

def kvInitBlocks (c : KvConf) : List ℕ → KvMgr → List ℕ → KvMgr × List ℕ
  | [], s, unclean => (s, unclean)
  | i :: is, s, unclean =>
    let (s, unclean) := kvInitBlock c s unclean i
    kvInitBlocks c is s unclean

/-- One round of the second loop of `kv_init`. SRCLINE: kvmgr.c:720-740 -/
def kvInitUnclean (c : KvConf) (s : KvMgr) (i : ℕ) : KvMgr :=
  if kvGcReserved ≤ s.cleanBlkNums then
    (kvStateSet s (i * c.blkSize) blkStateDirty).setState i blkStateDirty
  else kvBlockFormat c s i

/-- The first used or dirty block before a clean one. SRCLINE: kvmgr.c:759-773 -/
def kvInitWriteBlk (c : KvConf) (s : KvMgr) : Option ℕ :=
  (List.range c.blkNums).find? fun i =>
    ((s.blockInfo i).state = blkStateUsed ∨ (s.blockInfo i).state = blkStateDirty) ∧
      (s.blockInfo (if i + 1 = c.blkNums then 0 else i + 1)).state = blkStateClean

/-- The end of `kv_init`: where to write. SRCLINE: kvmgr.c:750-774 -/
def kvInitWritePos (c : KvConf) (s : KvMgr) : KvMgr :=
  if s.cleanBlkNums = c.blkNums then
    let s := { s with writePos := blkHdrSize }
    let s := kvStateSet s (s.writePos / c.blkSize * c.blkSize) blkStateUsed
    let s := s.setState 0 blkStateUsed
    { s with cleanBlkNums := s.cleanBlkNums - 1 }
  else
    match kvInitWriteBlk c s with
    | some i => { s with writePos := i * c.blkSize + c.blkSize - (s.blockInfo i).space }
    | none => s

/-- The loop index is 8 bits wide, so with more than 255 blocks the first loop does not end.
SRCLINE: kvmgr.c:674-781 -/
def kvInit (c : KvConf) (s : KvMgr) : Option KvMgr :=
  if 255 < c.blkNums then none
  else
    let (s, unclean) := kvInitBlocks c (List.range c.blkNums) s []
    let s := unclean.foldl (kvInitUnclean c) s
    let s := if s.cleanBlkNums = 0 then kvBlockFormat c s 0 else s
    some (kvInitWritePos c s)

/-- The search for a dirty block and its collection into `gcIdx`. SRCLINE: kvmgr.c:824-853 -/
def kvGcLoop (c : KvConf) (gcIdx origin : ℕ) : ℕ → ℕ → KvMgr → Option KvMgr
  | 0, _, _ => none
  | fuel + 1, i, s =>
    let i := if i = c.blkNums then 0 else i
    if (s.blockInfo i).state = blkStateDirty then
      let s := (kvItemTraverse c (itemGcCb c) s i).2
      let s := kvBlockFormat c s i
      let s := kvStateSet s (s.writePos / c.blkSize * c.blkSize) blkStateUsed
      let s := s.setState gcIdx blkStateUsed
      some { s with cleanBlkNums := s.cleanBlkNums - 1 }
    else if i = origin then none
    else kvGcLoop c gcIdx origin fuel (i + 1) s

/-- The collection, without the hand-over to waiting tasks at its end. SRCLINE: kvmgr.c:790-859 -/
def kvGcTask (c : KvConf) (s : KvMgr) : KvMgr :=
  let originPos := s.writePos
  let s :=
    if s.cleanBlkNums = 0 then s
    else
      match (List.range c.blkNums).find? (fun i => (s.blockInfo i).state = blkStateClean) with
      | none => s
      | some gcIdx =>
        let origin := originPos / c.blkSize
        match kvGcLoop c gcIdx origin (c.blkNums + 1) (origin + 1)
          { s with writePos := gcIdx * c.blkSize + blkHdrSize } with
        | some s => s
        | none => s
  { s with gcTrigger := false }

/-- SRCLINE: kvmgr.c:869-890 -/
def aosKvDel (c : KvConf) (s : KvMgr) (key : List UInt8) : KvRes × KvMgr :=
  match kvItemGet c s key with
  | (none, s) => (.itemNotFound, s)
  | (some item, s) => (.ok, kvItemDel c s item .delete)

/-- SRCLINE: kvmgr.c:892-906 -/
def aosKvDelByPrefix (c : KvConf) (s : KvMgr) (keyPrefix : List UInt8) : KvRes × KvMgr :=
  (.ok, (List.range c.blkNums).foldl
    (fun s i => (kvItemTraverse c (itemDelByPrefixCb c keyPrefix) s i).2) s)

/-- SRCLINE: kvmgr.c:940-955 -/
def aosKvDelAll (c : KvConf) (s : KvMgr) (exPrefix : Option (List UInt8)) : KvRes × KvMgr :=
  (.ok, (List.range c.blkNums).foldl
    (fun s i => (kvItemTraverse c (itemDelAllCb c exPrefix) s i).2) s)

/-- A set that finds a collection triggered counts itself as a waiter and goes on when the
collection is done. SRCLINE: kvmgr.c:957-995 -/
def aosKvSet (c : KvConf) (s : KvMgr) (key val : List UInt8) : Option (KvRes × KvMgr) :=
  if val.length = 0 ∨ itemMaxKeyLen < key.length ∨ itemMaxValLen < val.length then
    some (.invalidParam, s)
  else
    let s := if s.gcTrigger then { s with gcWaiter := (s.gcWaiter + 1) % 256 } else s
    match kvItemGet c s key with
    | (some item, s) => kvItemUpdate c s item key val
    | (none, s) => kvItemStore c s key val 0

/-- The status, the bytes copied to the buffer and the new `*buffer_len`.
SRCLINE: kvmgr.c:1029-1068 -/
def aosKvGet (c : KvConf) (s : KvMgr) (key : List UInt8) (bufferLen : ℕ) :
    (KvRes × List UInt8 × ℕ) × KvMgr :=
  if bufferLen = 0 then ((.invalidParam, [], bufferLen), s)
  else
    match kvItemGet c s key with
    | (none, s) => ((.itemNotFound, [], bufferLen), s)
    | (some item, s) =>
      if bufferLen < item.hdr.valLen then ((.noSpace, [], item.hdr.valLen), s)
      else ((.ok, (item.store.drop item.hdr.keyLen).take item.hdr.valLen, item.hdr.valLen), s)

end GenieSdk.Model
