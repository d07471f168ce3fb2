import GenieSdk.Model.GenieCrypto
import Mathlib.Data.Nat.Digits.Defs

/-!
# Encrypted storage

`genie_storage.c`: a value is filled up to blocks of 16 bytes, encrypted block by block and kept in the
KV store under a key made of its index; the device's triple is kept in a flash partition of its own. The
KV store is taken as a map with limits on what it holds, and AES, the memory and the partition are
given with every call.
-/

set_option autoImplicit false

namespace GenieSdk.Model

open GenieSdk.Lib

/-- The `genie_storage_status_e` codes that are returned. -/
inductive GenieStorageStatus
  | success
  | dataInvalid
  | readFail
  | writeFail
  deriving DecidableEq, Repr

/-- `GFI_MESH_TRITUPLE` -/
def gfiMeshTrituple : ℕ := 2

/-- The KV store and the partition of the triple. -/
structure GenieStore where
  kv : List UInt8 → Option (List UInt8)
  triples : Mem

/-- What a call meets: a free buffer, if there is one, with what is in it; what is on the stack where
`dec_temp` is; whether the KV store takes a value; and how the partition is read and written. -/
structure StorageEnv where
  heap : Option Mem
  stack : List UInt8
  room : Bool
  readTriples : Mem → ℕ → Option (List UInt8)
  writeTriples : Mem → List UInt8 → Bool × Mem

/-- A block of no bytes is not allocated. SRCLINE: aos_port.c:377-380, aos_rhino.c:755-761 -/
def StorageEnv.halMalloc (env : StorageEnv) (size : ℕ) : Option Mem :=
  if size = 0 then none else env.heap

/-- `aos_kv_set` on a map; what it refuses changes nothing. SRCLINE: kvmgr.c:965-969 -/
def GenieStore.kvSet (s : GenieStore) (key val : List UInt8) (room : Bool) : Bool × GenieStore :=
  if val.length = 0 ∨ 128 < key.length ∨ 512 < val.length then (false, s)
  else if room then (true, { s with kv := Function.update s.kv key (some val) })
  else (false, s)

/-- `aos_kv_get` on a map. SRCLINE: kvmgr.c:1032-1060 -/
def GenieStore.kvGet (s : GenieStore) (key : List UInt8) (bufferLen : ℕ) : Option (List UInt8) :=
  if bufferLen = 0 then none
  else
    match s.kv key with
    | none => none
    | some val => if bufferLen < val.length then none else some val

/-- `aos_kv_del` on a map. -/
def GenieStore.kvDel (s : GenieStore) (key : List UInt8) : GenieStore :=
  { s with kv := Function.update s.kv key none }

/-- `%d` of a number that is not negative. -/
def decimal (n : ℕ) : List UInt8 :=
  if n = 0 then [48] else (Nat.digits 10 n).reverse.map fun d => UInt8.ofNat (48 + d)

/-- `"key_%d"` in an array of ten bytes. -/
def kvKey (index : ℕ) : List UInt8 := ([107, 101, 121, 95] ++ decimal index).take 9

/-- SRCLINE: genie_storage.c:83-92 -/
def genieKvRead (s : GenieStore) (keyIndex valueSize : ℕ) : Option (List UInt8) :=
  s.kvGet (kvKey keyIndex) valueSize

/-- SRCLINE: genie_storage.c:110-117 -/
def genieKvWrite (s : GenieStore) (keyIndex : ℕ) (value : List UInt8) (room : Bool) :
    Bool × GenieStore :=
  s.kvSet (kvKey keyIndex) value room

/-- SRCLINE: genie_storage.c:94-108 -/
def genieStorageRead (s : GenieStore) (keyIndex : ℕ) (buff : Mem) (size : ℕ) :
    GenieStorageStatus × Mem :=
  match genieKvRead s keyIndex size with
  | none => (.readFail, buff)
  | some value => (.success, writeBytes buff 0 value)

/-- SRCLINE: genie_storage.c:119-137 -/
def genieStorageWrite (s : GenieStore) (keyIndex : ℕ) (buff : List UInt8) (room : Bool) :
    GenieStorageStatus × GenieStore :=
  if buff.length = 0 then (.dataInvalid, s)
  else
    let (ok, s) := genieKvWrite s keyIndex buff room
    if ok then (.success, s) else (.writeFail, s)

/-- A `uint16_t`, so the largest sizes come out as 0. SRCLINE: genie_storage.c:139-149 -/
def genieStorageGetReliableSize (dataSize : ℕ) : ℕ :=
  if dataSize % 16 = 0 then dataSize else (dataSize / 16 + 1) * 16 % 2 ^ 16

/-- SRCLINE: genie_storage.c:12-28 -/
def genieStorageEncrypt (c : Crypto) (encKey : List UInt8) (buff : Mem) (size : ℕ) : Mem :=
  (List.range (size / 16)).foldl (fun buff i =>
    writeBytes buff (16 * i) (c.aesEncrypt encKey (readBytes buff (16 * i) 16))) buff

/-- A block that cannot be decrypted leaves `dec_temp` as it is. SRCLINE: genie_storage.c:30-46 -/
def genieStorageDecrypt (c : Crypto) (encKey : List UInt8) (stack : List UInt8) (buff : Mem)
    (size : ℕ) : Mem :=
  ((List.range (size / 16)).foldl (fun (buff, decTemp) i =>
    let decTemp := (c.aesDecrypt encKey (readBytes buff (16 * i) 16)).getD decTemp
    (writeBytes buff (16 * i) decTemp, decTemp)) (buff, stack)).1

/-- The data, or the status of a read that fails. SRCLINE: genie_storage.c:151-191 -/
def genieStorageReadReliable (c : Crypto) (encKey : List UInt8) (env : StorageEnv) (s : GenieStore)
    (index dataSize : ℕ) : Except GenieStorageStatus (List UInt8) :=
  let buffSize := genieStorageGetReliableSize dataSize
  match env.halMalloc buffSize with
  | none => .error .dataInvalid
  | some buff =>
    let (ret, buff) :=
      if index = gfiMeshTrituple then
        match env.readTriples s.triples buffSize with
        | none => (.readFail, buff)
        | some bytes => (.success, writeBytes buff 0 bytes)
      else genieStorageRead s index buff buffSize
    if ret = .success then
      .ok (readBytes (genieStorageDecrypt c encKey env.stack buff buffSize) 0 dataSize)
    else .error ret

/-- SRCLINE: genie_storage.c:193-233 -/
def genieStorageWriteReliable (c : Crypto) (encKey : List UInt8) (env : StorageEnv) (s : GenieStore)
    (index : ℕ) (data : List UInt8) : GenieStorageStatus × GenieStore :=
  let buffSize := genieStorageGetReliableSize data.length
  match env.halMalloc buffSize with
  | none => (.dataInvalid, s)
  | some buff =>
    let buff := writeBytes (writeBytes buff 0 (List.replicate buffSize 0)) 0 data
    let bytes := readBytes (genieStorageEncrypt c encKey buff buffSize) 0 buffSize
    if index = gfiMeshTrituple then
      let (ok, triples) := env.writeTriples s.triples bytes
      (if ok then .success else .writeFail, { s with triples := triples })
    else genieStorageWrite s index bytes env.room

/-- A call that may change what is stored: a value or the triple is written, user data is written in
plain, or another module sets or deletes a key of its own choice. -/
inductive StorageAct
  | writeReliable (env : StorageEnv) (index : UInt16) (data : List UInt8)
  | writeUserdata (env : StorageEnv) (index : UInt16) (data : List UInt8)
  | kvSet (env : StorageEnv) (key val : List UInt8)
  | kvDel (key : List UInt8)

def storageStep (c : Crypto) (encKey : List UInt8) (s : GenieStore) : StorageAct → Option GenieStore
  | .writeReliable env index data =>
    some (genieStorageWriteReliable c encKey env s index.toNat data).2
  | .writeUserdata env index data => some (genieStorageWrite s index.toNat data env.room).2
  | .kvSet env key val => some (s.kvSet key val env.room).2
  | .kvDel key => some (s.kvDel key)

end GenieSdk.Model
