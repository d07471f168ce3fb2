import GenieSdk.Model.GenieStorage
import GenieSdk.Model.KvCalls

/-!
# Encrypted storage on the flash

The functions of `genie_storage.c` once more, on the store of `kvmgr.c` in the place of the map of
`GenieSdk.Model.GenieStorage`. Between them other modules call the store, the collection runs and the device reboots.
-/

set_option autoImplicit false

namespace GenieSdk.Model

open GenieSdk.Lib

/-- The store with its flash, and the partition of the triple. -/
structure FlashStore where
  mgr : KvMgr
  triples : Mem

namespace FlashStore

/-- SRCLINE: genie_storage.c:83-92 -/
def genieKvRead (conf : KvConf) (s : FlashStore) (keyIndex valueSize : ℕ) : Option (List UInt8) × FlashStore :=
  let ((res, bytes, _), mgr) := aosKvGet conf s.mgr (kvKey keyIndex) valueSize
  (if res = .ok then some bytes else none, { s with mgr := mgr })

/-- SRCLINE: genie_storage.c:110-117 -/
def genieKvWrite (conf : KvConf) (s : FlashStore) (keyIndex : ℕ) (value : List UInt8) : Option (Bool × FlashStore) :=
  (aosKvSet conf s.mgr (kvKey keyIndex) value).map fun (res, mgr) => (res = .ok, { s with mgr := mgr })

/-- SRCLINE: genie_storage.c:94-108 -/
def genieStorageRead (conf : KvConf) (s : FlashStore) (keyIndex : ℕ) (buff : Mem) (size : ℕ) :
    (GenieStorageStatus × Mem) × FlashStore :=
  match s.genieKvRead conf keyIndex size with
  | (none, s) => ((.readFail, buff), s)
  | (some value, s) => ((.success, writeBytes buff 0 value), s)

/-- SRCLINE: genie_storage.c:119-137 -/
def genieStorageWrite (conf : KvConf) (s : FlashStore) (keyIndex : ℕ) (buff : List UInt8) :
    Option (GenieStorageStatus × FlashStore) :=
  if buff.length = 0 then some (.dataInvalid, s)
  else (s.genieKvWrite conf keyIndex buff).map fun (ok, s) => (if ok then .success else .writeFail, s)

/-- SRCLINE: genie_storage.c:151-191 -/
def genieStorageReadReliable (c : Crypto) (encKey : List UInt8) (env : StorageEnv) (conf : KvConf)
    (s : FlashStore) (index dataSize : ℕ) : Except GenieStorageStatus (List UInt8) × FlashStore :=
  let buffSize := genieStorageGetReliableSize dataSize
  match env.halMalloc buffSize with
  | none => (.error .dataInvalid, s)
  | some buff =>
    let ((ret, buff), s) :=
      if index = gfiMeshTrituple then
        match env.readTriples s.triples buffSize with
        | none => ((.readFail, buff), s)
        | some bytes => ((.success, writeBytes buff 0 bytes), s)
      else s.genieStorageRead conf index buff buffSize
    if ret = .success then
      (.ok (readBytes (genieStorageDecrypt c encKey env.stack buff buffSize) 0 dataSize), s)
    else (.error ret, s)

/-- SRCLINE: genie_storage.c:193-233 -/
def genieStorageWriteReliable (c : Crypto) (encKey : List UInt8) (env : StorageEnv) (conf : KvConf)
    (s : FlashStore) (index : ℕ) (data : List UInt8) : Option (GenieStorageStatus × FlashStore) :=
  let buffSize := genieStorageGetReliableSize data.length
  match env.halMalloc buffSize with
  | none => some (.dataInvalid, s)
  | some buff =>
    let buff := writeBytes (writeBytes buff 0 (List.replicate buffSize 0)) 0 data
    let bytes := readBytes (genieStorageEncrypt c encKey buff buffSize) 0 buffSize
    if index = gfiMeshTrituple then
      let (ok, triples) := env.writeTriples s.triples bytes
      some (if ok then .success else .writeFail, { s with triples := triples })
    else s.genieStorageWrite conf index bytes

end FlashStore

/-- A call of the storage, or a call of another module, a collection or a reboot. -/
inductive FlashAct
  | writeReliable (env : StorageEnv) (index : UInt16) (data : List UInt8)
  | readReliable (env : StorageEnv) (index : UInt16) (dataSize : ℕ)
  | writeUserdata (index : UInt16) (data : List UInt8)
  | kv (a : KvAct)

def flashStep (c : Crypto) (encKey : List UInt8) (conf : KvConf) (s : FlashStore) : FlashAct → Option FlashStore
  | .writeReliable env index data => (s.genieStorageWriteReliable c encKey env conf index.toNat data).map Prod.snd
  | .readReliable env index dataSize => some (s.genieStorageReadReliable c encKey env conf index.toNat dataSize).2
  | .writeUserdata index data => (s.genieStorageWrite conf index.toNat data).map Prod.snd
  | .kv a => (kvActStep conf s.mgr a).map fun mgr => { s with mgr := mgr }

end GenieSdk.Model
