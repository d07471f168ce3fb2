import GenieSdk.Lib.Runs
import GenieSdk.Model.KvMgr

/-!
# The calls of the store

The calls that change the store, one at a time as the mutex lets them, the collection, and reboots.
-/

set_option autoImplicit false

namespace GenieSdk.Model

open GenieSdk.Lib

/-- A call of the store, or a run of the collection. -/
inductive KvOp
  | set (key val : List UInt8)
  | get (key : List UInt8) (bufferLen : ℕ)
  | del (key : List UInt8)
  | delByPrefix (keyPrefix : List UInt8)
  | delAll (exPrefix : Option (List UInt8))
  | gc
  deriving DecidableEq

/-- What the call leaves behind, if it returns. -/
def kvStep (c : KvConf) (s : KvMgr) : KvOp → Option KvMgr
  | .set key val => (aosKvSet c s key val).map Prod.snd
  | .get key bufferLen => some (aosKvGet c s key bufferLen).2
  | .del key => some (aosKvDel c s key).2
  | .delByPrefix keyPrefix => some (aosKvDelByPrefix c s keyPrefix).2
  | .delAll exPrefix => some (aosKvDelAll c s exPrefix).2
  | .gc => some (kvGcTask c s)

/-- What a call returns: its status, for `aos_kv_get` with the bytes in the buffer and the new `*buffer_len`. -/
inductive KvReply
  | status (res : KvRes)
  | value (res : KvRes) (bytes : List UInt8) (bufferLen : ℕ)
  | done
  deriving DecidableEq

/-- A call with what it returns. -/
def kvCall (c : KvConf) (s : KvMgr) : KvOp → Option (KvReply × KvMgr)
  | .set key val => (aosKvSet c s key val).map fun (res, s) => (.status res, s)
  | .get key bufferLen =>
    let ((res, bytes, len), s) := aosKvGet c s key bufferLen
    some (.value res bytes len, s)
  | .del key =>
    let (res, s) := aosKvDel c s key
    some (.status res, s)
  | .delByPrefix keyPrefix =>
    let (res, s) := aosKvDelByPrefix c s keyPrefix
    some (.status res, s)
  | .delAll exPrefix =>
    let (res, s) := aosKvDelAll c s exPrefix
    some (.status res, s)
  | .gc => some (.done, kvGcTask c s)

/-- Calls one after the other, and what they return. -/
def kvCalls (c : KvConf) : KvMgr → List KvOp → Option (List KvReply × KvMgr)
  | s, [] => some ([], s)
  | s, op :: ops =>
    match kvCall c s op with
    | none => none
    | some (r, s) => (kvCalls c s ops).map fun (rs, s) => (r :: rs, s)

/-- What `kv_item_get` finds: the value of the key. -/
def kvMap (c : KvConf) (s : KvMgr) (key : List UInt8) : Option (List UInt8) :=
  (kvItemGet c s key).1.map fun item => (item.store.drop item.hdr.keyLen).take item.hdr.valLen

/-- A call, or a reboot with `kv_init`. -/
inductive KvAct
  | call (op : KvOp)
  | boot
  deriving DecidableEq

def kvActStep (c : KvConf) (s : KvMgr) : KvAct → Option KvMgr
  | .call op => kvStep c s op
  | .boot => kvInit c s.boot

/-- A partition that was never written to. -/
def erasedPartition : KvMgr where
  flash := fun _ => 0xFF
  trace := []
  gcTrigger := false
  gcWaiter := 0
  cleanBlkNums := 0
  writePos := 0
  blockInfo := fun _ => { space := 0, state := 0 }

end GenieSdk.Model
