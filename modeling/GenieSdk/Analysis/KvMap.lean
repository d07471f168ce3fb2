import GenieSdk.Model.KvCalls

/-!
# What the store is for

The store is a map from keys to values. `MapStep` says what each call does to the map and what it returns,
with no word about the flash; a set may fail, and then it does nothing.
-/

set_option autoImplicit false

namespace GenieSdk.Analysis.Kv

open GenieSdk.Model

/-- A map from keys to values. -/
abbrev KvMap := List UInt8 → Option (List UInt8)

/-- The keys that `aos_kv_del_all` spares. -/
def Spared (exPrefix : Option (List UInt8)) (key : List UInt8) : Prop :=
  ∃ p, exPrefix = some p ∧ p <+: key

instance (exPrefix : Option (List UInt8)) (key : List UInt8) : Decidable (Spared exPrefix key) :=
  match exPrefix with
  | none => isFalse fun h => by
    obtain ⟨p, hp, -⟩ := h
    cases hp
  | some p => decidable_of_iff (p <+: key) (by simp [Spared])

/-- What `aos_kv_get` returns for a buffer of this length. -/
def getReply (m : KvMap) (key : List UInt8) (bufferLen : ℕ) : KvReply :=
  if bufferLen = 0 then .value .invalidParam [] bufferLen
  else
    match m key with
    | none => .value .itemNotFound [] bufferLen
    | some val =>
      if bufferLen < val.length then .value .noSpace [] val.length
      else .value .ok val val.length

/-- What the calls do to the map. -/
inductive MapStep (m : KvMap) : KvOp → KvReply → KvMap → Prop
  | set {key val : List UInt8} :
      MapStep m (.set key val) (.status .ok) (Function.update m key (some val))
  | setFails {key val : List UInt8} {res : KvRes} : res ≠ .ok → MapStep m (.set key val) (.status res) m
  | get {key : List UInt8} {bufferLen : ℕ} :
      MapStep m (.get key bufferLen) (getReply m key bufferLen) m
  | del {key val : List UInt8} : m key = some val →
      MapStep m (.del key) (.status .ok) (Function.update m key none)
  | delNone {key : List UInt8} : m key = none → MapStep m (.del key) (.status .itemNotFound) m
  | delByPrefix {keyPrefix : List UInt8} : MapStep m (.delByPrefix keyPrefix) (.status .ok)
      fun key => if keyPrefix <+: key then none else m key
  | delAll {exPrefix : Option (List UInt8)} : MapStep m (.delAll exPrefix) (.status .ok)
      fun key => if Spared exPrefix key then m key else none
  | gc : MapStep m .gc .done m

/-- What a list of calls does. -/
inductive MapRun : KvMap → List KvOp → List KvReply → KvMap → Prop
  | nil (m : KvMap) : MapRun m [] [] m
  | cons {m m' m'' : KvMap} {op : KvOp} {ops : List KvOp} {r : KvReply} {rs : List KvReply} :
      MapStep m op r m' → MapRun m' ops rs m'' → MapRun m (op :: ops) (r :: rs) m''

end GenieSdk.Analysis.Kv
