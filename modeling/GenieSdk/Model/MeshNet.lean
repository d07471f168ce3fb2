import GenieSdk.Lib.Runs

/-!
# Sequence numbers and the IV index

`net.c` numbers outgoing PDUs and moves the IV index; `genie_event.c` and `genie_storage.c` keep the
sequence number and the provisioning data in the KV store, from which a node starts again after a
power loss. A PDU is encrypted under the transmit IV index and its sequence number.

The keys are left out, of what is saved only its presence matters. `used` is read by no function: the
nonces under which PDUs were encrypted.
-/

set_option autoImplicit false

namespace GenieSdk.Model

/-- `struct bt_mesh_rpl` -/
structure Rpl where
  src : ℕ
  oldIv : Bool
  seq : ℕ
  deriving DecidableEq, Repr

/-- An empty slot. -/
def Rpl.zero : Rpl := ⟨0, false, 0⟩

/-- The transmit IV index and the sequence number of a PDU. -/
structure Nonce where
  iv : ℕ
  seq : ℕ
  deriving DecidableEq, Repr

/-- Lexicographic order. -/
def Nonce.Before (a b : Nonce) : Prop := a.iv < b.iv ∨ a.iv = b.iv ∧ a.seq < b.seq

instance (a b : Nonce) : Decidable (a.Before b) :=
  inferInstanceAs (Decidable (_ ∨ _))

/-- `struct bt_mesh_net`, as far as sequence numbers and the IV index depend on it. `ivuComplete` says
that the delayed work is submitted. -/
structure MeshNet where
  ivIndex : UInt32
  seq : ℕ
  ivUpdate : Bool
  ivuInitiator : Bool
  ivuTest : Bool
  pendingUpdate : Bool
  valid : Bool
  lastUpdate : ℤ
  ivuComplete : Bool
  rpl : List Rpl
  deriving DecidableEq, Repr

/-- `mesh_netkey_para_t` without the key -/
structure MeshNetkeyPara where
  netIndex : ℕ
  flag : ℕ
  ivi : UInt32
  deriving DecidableEq, Repr

/-- What the KV store holds. `seq` is the number without its magic byte. -/
structure GenieKv where
  addr : Bool
  seq : Option ℕ
  devkey : Bool
  netkey : Option MeshNetkeyPara
  appkey : Bool
  deriving DecidableEq, Repr

/-- `genie_provision_state_e` -/
inductive ProvisionState
  | unprov
  | start
  | success
  deriving DecidableEq, Repr

/-- A node. -/
structure MeshNode where
  net : MeshNet
  kv : GenieKv
  provisionState : ProvisionState
  used : List Nonce
  deriving DecidableEq, Repr

/-- `BT_MESH_IV_UPDATE` -/
def btMeshIvUpdate (flags : ℕ) : Bool := flags / 2 % 2 = 1

/-- `BT_MESH_NET_IVI_TX` -/
def MeshNet.iviTx (m : MeshNet) : UInt32 := m.ivIndex - (if m.ivUpdate then 1 else 0)

/-- `K_HOURS(96)` in milliseconds -/
def ivUpdateMinDuration : ℤ := 96 * 3600 * 1000

/-- SRCLINE: net.c:46-49 -/
def ivUpdateSeqLimit : ℕ := 0xB0E500

/-- SRCLINE: net.c:627-649 -/
def btMeshRplReset (rpl : List Rpl) : List Rpl :=
  rpl.map fun r => if r.src ≠ 0 then (if r.oldIv then Rpl.zero else { r with oldIv := true }) else r

/-- `do_update`. SRCLINE: net.c:788-820 -/
def ivDoUpdate (m : MeshNet) (ivIndex : UInt32) (ivUpdate : Bool) (now : ℤ) : MeshNet :=
  let m := { m with ivUpdate := ivUpdate }
  let m :=
    if ivUpdate then
      { m with ivIndex := ivIndex, rpl := btMeshRplReset m.rpl, ivuComplete := true }
    else { m with seq := 0, ivuComplete := false }
  { m with lastUpdate := now }

/-- IV index recovery. SRCLINE: net.c:735-751 -/
def ivRecover (m : MeshNet) (ivIndex : UInt32) : MeshNet :=
  { m with rpl := m.rpl.map fun _ => Rpl.zero, ivIndex := ivIndex, seq := 0 }

/-- The time of the last change and transfers in progress stand against a change.
`txInProgress` is `bt_mesh_tx_in_progress()`. SRCLINE: net.c:769-786 -/
def ivChange (ivUpdateTest : Bool) (m : MeshNet) (ivIndex : UInt32) (ivUpdate : Bool) (now : ℤ)
    (txInProgress : Bool) : Bool × MeshNet :=
  if ¬ (ivUpdateTest ∧ m.ivuTest) ∧ now - m.lastUpdate < ivUpdateMinDuration then (false, m)
  else if ¬ ivUpdate ∧ txInProgress then (false, { m with pendingUpdate := true })
  else (true, ivDoUpdate m ivIndex ivUpdate now)

/-- `ivUpdateTest` is `CONFIG_BT_MESH_IV_UPDATE_TEST`, `now` the uptime. SRCLINE: net.c:696-821 -/
def btMeshNetIvUpdate (ivUpdateTest : Bool) (m : MeshNet) (ivIndex : UInt32) (ivUpdate : Bool)
    (now : ℤ) (txInProgress : Bool) : Bool × MeshNet :=
  if m.ivUpdate then
    if ivIndex ≠ m.ivIndex then (false, m)
    else if ivUpdate then (false, m)
    else ivChange ivUpdateTest m ivIndex ivUpdate now txInProgress
  else if ivIndex = m.ivIndex then (false, m)
  else if ivIndex < m.ivIndex ∨ m.ivIndex + 42 < ivIndex then (false, m)
  else if m.ivIndex + 1 < ivIndex then (true, ivDoUpdate (ivRecover m ivIndex) ivIndex ivUpdate now)
  else if ivIndex = m.ivIndex + 1 ∧ ¬ ivUpdate then
    (true, ivDoUpdate (ivRecover m ivIndex) ivIndex ivUpdate now)
  else if ¬ ivUpdate then (false, m)
  else if ivIndex ≠ m.ivIndex + 1 then (false, m)
  else ivChange ivUpdateTest m ivIndex ivUpdate now txInProgress

/-- `GENIE_SEQ_SAVE_INTERVAL` -/
def genieSeqSaveInterval : ℕ := 100

/-- SRCLINE: genie_storage.c:263-287 -/
def genieStorageWriteSeq (kv : GenieKv) (seq : ℕ) (forceWrite : Bool) : GenieKv :=
  if forceWrite = false ∧ 3 < seq ∧ seq % genieSeqSaveInterval ≠ 0 then kv
  else { kv with seq := some (seq % 2 ^ 24) }

/-- A key that is not there is an error, whatever `seq_read` holds.
SRCLINE: genie_storage.c:289-307 -/
def genieStorageReadSeq (kv : GenieKv) : Option (ℕ × GenieKv) :=
  match kv.seq with
  | none => none
  | some v =>
    let seq := v + genieSeqSaveInterval
    some (seq, genieStorageWriteSeq kv seq true)

/-- SRCLINE: genie_event.c:213-229 -/
def genieEventHandleSeqUpdate (kv : GenieKv) (seq : ℕ) : GenieKv :=
  genieStorageWriteSeq kv seq (seq = 0)

/-- The number of the PDU is written into it and the counter goes on; the 24-bit field wraps.
SRCLINE: net.c:850-855, 921-926 -/
def nextSeq (s : MeshNode) : MeshNode :=
  let seq := (s.net.seq + 1) % 2 ^ 24
  { s with net := { s.net with seq := seq }, kv := genieEventHandleSeqUpdate s.kv seq }

/-- The nonce of the next PDU. -/
def MeshNet.nonce (m : MeshNet) : Nonce := ⟨m.iviTx.toNat, m.seq⟩

/-- SRCLINE: net.c:895-968. No result if there is no room for the MIC. -/
def btMeshNetEncode (s : MeshNode) (ctl : Bool) (tailroom : ℕ) : Option MeshNode :=
  if ctl ∧ tailroom < 8 then none
  else if tailroom < 4 then none
  else some { nextSeq s with used := s.used ++ [s.net.nonce] }

/-- Whether the PDU was sent. `decrypted` and `encrypted` say whether the PDU could be decrypted and
encrypted again. SRCLINE: net.c:823-881 -/
def btMeshNetResend (ivUpdateTest : Bool) (s : MeshNode) (decrypted encrypted : Bool) (now : ℤ)
    (txInProgress : Bool) : Bool × MeshNode :=
  if ¬ decrypted then (false, s)
  else
    let s := { nextSeq s with used := s.used ++ [s.net.nonce] }
    if ¬ encrypted then (false, s)
    else if ¬ s.net.ivUpdate ∧ ivUpdateSeqLimit < s.net.seq then
      let m := { s.net with ivuInitiator := true }
      (true, { s with
        net := (btMeshNetIvUpdate ivUpdateTest m (m.ivIndex + 1) true now txInProgress).2 })
    else (true, s)

/-- What a provisioned node does. -/
inductive NetEvent
  | encode (ctl : Bool) (tailroom : ℕ)
  | resend (decrypted encrypted : Bool) (now : ℤ) (txInProgress : Bool)
  | ivUpdate (ivIndex : UInt32) (ivUpdate : Bool) (now : ℤ) (txInProgress : Bool)
  deriving DecidableEq, Repr

def netEvent (ivUpdateTest : Bool) (s : MeshNode) : NetEvent → MeshNode
  | .encode ctl tailroom => (btMeshNetEncode s ctl tailroom).getD s
  | .resend decrypted encrypted now txInProgress =>
    (btMeshNetResend ivUpdateTest s decrypted encrypted now txInProgress).2
  | .ivUpdate ivIndex ivUpdate now txInProgress =>
    { s with net := (btMeshNetIvUpdate ivUpdateTest s.net ivIndex ivUpdate now txInProgress).2 }

/-- A node without provisioning data; `crpl` is `CONFIG_BT_MESH_CRPL`. -/
def meshBoot (crpl : ℕ) : MeshNet where
  ivIndex := 0
  seq := 0
  ivUpdate := false
  ivuInitiator := false
  ivuTest := false
  pendingUpdate := false
  valid := false
  lastUpdate := 0
  ivuComplete := false
  rpl := List.replicate crpl Rpl.zero

/-- The 24-bit field takes the low bits of `seq`. SRCLINE: main.c:49-51, 88-126, net.c:484-546 -/
def btMeshProvision (m : MeshNet) (flags : ℕ) (ivIndex : UInt32) (seq : ℕ) (now : ℤ) : MeshNet :=
  if m.valid then m
  else
    { m with
      valid := true, ivIndex := ivIndex, ivUpdate := btMeshIvUpdate flags, lastUpdate := now
      seq := seq % 2 ^ 24 }

/-- A node that was just provisioned. SRCLINE: prov.c:1167-1183, genie_event.c:95-101 -/
def meshProvisioned (crpl : ℕ) (flags : ℕ) (ivIndex : UInt32) (now : ℤ) : MeshNode where
  net := btMeshProvision (meshBoot crpl) flags ivIndex 0 now
  kv := ⟨true, none, false, none, false⟩
  provisionState := .start
  used := []

/-- The record that is saved: of the netkey only the key is set. -/
def savedNetkey : MeshNetkeyPara := ⟨0, 0, 0⟩

/-- The writes of the handler, one after the other. SRCLINE: genie_event.c:135-148 -/
def appkeyAddWrites (kv : GenieKv) (writes : ℕ) : GenieKv :=
  let kv := if 0 < writes then { kv with devkey := true } else kv
  let kv := if 1 < writes then { kv with netkey := some savedNetkey } else kv
  if 2 < writes then { kv with appkey := true } else kv

/-- A status that is not 0 makes provisioning fail: the node and its store are reset.
SRCLINE: genie_event.c:126-162, 115-124, genie_reset.c:63-74 -/
def genieEventHandleAppkeyAdd (crpl : ℕ) (s : MeshNode) (status : ℕ) : MeshNode :=
  if s.provisionState = .start then
    if status = 0 then { s with kv := appkeyAddWrites s.kv 3, provisionState := .success }
    else
      { s with
        net := meshBoot crpl, kv := ⟨false, none, false, none, false⟩, provisionState := .unprov }
  else s

/-- `genie_provision_t` -/
structure GenieProvision where
  seq : ℕ
  netkey : MeshNetkeyPara
  deriving DecidableEq, Repr

/-- The store may be changed even if there is no result. SRCLINE: genie_provision.c:97-142 -/
def genieProvisionGetSavedData (kv : GenieKv) : Option GenieProvision × GenieKv :=
  if ¬ kv.addr then (none, kv)
  else
    match genieStorageReadSeq kv with
    | none => (none, kv)
    | some (seq, kv) =>
      if ¬ kv.devkey then (none, kv)
      else
        match kv.netkey with
        | none => (none, kv)
        | some netkey => if ¬ kv.appkey then (none, kv) else (some ⟨seq, netkey⟩, kv)

/-- The node starts with what is saved. SRCLINE: genie_event.c:8-39, genie_mesh.c:250-265 -/
def genieMeshStart (crpl : ℕ) (s : MeshNode) (kv : GenieKv) (now : ℤ) : MeshNode :=
  match genieProvisionGetSavedData kv with
  | (none, kv) => { s with net := meshBoot crpl, kv := kv, provisionState := .unprov }
  | (some p, kv) =>
    { s with
      net := btMeshProvision (meshBoot crpl) p.netkey.flag p.netkey.ivi p.seq now
      kv := kv
      provisionState := .unprov }

/-- Where the power is lost: between two operations, when a number was saved but its PDU not sent, or
in the middle of saving the keys. -/
inductive PowerLoss
  | idle
  | seqSaved
  | appkeyAdd (writes : ℕ)
  deriving DecidableEq, Repr

/-- What is in the store when the power is lost. -/
def PowerLoss.kv (s : MeshNode) : PowerLoss → GenieKv
  | .idle => s.kv
  | .seqSaved => if s.net.valid then (nextSeq s).kv else s.kv
  | .appkeyAdd writes => if s.provisionState = .start then appkeyAddWrites s.kv writes else s.kv

/-- What happens to a node after it was provisioned. -/
inductive NodeEvent
  | net (e : NetEvent)
  | appkeyAdd (status : ℕ)
  | powerLoss (loss : PowerLoss) (now : ℤ)
  deriving DecidableEq, Repr

/-- The stack of a node that is not provisioned sends nothing and receives no beacons. -/
def nodeStep (ivUpdateTest : Bool) (crpl : ℕ) (s : MeshNode) : NodeEvent → Option MeshNode
  | .net e => if s.net.valid then some (netEvent ivUpdateTest s e) else none
  | .appkeyAdd status => if s.net.valid then some (genieEventHandleAppkeyAdd crpl s status) else none
  | .powerLoss loss now => some (genieMeshStart crpl s (loss.kv s) now)

/-- Where a node is with its sequence number: switched off, between two PDUs, with a number in a PDU,
or with a number that is counted and not yet passed on to the store. -/
inductive SeqPc
  | off
  | idle
  | used
  | counted
  deriving DecidableEq, Repr

/-- The counter of a node and its store, one assignment after the other. `used` is read by no
function: the numbers that were put into PDUs. -/
structure SeqNode where
  seq : ℕ
  kv : GenieKv
  pc : SeqPc
  used : List ℕ
  deriving DecidableEq, Repr

/-- The three parts of a send, the loss of power, and the start after it, which may itself be cut off
between the read and the write of `genie_storage_read_seq`. -/
inductive SeqAct
  | use
  | increment
  | save
  | powerLoss
  | restore (cutOff : Bool)
  deriving DecidableEq, Repr

/-- A node whose number cannot be read does not start. SRCLINE: net.c:921-926,
genie_event.c:213-229, genie_storage.c:289-307, main.c:88-126 -/
def seqStep (s : SeqNode) : SeqAct → Option SeqNode
  | .use => if s.pc = .idle then some { s with used := s.used ++ [s.seq], pc := .used } else none
  | .increment =>
    if s.pc = .used then some { s with seq := (s.seq + 1) % 2 ^ 24, pc := .counted } else none
  | .save =>
    if s.pc = .counted then some { s with kv := genieEventHandleSeqUpdate s.kv s.seq, pc := .idle }
    else none
  | .powerLoss => some { s with seq := 0, pc := .off }
  | .restore cutOff =>
    if s.pc = .off then
      match genieStorageReadSeq s.kv with
      | none => some s
      | some (seq, kv) =>
        if cutOff then some s else some { s with seq := seq % 2 ^ 24, kv := kv, pc := .idle }
    else none

/-- A node that was just provisioned. -/
def seqProvisioned : SeqNode where
  seq := 0
  kv := ⟨true, none, false, none, false⟩
  pc := .idle
  used := []

end GenieSdk.Model
