import GenieSdk.Model.MeshCrypto

/-!
# The access layer

`access.c` and the upper half of `transport.c`: a model's message gets its opcode in front, is encrypted with a key
of the application or of the device and sent; a node that receives it looks for the key, decrypts it and calls the
handlers of the models that know its opcode, are bound to its key and belong to an element that it is for.

A node is provisioned. Messages for an LPN of this Friend and what the Friend queue takes are left out, and so is the
room in the buffers. What the LPN state machine and `bt_mesh_friend_match` say is a parameter.
-/

set_option autoImplicit false

namespace GenieSdk.Model

open GenieSdk.Lib

/-! ## The data -/

/-- `BT_MESH_KEY_DEV` -/
def btMeshKeyDev : ℕ := 0xfffe

/-- `BT_MESH_ADDR_IS_GROUP` -/
def addrIsGroup (addr : ℕ) : Bool := 0xc000 ≤ addr ∧ addr ≤ 0xff00

/-- `BT_MESH_ADDR_IS_VIRTUAL` -/
def addrIsVirtual (addr : ℕ) : Bool := 0x8000 ≤ addr ∧ addr < 0xc000

/-- `BT_MESH_ADDR_GENIE_ALL_NODES` -/
def addrGenieAllNodes : ℕ := 0xcfff

/-- `struct bt_mesh_app_keys` -/
structure AppKeys where
  id : ℕ
  val : List UInt8
  deriving DecidableEq, Repr

/-- `struct bt_mesh_app_key` -/
structure AppKey where
  netIdx : ℕ
  appIdx : ℕ
  updated : Bool
  keys : AppKeys × AppKeys
  deriving DecidableEq, Repr

/-- `struct bt_mesh_model_op`; `func` names the handler. -/
structure ModelOp where
  opcode : ℕ
  minLen : ℕ
  func : ℕ
  deriving DecidableEq, Repr

/-- `struct bt_mesh_model`; `op` has the operations in front of the end mark. -/
structure MeshModel where
  keys : List ℕ
  groups : List ℕ
  op : List ModelOp
  deriving DecidableEq, Repr

/-- `struct bt_mesh_elem` -/
structure MeshElem where
  addr : ℕ
  gropAddr : ℕ
  models : List MeshModel
  vndModels : List MeshModel
  deriving DecidableEq, Repr

/-- What the access layer of a node has. `labels` are the virtual addresses with their UUIDs; `friend` and `relay` say
that these features are on, `friendConfig` is `CONFIG_BT_MESH_FRIEND`. -/
structure AccessNode where
  devKey : List UInt8
  appKeys : List AppKey
  labels : List (ℕ × LabelUuid)
  elems : List MeshElem
  friend : Bool
  relay : Bool
  friendConfig : Bool

/-! ## Opcodes -/

/-- SRCLINE: access.c:666-687 -/
def btMeshModelMsgInit (opcode : ℕ) : List UInt8 :=
  if opcode < 0x100 then [UInt8.ofNat opcode]
  else if opcode < 0x10000 then beBytes 2 opcode
  else UInt8.ofNat (opcode / 2 ^ 16 % 256) :: leBytes 2 (opcode % 2 ^ 16)

/-- The opcode and what follows it. SRCLINE: access.c:508-545 -/
def getOpcode (buf : List UInt8) : Option (ℕ × List UInt8) :=
  let first := (buf.getD 0 0).toNat
  if first / 64 < 2 then
    if first = 0x7f then none else some (first, buf.drop 1)
  else if first / 64 = 2 then
    if buf.length < 2 then none else some (beVal (buf.take 2), buf.drop 2)
  else if buf.length < 3 then none
  else some (first * 2 ^ 16 + leVal ((buf.drop 1).take 2), buf.drop 3)

/-! ## The keys -/

/-- SRCLINE: transport.c:443-460 -/
def btMeshAppKeyFind (appKeys : List AppKey) (appIdx : ℕ) : Option AppKey :=
  appKeys.find? fun key => key.netIdx ≠ 0xffff ∧ key.appIdx = appIdx

/-- SRCLINE: cfg_srv.c:3917-3936 -/
def btMeshLabelUuidGet (labels : List (ℕ × LabelUuid)) (addr : ℕ) : Option LabelUuid :=
  (labels.find? fun label => label.1 = addr).map (·.2)

/-- The additional data of a message. -/
def AccessNode.ad (node : AccessNode) (addr : ℕ) : Option LabelUuid :=
  if addrIsVirtual addr then btMeshLabelUuidGet node.labels addr else none

/-- The key that a message is sent with, and its identifier. SRCLINE: transport.c:504-531 -/
def AccessNode.txKey (node : AccessNode) (krPhase : KrPhase) (appIdx : ℕ) : Option AppKeys :=
  if appIdx = btMeshKeyDev then some ⟨0, node.devKey⟩
  else
    (btMeshAppKeyFind node.appKeys appIdx).map fun key =>
      if krPhase = .phase2 ∧ key.updated then key.keys.2 else key.keys.1

/-- The keys of an application key that a message is received with. -/
def AppKey.rxKeys (key : AppKey) (newKey : Bool) : AppKeys :=
  if newKey ∧ key.updated then key.keys.2 else key.keys.1

/-! ## Sending -/

/-- What `bt_mesh_trans_send` reads of its context and of `struct bt_mesh_net_tx`. -/
structure AccessTx where
  src : ℕ
  dst : ℕ
  sendTtl : ℕ
  appIdx : ℕ
  krPhase : KrPhase
  sendRel : Bool
  deriving DecidableEq, Repr

/-- An encrypted message, and whether it is to be segmented. -/
structure AccessSdu where
  sendRel : Bool
  aid : ℕ
  aszmic : Bool
  sdu : List UInt8
  deriving DecidableEq, Repr

/-- SRCLINE: transport.c:481-568 -/
def btMeshTransSend (node : AccessNode) (stack : List UInt8) (m : MeshNet) (tx : AccessTx) (tailroom : ℕ)
    (msg : List UInt8) : Option AccessSdu :=
  if tailroom < 4 then none
  else
    let sendRel := tx.sendRel || decide (11 < msg.length)
    match node.txKey tx.krPhase tx.appIdx with
    | none => none
    | some key =>
      let aszmic := sendRel && decide (8 ≤ tailroom)
      (btMeshAppEncrypt key.val stack (tx.appIdx = btMeshKeyDev) aszmic msg (node.ad tx.dst) tx.src tx.dst m.seq
        m.iviTx).map fun sdu => ⟨sendRel, key.id, aszmic, sdu⟩

/-- `UNSEG_HDR` -/
def unsegHdr (devKey : Bool) (aid : ℕ) : UInt8 := UInt8.ofNat (if devKey then 0 else 64 + aid % 64)

/-- The PDU that `send_unseg` passes to the network layer. SRCLINE: transport.c:104-149 -/
def unsegPdu (tx : AccessTx) (p : AccessSdu) : List UInt8 := unsegHdr (tx.appIdx = btMeshKeyDev) p.aid :: p.sdu

/-- `BT_MESH_ADV_DATA_SIZE` -/
def btMeshAdvDataSize : ℕ := 29

/-- `BT_MESH_NET_HDR_LEN` -/
def btMeshNetHdrLen : ℕ := 9

/-- The network PDU of a message that is not segmented; there is a buffer for it. So many LPNs of the node take a copy
into their Friend queue, and each copy takes a sequence number; a message for one of them goes out by the queue only.
SRCLINE: transport.c:104-149, 556-567, friend.c:1255-1306, 1435-1466 -/
def sendAccess (node : AccessNode) (stack : List UInt8) (keys : SubnetKeys (List UInt8)) (m : MeshNet) (tx : AccessTx)
    (lpns tailroom : ℕ) (msg : List UInt8) : Option (List UInt8) :=
  match btMeshTransSend node stack m tx tailroom msg with
  | none => none
  | some p =>
    if p.sendRel then none
    else if 0 < lpns ∧ addrIsUnicast tx.dst then none
    else
      let pdu := unsegPdu tx p
      netEncodePdu keys stack { m with seq := (m.seq + lpns) % 2 ^ 24 } ⟨tx.src, tx.dst, tx.sendTtl, false⟩ false
        (btMeshAdvDataSize - btMeshNetHdrLen - pdu.length) pdu

/-! ## Decryption -/

/-- The loop over the application keys. SRCLINE: transport.c:717-763 -/
def sduRecvKeys (stack : List UInt8) (netIdx : ℕ) (newKey aszmic : Bool) (aid : ℕ) (net : NetRx) (ivi : UInt32)
    (ad : Option LabelUuid) (buf : List UInt8) : List AppKey → Option (ℕ × List UInt8)
  | [] => none
  | key :: rest =>
    let next := sduRecvKeys stack netIdx newKey aszmic aid net ivi ad buf rest
    if key.netIdx ≠ netIdx then next
    else if aid ≠ (key.rxKeys newKey).id then next
    else
      match btMeshAppDecrypt (key.rxKeys newKey).val stack false aszmic buf (buf.length - appMicLen aszmic) ad net.src
        net.dst net.seq ivi with
      | none => next
      | some sdu => some (key.appIdx, sdu)

/-- The index of the key and what `bt_mesh_model_recv` is called with. SRCLINE: transport.c:652-768 -/
def sduRecv (node : AccessNode) (stack : List UInt8) (netIdx : ℕ) (newKey : Bool) (ivi : UInt32) (net : NetRx)
    (hdr : UInt8) (aszmic : Bool) (buf : List UInt8) : Option (ℕ × List UInt8) :=
  if buf.length < 1 + appMicLen aszmic then none
  else if node.friendConfig ∧ ¬ net.localMatch then none
  else
    let ad := node.ad net.dst
    if hdr.toNat / 64 % 2 = 0 then
      (btMeshAppDecrypt node.devKey stack true aszmic buf (buf.length - appMicLen aszmic) ad net.src net.dst net.seq
        ivi).map fun sdu => (btMeshKeyDev, sdu)
    else sduRecvKeys stack netIdx newKey aszmic (hdr.toNat % 64) net ivi ad buf node.appKeys

/-! ## The models -/

/-- SRCLINE: access.c:344-367 -/
def btMeshModelFindGroup (elem : MeshElem) (mod : MeshModel) (addr : ℕ) : Bool :=
  mod.groups.contains addr || decide (addr = elem.gropAddr) || decide (addr = addrGenieAllNodes)

/-- SRCLINE: access.c:369-399 -/
def btMeshElemFindGroup (elem : MeshElem) (addr : ℕ) : Bool :=
  (elem.models.any fun mod => btMeshModelFindGroup elem mod addr) ||
    elem.vndModels.any fun mod => btMeshModelFindGroup elem mod addr

/-- SRCLINE: access.c:401-424 -/
def btMeshElemFind (elems : List MeshElem) (addr : ℕ) : Bool :=
  elems.any fun elem =>
    if addrIsGroup addr ∨ addrIsVirtual addr then btMeshElemFindGroup elem addr else decide (elem.addr = addr)

/-- `BT_MESH_ADDR_ALL_NODES`, `BT_MESH_ADDR_FRIENDS` and `BT_MESH_ADDR_RELAYS`. SRCLINE: access.c:547-567 -/
def btMeshFixedGroupMatch (node : AccessNode) (addr : ℕ) : Bool :=
  decide (addr = 0xffff) || decide (addr = addrGenieAllNodes) || (decide (addr = 0xfffd) && node.friend) ||
    (decide (addr = 0xfffe) && node.relay)

/-- SRCLINE: access.c:460-474 -/
def modelHasKey (mod : MeshModel) (key : ℕ) : Bool := mod.keys.contains key

/-- The index of the model and the operation. SRCLINE: access.c:476-506 -/
def findOp (appIdx opcode : ℕ) : List MeshModel → Option (ℕ × ModelOp)
  | [] => none
  | mod :: rest =>
    let next := (findOp appIdx opcode rest).map fun (i, op) => (i + 1, op)
    if ¬ modelHasKey mod appIdx then next
    else
      match mod.op.find? fun op => op.opcode = opcode with
      | some op => some (0, op)
      | none => next

/-- Whether the element at an index takes messages for an address. SRCLINE: access.c:604-622 -/
def elemTakes (node : AccessNode) (elem : MeshElem) (i addr : ℕ) : Bool :=
  if addrIsUnicast addr then decide (elem.addr = addr)
  else if addrIsGroup addr ∨ addrIsVirtual addr then btMeshElemFindGroup elem addr
  else decide (i = 0) && btMeshFixedGroupMatch node addr

/-- The models that an opcode is looked for in: those of the vendors have opcodes of three bytes. -/
def MeshElem.modelsFor (elem : MeshElem) (opcode : ℕ) : List MeshModel :=
  if opcode < 0x10000 then elem.models else elem.vndModels

/-- The call of a handler: the element, the model in its list, and what the handler gets. -/
structure ModelCall where
  elem : ℕ
  model : ℕ
  func : ℕ
  src : ℕ
  appIdx : ℕ
  opcode : ℕ
  params : List UInt8
  deriving DecidableEq, Repr

/-- SRCLINE: access.c:602-662 -/
def elemRecv (node : AccessNode) (src dst appIdx opcode : ℕ) (params : List UInt8) (elem : MeshElem) (i : ℕ) :
    Option ModelCall :=
  if ¬ elemTakes node elem i dst then none
  else
    match findOp appIdx opcode (elem.modelsFor opcode) with
    | none => none
    | some (j, op) => if params.length < op.minLen then none else some ⟨i, j, op.func, src, appIdx, opcode, params⟩

/-- The handlers that are called. SRCLINE: access.c:569-664 -/
def btMeshModelRecv (node : AccessNode) (src dst appIdx : ℕ) (buf : List UInt8) : List ModelCall :=
  match getOpcode buf with
  | none => []
  | some (opcode, params) =>
    node.elems.zipIdx.filterMap fun (elem, i) => elemRecv node src dst appIdx opcode params elem i

/-! ## Receiving -/

/-- What is around the stack when a PDU arrives: whether the low power mode ignores it,
`bt_mesh_friend_match`, and the time. -/
structure RecvEnv where
  lpnIgnores : Bool
  friendMatch : ℕ → ℕ → Bool
  now : ℕ

/-- `struct bt_mesh_net_rx` of a decoded PDU. SRCLINE: net.c:1510-1511 -/
def netRxOf (node : AccessNode) (env : RecvEnv) (d : NetDecoded) : NetRx where
  src := d.src
  dst := d.dst
  seq := d.seq
  oldIv := d.oldIv
  ctl := d.ctl
  localMatch := btMeshFixedGroupMatch node d.dst || btMeshElemFind node.elems d.dst
  friendMatch := env.friendMatch d.netIdx d.dst
  sendTtl := d.sendTtl

/-- The handlers that are called for the SDU that the transport layer has handed on. -/
def handedCalls (node : AccessNode) (stack : List UInt8) (netIdx : ℕ) (newKey : Bool) (ivIndex : UInt32)
    (h : Handed) : List ModelCall :=
  if h.net.ctl then []
  else
    match sduRecv node stack netIdx newKey (ivIndex - (if h.net.oldIv then 1 else 0)) h.net h.hdr h.aszmic h.buf with
    | none => []
    | some (appIdx, sdu) => btMeshModelRecv node h.net.src h.net.dst appIdx sdu

/-- Both layers have the same IV index. SRCLINE: net.c:1472-1525, transport.c:1552-1652 -/
def btMeshNetRecv (cfg : RxCfg) (net : NetNode (List UInt8)) (node : AccessNode) (stack : List UInt8) (netIf : NetIf)
    (env : RecvEnv) (data : List UInt8) (s : NetCaches × TransRx) : List ModelCall × (NetCaches × TransRx) :=
  match btMeshNetDecode net netIf s.1 data with
  | (.error _, c) => ([], (c, s.2))
  | (.ok (d, buf), c) =>
    if env.lpnIgnores then ([], (c, s.2))
    else
      let (ret, t) := transRecv cfg { s.2 with ivIndex := net.ivIndex } (netRxOf node env d) (buf.drop 9) env.now
      let calls :=
        if ret = .handed then (t.handed.getLast?.map (handedCalls node stack d.netIdx d.newKey net.ivIndex)).getD []
        else []
      (calls, (c, t))

end GenieSdk.Model
