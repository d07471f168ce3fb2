import GenieSdk.Model.MeshCrypto

/-!
# Relaying network PDUs

`net.c`: a PDU that is not for the node alone goes out again with a TTL that is one less. Many nodes hear what is on
the air, each as often as it does. The queue of the advertiser and the connections of the GATT proxy are left out.
-/

set_option autoImplicit false

namespace GenieSdk.Model

/-- `bt_mesh_relay_get` and `bt_mesh_gatt_proxy_get` are enabled. -/
structure RelayConf where
  relay : Bool
  gattProxy : Bool
  deriving DecidableEq, Repr

/-- What a call meets: `rx.local_match` and `rx.friend_match`, whether `bt_mesh_adv_create` has a buffer, and what
`bt_mesh_proxy_relay` returns. -/
structure RelayEnv where
  localMatch : Bool
  friendMatch : Bool
  buf : Bool
  proxyRelay : Bool
  deriving DecidableEq, Repr

/-- A PDU that goes out again, and the bearers that it goes to. -/
structure Relayed where
  data : List UInt8
  gatt : Bool
  adv : Bool
  deriving DecidableEq, Repr

/-- SRCLINE: net.c:1253-1266 -/
def relayToAdv (conf : RelayConf) : NetIf → Bool
  | .loc => true
  | .adv => conf.relay
  | .proxy => conf.gattProxy
  | .proxyCfg => false

/-- The second byte has the TTL and CTL. -/
def lowerTtl (recvTtl : ℕ) (sbuf : List UInt8) : List UInt8 :=
  sbuf.set 1 ((sbuf.getD 1 0 &&& 0x80) ||| UInt8.ofNat (recvTtl - 1))

/-- `keys` are those of the subnet that are used to send; nothing sets `rx->friend_cred`. SRCLINE: net.c:1268-1392 -/
def btMeshNetRelay (conf : RelayConf) (env : RelayEnv) (stack : List UInt8) (keys : SubnetKeys (List UInt8))
    (ivIndex : UInt32) (netIf : NetIf) (d : NetDecoded) (sbuf : List UInt8) : Option Relayed :=
  if netIf = .loc ∧ d.recvTtl = 1 then none
  else if netIf ≠ .loc ∧ d.recvTtl ≤ 1 then none
  else if netIf = .adv ∧ ¬ conf.relay ∧ ¬ conf.gattProxy then none
  else if ¬ env.buf then none
  else
    let buf := if netIf = .loc then sbuf else lowerTtl d.recvTtl sbuf
    let ivi := ivIndex - (if d.oldIv then 1 else 0)
    (btMeshNetEncrypt keys.enc stack buf ivi false).map fun pdu =>
      let gatt := conf.gattProxy || decide (netIf = .loc)
      { data := btMeshNetObfuscate pdu ivi keys.privacy
        gatt := gatt
        adv := if gatt && env.proxyRelay && addrIsUnicast d.dst then false else relayToAdv conf netIf }

/-- A node; `krFlag` is that of a subnet. -/
structure RelayNode where
  net : NetNode (List UInt8)
  krFlag : ℕ → Bool
  conf : RelayConf

/-- `rx->sub->keys[rx->sub->kr_flag]` -/
def RelayNode.txKeys (node : RelayNode) (netIdx : ℕ) : Option (SubnetKeys (List UInt8)) :=
  (node.net.subs.find? fun sub => sub.netIdx = netIdx).map fun sub =>
    if node.krFlag netIdx then sub.keys.2 else sub.keys.1

/-- What is handed to the transport layer, and what goes out again. SRCLINE: net.c:1473-1525 -/
def netRecvRelay (node : RelayNode) (env : RelayEnv) (stack : List UInt8) (netIf : NetIf) (s : NetCaches)
    (data : List UInt8) : Option (NetDecoded × List UInt8) × Option Relayed :=
  match (btMeshNetDecode node.net netIf s data).1 with
  | .error _ => (none, none)
  | .ok (d, buf) =>
    (some (d, buf),
      if ¬ addrIsUnicast d.dst ∨ ¬ env.localMatch ∧ ¬ env.friendMatch then
        (node.txKeys d.netIdx).bind fun keys => btMeshNetRelay node.conf env stack keys node.net.ivIndex netIf d buf
      else none)

/-! ## What many nodes do -/

/-- A node hears the `index`-th PDU that was ever on the air, in the state in which it is then. -/
structure Hearing where
  index : ℕ
  node : RelayNode
  caches : NetCaches
  netIf : NetIf
  env : RelayEnv
  stack : List UInt8

/-- What was on the air, and what was handed on by whom. -/
structure Flood where
  air : List (List UInt8)
  accepted : List (RelayNode × NetDecoded × List UInt8)

/-- A PDU goes out again on one bearer at least, or not at all. -/
def floodStep (s : Flood) (h : Hearing) : Flood :=
  match s.air[h.index]? with
  | none => s
  | some data =>
    let (up, out) := netRecvRelay h.node h.env h.stack h.netIf h.caches data
    { air := s.air ++ (out.toList.filter fun r => r.gatt || r.adv).map (·.data)
      accepted := s.accepted ++ (up.map fun p => (h.node, p.1, p.2)).toList }

end GenieSdk.Model
