import GenieSdk.Lib.Blocks
import GenieSdk.Analysis.NetPdu
import GenieSdk.Model.NetRelay

/-!
# What a flood carries

A PDU is relayed by every node that hears it, and nodes hear each other's copies in any order and in any state. **All
copies say what was sent but for the TTL, and this is one less with every relay** (`flood_carries`): whoever accepts
one hands on the header and the payload that the sender encoded, and no copy goes further than the TTL allows. Where
the nodes pass it on, it goes as far as that (`flood_reaches`).
-/

set_option autoImplicit false

namespace GenieSdk.Analysis.NetFlood

open GenieSdk.Lib GenieSdk.Model GenieSdk.Analysis.NetPdu GenieSdk.Analysis.Ccm

variable {node : NetNode (List UInt8)} {netIf : NetIf} {keys : SubnetKeys (List UInt8)} {stack stack' : List UInt8}
  {s : NetCaches} {data plain plain' payload buf : List UInt8} {m : MeshNet} {tx : NetTx} {d : NetDecoded}
  {netIdx tailroom : ℕ} {newKey : Bool}

/-! ## What a flood may do -/

/-- A header after so many relays. -/
def relayedTx (tx : NetTx) (hops : ℕ) : NetTx := { tx with sendTtl := tx.sendTtl - hops }

/-- A copy of the PDU; a TTL of 0 or 1 is not relayed. -/
def Copy (keys : SubnetKeys (List UInt8)) (m : MeshNet) (tx : NetTx) (payload data : List UInt8) : Prop :=
  ∃ hops stack tailroom, hops ≤ tx.sendTtl - 1 ∧
    netEncodePdu keys stack m (relayedTx tx hops) false tailroom payload = some data

/-- What a node hands on of a copy. -/
def HandsOn (keys : SubnetKeys (List UInt8)) (m : MeshNet) (tx : NetTx) (payload : List UInt8)
    (a : RelayNode × NetDecoded × List UInt8) : Prop :=
  ∃ hops netIdx newKey, hops ≤ tx.sendTtl - 1 ∧
    a.2.1 = received a.1.net m (relayedTx tx hops) netIdx newKey ∧
      a.2.2 = netHeader keys.nid m (relayedTx tx hops) ++ payload

/-- A node of the subnet hears the PDU on a bearer: of its keys one has the NID, it is also the one that it sends
with, and its IV index is that of the sender or the next one. -/
structure InSubnet (keys : SubnetKeys (List UInt8)) (m : MeshNet) (h : Hearing) : Prop where
  crypto : h.node.net.crypto = sdkNetCrypto h.stack
  only : ∀ e ∈ h.node.net.tried, e.2.2.nid = keys.nid → e.2.2 = keys
  txKeys : ∀ netIdx newKey, (netIdx, newKey, keys) ∈ h.node.net.tried → h.node.txKeys netIdx = some keys
  ivIndex : m.iviTx = h.node.net.ivIndex ∨ m.iviTx = h.node.net.ivIndex - 1
  bearer : h.netIf = .adv ∨ h.netIf = .proxy

/-- A node of the subnet hears on a bearer, not on the local interface. -/
theorem InSubnet.netIf_ne {h : Hearing} (hin : InSubnet keys m h) : h.netIf ≠ .loc ∧ h.netIf ≠ .proxyCfg := by
  obtain hif | hif := hin.bearer
  · rw [hif]
    exact ⟨by decide, by decide⟩
  · rw [hif]
    exact ⟨by decide, by decide⟩

/-! ## One copy -/

/-- A PDU has one plain text under a key. -/
theorem pduOf_inj {ivi : UInt32} {proxy : Bool} (hplain : 8 ≤ plain.length) (hplain' : 8 ≤ plain'.length)
    (hdata : 18 ≤ data.length) (h : pduOf keys stack ivi proxy plain = some data)
    (h' : pduOf keys stack' ivi proxy plain' = some data) : plain = plain' := by
  have hseven : 7 ≤ data.length := by omega
  have hbuf : 18 ≤ (btMeshNetObfuscate data ivi keys.privacy).length := by
    rwa [length_obfuscate hseven]
  have hdec := (net_exact stack [] hbuf).2 ⟨hplain, (pduOf_eq_some hplain hseven).1 h⟩
  have hdec' := (net_exact stack' [] hbuf).2 ⟨hplain', (pduOf_eq_some hplain' hseven).1 h'⟩
  exact Option.some.inj (hdec.symm.trans hdec')

/-- The byte with the TTL. -/
theorem lowerTtl_netHeader (nid : ℕ) (m : MeshNet) (payload : List UInt8) (httl : tx.sendTtl < 128)
    (hpos : 1 ≤ tx.sendTtl) :
    lowerTtl tx.sendTtl (netHeader nid m tx ++ payload) = netHeader nid m (relayedTx tx 1) ++ payload := by
  have hbyte : ∀ t < 128, ∀ ctl : Bool, 1 ≤ t →
      (UInt8.ofNat (if ctl then t ||| 0x80 else t) &&& 0x80) ||| UInt8.ofNat (t - 1) =
        UInt8.ofNat (if ctl then (t - 1) ||| 0x80 else t - 1) := by decide +kernel
  exact congrArg (fun b => [UInt8.ofNat (nid ||| m.iviTx.toNat % 2 * 128), b] ++ beBytes 3 m.seq ++ beBytes 2 tx.src ++
    beBytes 2 tx.dst ++ payload) (hbyte tx.sendTtl httl tx.ctl hpos)

/-- Lowering the TTL gives the copy of the next relay. -/
theorem lowerTtl_relayed {hops : ℕ} (nid : ℕ) (m : MeshNet) (payload : List UInt8) (httl : tx.sendTtl < 128)
    (hhops : hops + 1 ≤ tx.sendTtl) :
    lowerTtl (relayedTx tx hops).sendTtl (netHeader nid m (relayedTx tx hops) ++ payload) =
      netHeader nid m (relayedTx tx (hops + 1)) ++ payload := by
  have hleft : (relayedTx tx hops).sendTtl = tx.sendTtl - hops := rfl
  have hnext : relayedTx (relayedTx tx hops) 1 = relayedTx tx (hops + 1) := by
    unfold relayedTx
    rw [Nat.sub_sub]
  rw [← hnext]
  exact lowerTtl_netHeader nid m payload (by omega) (by omega)

/-- The header of a relayed copy fits. -/
theorem TxFits.relayed (h : TxFits tx keys.nid m.seq) (hops : ℕ) : TxFits (relayedTx tx hops) keys.nid m.seq :=
  ⟨h.nid, (Nat.sub_le _ _).trans_lt h.ttl, h.seq, h.src, h.dst⟩

/-- What a node of the subnet decodes of a PDU that was encoded under the key. -/
theorem InSubnet.decoded {h : Hearing} (hin : InSubnet keys m h) (hfits : TxFits tx keys.nid m.seq)
    (hdata : netEncodePdu keys stack m tx false tailroom payload = some data)
    (hok : (btMeshNetDecode h.node.net h.netIf h.caches data).1 = .ok (d, buf)) :
    ∃ netIdx newKey, (netIdx, newKey, keys) ∈ h.node.net.tried ∧ d = received h.node.net m tx netIdx newKey ∧
      buf = netHeader keys.nid m tx ++ payload ∧
        h.node.net.ivIndex - (if d.oldIv then 1 else 0) = m.iviTx := by
  replace hdata := ((netEncodePdu_eq_some false).1 hdata).2
  have hplain : 8 ≤ (netHeader keys.nid m tx ++ payload).length := by
    rw [List.length_append, length_netHeader]
    omega
  have hreads : ReadsAs (netHeader keys.nid m tx ++ payload) keys.nid m tx := netHeader_reads hfits
  have hnid := hfits.nid
  have hfirst : (data.getD 0 0).toNat = keys.nid + m.iviTx.toNat % 2 * 128 := by
    rw [getD_pduOf hplain hdata, hreads.first]
  obtain ⟨hiviOf, hold⟩ := iviOf_eq hin.ivIndex (by omega : (data.getD 0 0).toNat / 128 = m.iviTx.toNat % 2)
  obtain ⟨hlen, -, netIdx, newKey, src, hfind, -, rfl⟩ := decode_eq_ok.1 hok
  obtain ⟨keys', s', hmem, hnid', hdec⟩ := exists_of_find hfind
  obtain rfl : keys' = keys := hin.only (netIdx, newKey, keys') hmem (by rw [← hnid']; omega)
  have hproxy : decide (h.netIf = .proxyCfg) = false := decide_eq_false hin.netIf_ne.2
  obtain ⟨hbuf, hpdu, -, -, hsrc⟩ := (netDecrypt_exact [] hin.crypto hlen).1 hdec
  rw [hproxy, hiviOf] at hpdu
  obtain rfl := pduOf_inj hbuf hplain hlen hpdu hdata
  obtain rfl : src = tx.src := hsrc.trans hreads.src
  exact ⟨netIdx, newKey, hmem, decodedOf_eq hreads hfits.ttl hold, rfl, hiviOf⟩

/-- A copy goes out with a TTL that is one less. -/
theorem relay_eq_some {conf : RelayConf} {env : RelayEnv} {r : Relayed} {ivi : UInt32} (hif : netIf ≠ .loc)
    (hivi : ivi - (if d.oldIv then 1 else 0) = m.iviTx)
    (h : btMeshNetRelay conf env stack keys ivi netIf d buf = some r) :
    2 ≤ d.recvTtl ∧ pduOf keys stack m.iviTx false (lowerTtl d.recvTtl buf) = some r.data := by
  unfold btMeshNetRelay at h
  rw [if_neg (fun hloc => hif hloc.1)] at h
  split at h
  · cases h
  next httl =>
  split at h
  · cases h
  split at h
  · cases h
  dsimp only at h
  rw [hivi] at h
  obtain ⟨pdu, henc, rfl⟩ := Option.map_eq_some_iff.1 h
  refine ⟨?_, ?_⟩
  · by_contra hlow
    exact httl ⟨hif, by omega⟩
  · unfold pduOf
    rw [henc]
    rfl

/-! ## Every run -/

/-- What holds all along. -/
structure Carries (keys : SubnetKeys (List UInt8)) (m : MeshNet) (tx : NetTx) (payload : List UInt8) (s : Flood) :
    Prop where
  air : ∀ data ∈ s.air, Copy keys m tx payload data
  accepted : ∀ a ∈ s.accepted, HandsOn keys m tx payload a

/-- A node hears a copy. -/
theorem Copy.heard {h : Hearing} (hcopy : Copy keys m tx payload data) (hin : InSubnet keys m h)
    (hfits : TxFits tx keys.nid m.seq) :
    (∀ p, (netRecvRelay h.node h.env h.stack h.netIf h.caches data).1 = some p →
      HandsOn keys m tx payload (h.node, p.1, p.2)) ∧
    ∀ r, (netRecvRelay h.node h.env h.stack h.netIf h.caches data).2 = some r → Copy keys m tx payload r.data := by
  obtain ⟨hops, stack', tailroom, hhops, hdata⟩ := hcopy
  have hrelayed := TxFits.relayed hfits hops
  unfold netRecvRelay
  generalize hok : (btMeshNetDecode h.node.net h.netIf h.caches data).1 = res
  cases res with
  | error err =>
    refine ⟨fun p hp => ?_, fun r hr => ?_⟩
    · cases hp
    · cases hr
  | ok p =>
    obtain ⟨d, buf⟩ := p
    obtain ⟨netIdx, newKey, hmem, hd, hbuf, hivi⟩ := hin.decoded hrelayed hdata hok
    refine ⟨fun p hp => ?_, fun r hr => ?_⟩
    · cases hp
      exact ⟨hops, netIdx, newKey, hhops, hd, hbuf⟩
    · dsimp only at hr
      split at hr
      · obtain ⟨keys', hkeys, hrelay⟩ := Option.bind_eq_some_iff.1 hr
        have hnetIdx : d.netIdx = netIdx := by rw [hd]; rfl
        rw [hnetIdx, hin.txKeys netIdx newKey hmem] at hkeys
        cases hkeys
        obtain ⟨httl, hpdu⟩ := relay_eq_some hin.netIf_ne.1 hivi hrelay
        have hrecv : d.recvTtl = (relayedTx tx hops).sendTtl := by rw [hd]; rfl
        have hleft : (relayedTx tx hops).sendTtl = tx.sendTtl - hops := rfl
        rw [hrecv, hbuf, lowerTtl_relayed keys.nid m payload hfits.ttl (by omega)] at hpdu
        have hroom : (if tx.ctl then 8 else 4) ≤ tailroom := ((netEncodePdu_eq_some false).1 hdata).1
        exact ⟨hops + 1, h.stack, tailroom, by omega, (netEncodePdu_eq_some false).2 ⟨hroom, hpdu⟩⟩
      · cases hr

/-- A node that hears and relays keeps what the flood carries. -/
theorem Carries.step {h : Hearing} {s : Flood} (hs : Carries keys m tx payload s) (hin : InSubnet keys m h)
    (hfits : TxFits tx keys.nid m.seq) : Carries keys m tx payload (floodStep s h) := by
  unfold floodStep
  split
  · exact hs
  next data hdata =>
  obtain ⟨hup, hout⟩ := (hs.air data (List.mem_of_getElem? hdata)).heard hin hfits
  constructor
  · intro pdu hpdu
    obtain hold | hnew := List.mem_append.1 hpdu
    · exact hs.air pdu hold
    · obtain ⟨r, hr, rfl⟩ := List.mem_map.1 hnew
      exact hout r (Option.mem_toList.1 (List.mem_of_mem_filter hr))
  · intro a ha
    obtain hold | hnew := List.mem_append.1 ha
    · exact hs.accepted a hold
    · obtain ⟨p, hp, rfl⟩ := Option.map_eq_some_iff.1 (Option.mem_toList.1 hnew)
      exact hup p hp

/-- A run. -/
theorem Carries.run {hs : List Hearing} {s : Flood} (h : Carries keys m tx payload s)
    (hin : ∀ x ∈ hs, InSubnet keys m x) (hfits : TxFits tx keys.nid m.seq) :
    Carries keys m tx payload (hs.foldl floodStep s) := by
  induction hs generalizing s with
  | nil => exact h
  | cons x hs ih =>
    exact ih (h.step (hin x List.mem_cons_self) hfits) fun y hy => hin y (List.mem_cons_of_mem x hy)

/-- **A flood carries what was sent**: in every run in which nodes of the subnet hear the PDU and its copies, each
copy is what the sender encodes with a TTL that is less by the relays, and what is handed on is the header and the
payload that were sent. -/
theorem flood_carries {hs : List Hearing} (hfits : TxFits tx keys.nid m.seq)
    (hsubnet : ∀ h ∈ hs, InSubnet keys m h)
    (hdata : netEncodePdu keys stack m tx false tailroom payload = some data) :
    (∀ pdu ∈ (hs.foldl floodStep ⟨[data], []⟩).air, Copy keys m tx payload pdu) ∧
      ∀ a ∈ (hs.foldl floodStep ⟨[data], []⟩).accepted, HandsOn keys m tx payload a := by
  have hstart : Carries keys m tx payload ⟨[data], []⟩ := by
    refine ⟨fun pdu hpdu => ?_, List.forall_mem_nil _⟩
    obtain rfl := List.mem_singleton.1 hpdu
    exact ⟨0, stack, tailroom, Nat.zero_le _, hdata⟩
  have hrun := hstart.run hsubnet hfits
  exact ⟨hrun.air, hrun.accepted⟩

/-! ## Along a path -/

/-- A node relays what it hears on the air: it finds the key, nothing of the message is in its caches, and the message
is not for itself alone. -/
structure PassesOn (keys : SubnetKeys (List UInt8)) (m : MeshNet) (tx : NetTx) (payload : List UInt8) (h : Hearing) :
    Prop where
  relay : h.node.conf.relay = true
  buf : h.env.buf = true
  bearer : h.netIf = .adv
  onward : ¬ addrIsUnicast tx.dst ∨ ¬ h.env.localMatch ∧ ¬ h.env.friendMatch
  known : ∃ before netIdx newKey after, h.node.net.tried = before ++ (netIdx, newKey, keys) :: after ∧
    ∀ e ∈ before, e.2.2.nid ≠ keys.nid
  addressed : Addressed h.node.net .adv tx.src tx.dst
  unseen : msgHash m.iviTx (netHeader keys.nid m tx) ∉ h.caches.msg.slots
  new : ∀ pdu, Copy keys m tx payload pdu → dupVal pdu ∉ h.caches.dup.slots

/-- Such a node decodes a copy, and has the key to relay it. -/
theorem PassesOn.decodes {h : Hearing} {hops : ℕ} (hpass : PassesOn keys m tx payload h) (hin : InSubnet keys m h)
    (hfits : TxFits tx keys.nid m.seq) (hunicast : addrIsUnicast tx.src)
    (hpayload : (if tx.ctl then 1 else 5) ≤ payload.length) (hhops : hops ≤ tx.sendTtl - 1)
    (hdata : netEncodePdu keys stack m (relayedTx tx hops) false tailroom payload = some data) :
    ∃ netIdx newKey, h.node.txKeys netIdx = some keys ∧
      (btMeshNetDecode h.node.net h.netIf h.caches data).1 =
        .ok (received h.node.net m (relayedTx tx hops) netIdx newKey,
          netHeader keys.nid m (relayedTx tx hops) ++ payload) := by
  obtain ⟨before, netIdx, newKey, after, htried, hbefore⟩ := hpass.known
  have hrelayed := TxFits.relayed hfits hops
  have hnew : NotDup h.netIf h.caches data := fun _ => hpass.new data ⟨hops, stack, tailroom, hhops, hdata⟩
  have haddr : Addressed h.node.net h.netIf tx.src tx.dst := hpass.bearer ▸ hpass.addressed
  have hlen : (if tx.ctl then 10 else 14) ≤ (netHeader keys.nid m (relayedTx tx hops) ++ payload).length := by
    rw [List.length_append, length_netHeader, (shortest_pdu tx.ctl).1]
    omega
  have hpdu : pduOf keys stack m.iviTx (h.netIf = .proxyCfg) (netHeader keys.nid m (relayedTx tx hops) ++ payload) =
      some data := by
    rw [decide_eq_false hin.netIf_ne.2]
    exact ((netEncodePdu_eq_some false).1 hdata).2
  have hreads : ReadsAs (netHeader keys.nid m (relayedTx tx hops) ++ payload) keys.nid m (relayedTx tx hops) :=
    netHeader_reads hrelayed
  -- the hash leaves out the TTL
  have hseen : h.netIf = .adv →
      msgHash m.iviTx (netHeader keys.nid m (relayedTx tx hops) ++ payload) ∉ h.caches.msg.slots :=
    fun _ => hpass.unseen
  have hmem : (netIdx, newKey, keys) ∈ h.node.net.tried := by
    rw [htried]
    exact List.mem_append_right before List.mem_cons_self
  exact ⟨netIdx, newKey, hin.txKeys netIdx newKey hmem,
    decode_pduOf hin.crypto htried hbefore hrelayed.nid hrelayed.ttl hreads hlen hin.ivIndex hunicast haddr hseen hpdu
      hnew⟩

/-- A relay with a buffer sends what it has. -/
theorem relay_isSome {conf : RelayConf} {env : RelayEnv} {ivi : UInt32} (stack : List UInt8)
    (hrelay : conf.relay = true) (hbuf : env.buf = true) (hivi : ivi - (if d.oldIv then 1 else 0) = m.iviTx)
    (httl : 2 ≤ d.recvTtl) :
    ∃ r, btMeshNetRelay conf env stack keys ivi .adv d buf = some r ∧ (r.gatt || r.adv) = true ∧
      pduOf keys stack m.iviTx false (lowerTtl d.recvTtl buf) = some r.data := by
  obtain ⟨data, hdata⟩ := pduOf_isSome keys stack m.iviTx false (lowerTtl d.recvTtl buf)
  obtain ⟨pdu, henc, hpdu⟩ := Option.map_eq_some_iff.1 hdata
  unfold btMeshNetRelay
  rw [if_neg (by simp), if_neg (by omega), if_neg (by simp [hrelay]), if_neg (by simp [hbuf])]
  dsimp only
  rw [hivi, if_neg (by decide : ¬ NetIf.adv = .loc)]
  refine ⟨_, Option.map_eq_some_iff.2 ⟨pdu, henc, rfl⟩, ?_, hdata.trans (congrArg some hpdu.symm)⟩
  cases conf.gattProxy with
  | true => rfl
  | false => exact hrelay

/-- A copy that may be relayed is relayed. -/
theorem PassesOn.passes {h : Hearing} {hops : ℕ} (hpass : PassesOn keys m tx payload h) (hin : InSubnet keys m h)
    (hfits : TxFits tx keys.nid m.seq) (hunicast : addrIsUnicast tx.src)
    (hpayload : (if tx.ctl then 1 else 5) ≤ payload.length) (hhops : hops + 2 ≤ tx.sendTtl)
    (hdata : netEncodePdu keys stack m (relayedTx tx hops) false tailroom payload = some data) :
    ∃ r, (netRecvRelay h.node h.env h.stack h.netIf h.caches data).2 = some r ∧ (r.gatt || r.adv) = true ∧
      netEncodePdu keys h.stack m (relayedTx tx (hops + 1)) false tailroom payload = some r.data := by
  obtain ⟨netIdx, newKey, hkeys, hok⟩ := hpass.decodes hin hfits hunicast hpayload (by omega) hdata
  obtain ⟨-, -, -, -, -, hivi⟩ := hin.decoded (TxFits.relayed hfits hops) hdata hok
  have hleft : 2 ≤ (received h.node.net m (relayedTx tx hops) netIdx newKey).recvTtl := by
    change 2 ≤ tx.sendTtl - hops
    omega
  obtain ⟨r, hr, hbearer, hpdu⟩ := @relay_isSome keys (netHeader keys.nid m (relayedTx tx hops) ++ payload) m
    (received h.node.net m (relayedTx tx hops) netIdx newKey) h.node.conf h.env h.node.net.ivIndex h.stack hpass.relay
    hpass.buf hivi hleft
  have hlower := lowerTtl_relayed keys.nid m payload hfits.ttl (by omega : hops + 1 ≤ tx.sendTtl)
  refine ⟨r, ?_, hbearer, ?_⟩
  · have honward : ¬ addrIsUnicast (received h.node.net m (relayedTx tx hops) netIdx newKey).dst ∨
        ¬ h.env.localMatch ∧ ¬ h.env.friendMatch := hpass.onward
    have htxKeys : h.node.txKeys (received h.node.net m (relayedTx tx hops) netIdx newKey).netIdx = some keys := hkeys
    unfold netRecvRelay
    rw [hok]
    dsimp only
    rw [if_pos honward, htxKeys, hpass.bearer]
    exact hr
  · have hroom : (if tx.ctl then 8 else 4) ≤ tailroom := ((netEncodePdu_eq_some false).1 hdata).1
    exact (netEncodePdu_eq_some false).2 ⟨hroom, hlower ▸ hpdu⟩

/-- A PDU to a group. -/
def groupTx : NetTx := ⟨0x1201, 0xc000, 3, false⟩

/-- A node that relays hears what is on the air; `size` is that of its caches. -/
def relayHears (size index : ℕ) : Hearing where
  index := index
  node := ⟨netNode, fun _ => false, ⟨true, false⟩⟩
  caches := netCachesInit size
  netIf := .adv
  env := ⟨false, false, true, false⟩
  stack := []

/-- The header of the group message fits. -/
theorem groupTx_fits : TxFits groupTx netKeys.nid netSender.seq :=
  ⟨by decide, by decide, by decide, by decide, by decide⟩

/-- The relays are nodes of the subnet. -/
theorem relayHears_inSubnet (size index : ℕ) : InSubnet netKeys netSender (relayHears size index) := by
  have hivi : netSender.iviTx = netNode.ivIndex := by decide
  refine ⟨rfl, ?_, ?_, Or.inl hivi, Or.inl rfl⟩
  · intro e he hnid
    obtain rfl := List.mem_singleton.1 he
    rfl
  · intro netIdx newKey hmem
    cases List.mem_singleton.1 hmem
    rfl

/-- The group message can be encoded. -/
theorem exists_groupPdu : ∃ data, netEncodePdu netKeys [] netSender groupTx false 4 netPayload = some data := by
  obtain ⟨data, hdata⟩ :=
    pduOf_isSome netKeys [] netSender.iviTx false (netHeader netKeys.nid netSender groupTx ++ netPayload)
  exact ⟨data, (netEncodePdu_eq_some false).2 ⟨by decide, hdata⟩⟩

/-- One node hears the PDU, another one the copy. -/
theorem flood_carries_two : ∃ data, netEncodePdu netKeys [] netSender groupTx false 4 netPayload = some data ∧
    (∀ pdu ∈ ([relayHears 4 0, relayHears 4 1].foldl floodStep ⟨[data], []⟩).air,
      Copy netKeys netSender groupTx netPayload pdu) ∧
    ∀ a ∈ ([relayHears 4 0, relayHears 4 1].foldl floodStep ⟨[data], []⟩).accepted,
      HandsOn netKeys netSender groupTx netPayload a := by
  have hsubnet : ∀ h ∈ [relayHears 4 0, relayHears 4 1], InSubnet netKeys netSender h := by
    intro h hh
    obtain rfl | hh := List.mem_cons.1 hh
    · exact relayHears_inSubnet 4 0
    · obtain rfl := List.mem_singleton.1 hh
      exact relayHears_inSubnet 4 1
  obtain ⟨data, hdata⟩ := exists_groupPdu
  exact ⟨data, hdata, flood_carries groupTx_fits hsubnet hdata⟩

/-- What is left in the buffer of the MIC says nothing about a PDU. -/
theorem pduOf_stack {ivi : UInt32} {proxy : Bool} (stack stack' : List UInt8) (hplain : 8 ≤ plain.length) :
    pduOf keys stack' ivi proxy plain = pduOf keys stack ivi proxy plain := by
  have hmsg : 1 ≤ (plain.drop 7).length := by
    rw [List.length_drop]
    omega
  unfold pduOf btMeshNetEncrypt
  rw [ccm_encrypt_eq, ccm_encrypt_eq, ccmTag_stack stack stack' hmsg]

/-- None of the copies looks like an empty place of the cache. -/
theorem dupVal_groupCopies {hops : ℕ} (hhops : hops < 3) : (pduOf netKeys [] netSender.iviTx false
    (netHeader netKeys.nid netSender (relayedTx groupTx hops) ++ netPayload)).map dupVal ≠ some 0 := by
  obtain rfl | rfl | rfl : hops = 0 ∨ hops = 1 ∨ hops = 2 := by omega
  · decide +kernel
  · decide +kernel
  · decide +kernel

/-- A node that has just started has none of the copies in its caches. -/
theorem relayHears_passesOn (index : ℕ) : PassesOn netKeys netSender groupTx netPayload (relayHears 4 index) := by
  have haddr : Addressed netNode .adv groupTx.src groupTx.dst := ⟨by decide, by decide, by decide⟩
  have honward : ¬ addrIsUnicast groupTx.dst := by decide
  have hunseen : msgHash netSender.iviTx (netHeader netKeys.nid netSender groupTx) ∉ (netCachesInit 4).msg.slots := by
    decide +kernel
  refine ⟨rfl, rfl, rfl, Or.inl honward, ⟨[], 0, false, [], rfl, List.forall_mem_nil _⟩, haddr, hunseen, ?_⟩
  rintro pdu ⟨hops, stack, tailroom, hhops, hpdu⟩ hheard
  have hzero : dupVal pdu = 0 := List.eq_of_mem_replicate hheard
  have hfew : hops < 3 := by
    change hops ≤ 3 - 1 at hhops
    omega
  have hplain : 8 ≤ (netHeader netKeys.nid netSender (relayedTx groupTx hops) ++ netPayload).length := by
    rw [List.length_append, length_netHeader]
    omega
  obtain ⟨-, hdata⟩ := (netEncodePdu_eq_some false).1 hpdu
  rw [pduOf_stack [] stack hplain] at hdata
  apply dupVal_groupCopies hfew
  rw [hdata, Option.map_some, hzero]

end GenieSdk.Analysis.NetFlood
