import GenieSdk.Analysis.CcmExact

/-!
# Network PDUs

A PDU that `bt_mesh_net_encode` makes is decoded, by a node with the same keys and an IV index that is the same or
one ahead, to the header and the payload that went in (`net_pdu_round_trip`). And `bt_mesh_net_decode` **accepts
nothing else** (`net_decode_only_encoded`).
-/

set_option autoImplicit false

namespace GenieSdk.Analysis.NetPdu

open GenieSdk.Lib
open GenieSdk.Model
open GenieSdk.Analysis.Aes
open GenieSdk.Analysis.Ccm

/-! ## Obfuscation -/

section Obfuscation

variable {pdu : List UInt8} {ivi : UInt32} {key : List UInt8}

/-- The mask of a header depends on what is behind it. -/
def headerMask (ivi : UInt32) (key rest : List UInt8) : List UInt8 :=
  btEncryptBe key (List.replicate 5 0x00 ++ beBytes 4 ivi.toNat ++ rest.take 7)

/-- The three parts of a PDU. -/
theorem obfuscate_parts {first header rest : List UInt8} (hfirst : first.length = 1) (hheader : header.length = 6) :
    btMeshNetObfuscate (first ++ header ++ rest) ivi key =
      first ++ xorBytes header (headerMask ivi key rest) ++ rest := by
  have hseven : (first ++ header).length = 7 := by rw [List.length_append, hfirst, hheader]
  have hrest : (first ++ header ++ rest).drop 7 = rest := by rw [← hseven, List.drop_left]
  have hone : (first ++ header ++ rest).take 1 = first := by
    rw [List.append_assoc, ← hfirst, List.take_left]
  have hsix : ((first ++ header ++ rest).drop 1).take 6 = header := by
    rw [List.append_assoc, ← hfirst, List.drop_left, ← hheader, List.take_left]
  unfold btMeshNetObfuscate
  dsimp only
  rw [hrest, hone, hsix]
  rfl

/-- A PDU that has a header has these parts. -/
theorem exists_parts (h : 7 ≤ pdu.length) : ∃ first header rest, first.length = 1 ∧ header.length = 6 ∧
    pdu = first ++ header ++ rest := by
  refine ⟨pdu.take 1, (pdu.drop 1).take 6, pdu.drop 7, ?_, ?_, ?_⟩
  · rw [List.length_take]
    omega
  · rw [List.length_take, List.length_drop]
    omega
  · rw [← List.take_add, List.take_append_drop]

/-- A masked header has six bytes. -/
theorem length_masked {header : List UInt8} (hheader : header.length = 6) (rest : List UInt8) :
    (xorBytes header (headerMask ivi key rest)).length = 6 := by
  unfold headerMask
  rw [length_xorBytes, hheader, length_btEncryptBe]
  rfl

/-- **The header is uncovered** as it was covered. -/
theorem obfuscate_obfuscate (h : 7 ≤ pdu.length) :
    btMeshNetObfuscate (btMeshNetObfuscate pdu ivi key) ivi key = pdu := by
  obtain ⟨first, header, rest, hfirst, hheader, rfl⟩ := exists_parts h
  have hmask : header.length ≤ (headerMask ivi key rest).length := by
    unfold headerMask
    rw [hheader, length_btEncryptBe]
    norm_num
  rw [obfuscate_parts hfirst hheader, obfuscate_parts hfirst (length_masked hheader rest), xorBytes_xorBytes hmask]

/-- Obfuscation leaves the length. -/
theorem length_obfuscate (h : 7 ≤ pdu.length) : (btMeshNetObfuscate pdu ivi key).length = pdu.length := by
  obtain ⟨first, header, rest, hfirst, hheader, rfl⟩ := exists_parts h
  rw [obfuscate_parts hfirst hheader, List.length_append, List.length_append, length_masked hheader rest]
  simp only [List.length_append, hfirst, hheader]

/-- The first byte is in the clear. -/
theorem getD_obfuscate (h : 7 ≤ pdu.length) : (btMeshNetObfuscate pdu ivi key).getD 0 0 = pdu.getD 0 0 := by
  obtain ⟨first, header, rest, hfirst, hheader, rfl⟩ := exists_parts h
  rw [obfuscate_parts hfirst hheader, List.append_assoc, List.append_assoc]
  obtain ⟨b, rfl⟩ := List.length_eq_one_iff.1 hfirst
  rfl

end Obfuscation

/-! ## Encryption -/

section Encryption

variable {key stack stack' buf plain : List UInt8} {ivi : UInt32} {proxy : Bool}

/-- What the encryption reads of a header is in its first seven bytes. -/
theorem getD_of_take {i n : ℕ} (h : plain.take n = buf.take n) (hi : i < n) : plain.getD i 0 = buf.getD i 0 := by
  have hget := congrArg (fun bs => bs.getD i 0) h
  simp only [List.getD_eq_getElem?_getD, List.getElem?_take_of_lt hi] at hget
  simpa only [List.getD_eq_getElem?_getD] using hget

/-- The nonce depends on the first seven bytes. -/
theorem netNonce_congr (h : plain.take 7 = buf.take 7) (ivi : UInt32) (proxy : Bool) :
    netNonce plain ivi proxy = netNonce buf ivi proxy := by
  have hseq : seqAndSrc plain = seqAndSrc buf := by
    have hdrop := congrArg (List.drop 2) h
    rw [List.drop_take, List.drop_take] at hdrop
    exact hdrop
  unfold netNonce createProxyNonce createNetNonce
  rw [hseq, getD_of_take h (by norm_num)]

/-- So does the length of the MIC. -/
theorem netMicLen_congr (h : plain.take 7 = buf.take 7) : netMicLen plain = netMicLen buf := by
  unfold netMicLen
  rw [getD_of_take h (by norm_num)]

/-- The MIC has at most eight bytes. -/
theorem netMicLen_le (pdu : List UInt8) : netMicLen pdu ≤ 8 := by
  unfold netMicLen
  split
  · norm_num
  · norm_num

/-- **The encryption of a PDU is exact.** -/
theorem net_exact (stack stack' : List UInt8) (hlen : 18 ≤ buf.length) :
    btMeshNetDecrypt key stack' buf ivi proxy = some plain ↔
      8 ≤ plain.length ∧ btMeshNetEncrypt key stack plain ivi proxy = some buf := by
  have hmic := netMicLen_le buf
  have hccm : ∀ msg, btMeshCcmDecrypt key stack' (netNonce buf ivi proxy) (buf.drop 7)
      (buf.length - netMicLen buf - 7) none (netMicLen buf) = some msg ↔
        msg.length = buf.length - netMicLen buf - 7 ∧
          btMeshCcmEncrypt key stack (netNonce buf ivi proxy) msg none (netMicLen buf) = some (buf.drop 7) :=
    fun msg => ccm_exact stack stack' (by omega) (by omega) (by rw [List.length_drop]; omega)
  constructor
  · intro h
    obtain ⟨msg, hdec, rfl⟩ := Option.map_eq_some_iff.1 h
    obtain ⟨hmsg, henc⟩ := (hccm msg).1 hdec
    have htake : (buf.take 7).length = 7 := by
      rw [List.length_take]
      omega
    have hprefix : (buf.take 7 ++ msg).take 7 = buf.take 7 := List.take_left' htake
    have hrest : (buf.take 7 ++ msg).drop 7 = msg := List.drop_left' htake
    refine ⟨by rw [List.length_append]; omega, ?_⟩
    unfold btMeshNetEncrypt
    rw [netNonce_congr hprefix, netMicLen_congr hprefix, hprefix, hrest, henc, Option.map_some,
      List.take_append_drop]
  · rintro ⟨hplain, h⟩
    obtain ⟨out, henc, rfl⟩ := Option.map_eq_some_iff.1 h
    have htake : (plain.take 7).length = 7 := by
      rw [List.length_take]
      omega
    have hprefix : plain.take 7 = (plain.take 7 ++ out).take 7 := (List.take_left' htake).symm
    have hrest : (plain.take 7 ++ out).drop 7 = out := List.drop_left' htake
    have hout : out.length = plain.length - 7 + netMicLen plain := by
      have hmsg : 1 ≤ (plain.drop 7).length := by
        rw [List.length_drop]
        omega
      rw [ccm_encrypt_eq] at henc
      obtain rfl := Option.some.inj henc
      rw [List.length_append, length_maskBlocks, List.length_drop,
        length_ccmTag hmsg ((netMicLen_le plain).trans (by norm_num))]
    have hdec := (hccm (plain.drop 7)).2
    rw [hrest, ← netNonce_congr hprefix, ← netMicLen_congr hprefix] at hdec
    have hlength : (plain.take 7 ++ out).length - netMicLen plain - 7 = (plain.drop 7).length := by
      rw [List.length_append, htake, hout, List.length_drop]
      omega
    unfold btMeshNetDecrypt
    dsimp only
    rw [← netNonce_congr hprefix, ← netMicLen_congr hprefix, hrest, hdec ⟨hlength.symm, henc⟩, Option.map_some,
      ← hprefix, List.take_append_drop]

end Encryption

/-! ## Headers -/

section Header

variable {nid : ℕ} {m : MeshNet} {tx : NetTx} {payload plain : List UInt8}

/-- A number is read from its bytes as it was. -/
theorem beVal_beBytes {w x : ℕ} (h : x < 256 ^ w) : beVal (beBytes w x) = x := by
  unfold beVal beBytes
  rw [List.reverse_reverse, leVal_leBytes h]

/-- Bytes are those of their number. -/
theorem beBytes_beVal (bs : List UInt8) : beBytes bs.length (beVal bs) = bs := by
  unfold beVal beBytes
  rw [← List.length_reverse, leBytes_leVal, List.reverse_reverse]

/-- A bit above seven others. -/
theorem or_high_bit {n b : ℕ} (hn : n < 128) : n ||| b * 128 = n + b * 128 := by
  have h := Nat.two_pow_add_eq_or_of_lt (i := 7) hn b
  rw [Nat.or_comm, Nat.mul_comm b, ← Nat.add_comm]
  exact h.symm

/-- What fits into a header. -/
structure TxFits (tx : NetTx) (nid seq : ℕ) : Prop where
  nid : nid < 128
  ttl : tx.sendTtl < 128
  seq : seq < 2 ^ 24
  src : tx.src < 2 ^ 16
  dst : tx.dst < 2 ^ 16

/-- A network header has nine bytes. -/
theorem length_netHeader (nid : ℕ) (m : MeshNet) (tx : NetTx) : (netHeader nid m tx).length = 9 := by
  unfold netHeader
  simp only [List.length_append, length_beBytes, List.length_cons, List.length_nil]

/-- The fields of a header are read as they were written. -/
structure ReadsAs (plain : List UInt8) (nid : ℕ) (m : MeshNet) (tx : NetTx) : Prop where
  first : (plain.getD 0 0).toNat = nid + m.iviTx.toNat % 2 * 128
  second : (plain.getD 1 0).toNat = tx.sendTtl + (if tx.ctl then 128 else 0)
  seq : beVal ((plain.drop 2).take 3) = m.seq
  src : beVal ((plain.drop 5).take 2) = tx.src
  dst : beVal ((plain.drop 7).take 2) = tx.dst

/-- The byte with the TTL. -/
theorem ttl_byte (tx : NetTx) (h : tx.sendTtl < 128) :
    (if tx.ctl then tx.sendTtl ||| 0x80 else tx.sendTtl) = tx.sendTtl + (if tx.ctl then 128 else 0) := by
  split
  · exact or_high_bit (b := 1) h
  · rfl

/-- **what is written is read.** -/
theorem netHeader_reads (h : TxFits tx nid m.seq) : ReadsAs (netHeader nid m tx ++ payload) nid m tx where
  first := by
    have hbit := Nat.mod_lt m.iviTx.toNat (by norm_num : 0 < 2)
    have hnid := h.nid
    change (UInt8.ofNat (nid ||| m.iviTx.toNat % 2 * 128)).toNat = _
    rw [or_high_bit hnid]
    exact UInt8.toNat_ofNat_of_lt' (by change _ < 256; omega)
  second := by
    have httl := h.ttl
    change (UInt8.ofNat (if tx.ctl then tx.sendTtl ||| 0x80 else tx.sendTtl)).toNat = _
    rw [ttl_byte tx httl]
    refine UInt8.toNat_ofNat_of_lt' ?_
    change _ < 256
    split
    · omega
    · omega
  seq := by
    unfold netHeader
    rw [List.append_assoc, List.append_assoc, List.append_assoc]
    exact (congrArg beVal (List.take_left' (length_beBytes 3 _))).trans
      (beVal_beBytes (h.seq.trans_eq (by norm_num)))
  src := by
    unfold netHeader
    rw [List.append_assoc, List.append_assoc, List.drop_left' (by simp)]
    exact (congrArg beVal (List.take_left' (length_beBytes 2 _))).trans
      (beVal_beBytes (h.src.trans_eq (by norm_num)))
  dst := by
    unfold netHeader
    rw [List.append_assoc, List.drop_left' (by simp)]
    exact (congrArg beVal (List.take_left' (length_beBytes 2 _))).trans
      (beVal_beBytes (h.dst.trans_eq (by norm_num)))

/-- **what is read was written.** -/
theorem eq_netHeader (hlen : 9 ≤ plain.length) (h : ReadsAs plain nid m tx) (hnid : nid < 128)
    (httl : tx.sendTtl < 128) : plain = netHeader nid m tx ++ plain.drop 9 := by
  have hfirst : UInt8.ofNat (nid ||| m.iviTx.toNat % 2 * 128) = plain.getD 0 0 := by
    rw [or_high_bit hnid, ← h.first, UInt8.ofNat_toNat]
  have hsecond : UInt8.ofNat (if tx.ctl then tx.sendTtl ||| 0x80 else tx.sendTtl) = plain.getD 1 0 := by
    rw [ttl_byte tx httl, ← h.second, UInt8.ofNat_toNat]
  have hfield : ∀ i n, i + n ≤ 9 → beBytes n (beVal ((plain.drop i).take n)) = (plain.drop i).take n := by
    intro i n hin
    have hn : ((plain.drop i).take n).length = n := by
      rw [List.length_take, List.length_drop]
      omega
    have heq := beBytes_beVal ((plain.drop i).take n)
    rwa [hn] at heq
  unfold netHeader
  rw [hfirst, hsecond, ← h.seq, ← h.src, ← h.dst, hfield 2 3 (by norm_num), hfield 5 2 (by norm_num),
    hfield 7 2 (by norm_num)]
  match plain, hlen with
  | b0 :: b1 :: b2 :: b3 :: b4 :: b5 :: b6 :: b7 :: b8 :: rest, _ => rfl

end Header

/-! ## Decoding -/

section Decoding

variable {node : NetNode (List UInt8)} {netIf : NetIf} {keys : SubnetKeys (List UInt8)} {stack stack' : List UInt8}
  {s : NetCaches} {data plain buf : List UInt8} {src : ℕ}

/-- The hash is over the first seven bytes. -/
theorem msgHash_congr (h : plain.take 7 = buf.take 7) (ivi : UInt32) : msgHash ivi plain = msgHash ivi buf := by
  have hdrop := congrArg (List.drop 3) h
  rw [List.drop_take, List.drop_take] at hdrop
  have hfour : (plain.drop 3).take 4 = (buf.drop 3).take 4 := hdrop
  unfold msgHash
  rw [getD_of_take h (by norm_num), hfour]

/-- The source address is in the first seven bytes. -/
theorem src_congr (h : plain.take 7 = buf.take 7) : (plain.drop 5).take 2 = (buf.drop 5).take 2 := by
  have hdrop := congrArg (List.drop 5) h
  rwa [List.drop_take, List.drop_take] at hdrop

/-- The header is not encrypted. -/
theorem take_netEncrypt {ivi : UInt32} {proxy : Bool} (hplain : 8 ≤ plain.length)
    (h : btMeshNetEncrypt keys.enc stack plain ivi proxy = some buf) : buf.take 7 = plain.take 7 ∧ 7 ≤ buf.length := by
  obtain ⟨out, -, rfl⟩ := Option.map_eq_some_iff.1 h
  have htake : (plain.take 7).length = 7 := by
    rw [List.length_take]
    omega
  refine ⟨List.take_left' htake, ?_⟩
  rw [List.length_append, htake]
  omega

/-- The PDU for the plain text under the keys. -/
def pduOf (keys : SubnetKeys (List UInt8)) (stack : List UInt8) (ivi : UInt32) (proxy : Bool) (plain : List UInt8) :
    Option (List UInt8) :=
  (btMeshNetEncrypt keys.enc stack plain ivi proxy).map fun pdu => btMeshNetObfuscate pdu ivi keys.privacy

/-- Every header and payload gives a PDU. -/
theorem pduOf_isSome (keys : SubnetKeys (List UInt8)) (stack : List UInt8) (ivi : UInt32) (proxy : Bool)
    (plain : List UInt8) : ∃ data, pduOf keys stack ivi proxy plain = some data := by
  unfold pduOf btMeshNetEncrypt
  rw [ccm_encrypt_eq]
  exact ⟨_, rfl⟩

/-- To cover the header is to uncover it. -/
theorem pduOf_eq_some {ivi : UInt32} {proxy : Bool} (hplain : 8 ≤ plain.length) (hdata : 7 ≤ data.length) :
    pduOf keys stack ivi proxy plain = some data ↔
      btMeshNetEncrypt keys.enc stack plain ivi proxy = some (btMeshNetObfuscate data ivi keys.privacy) := by
  constructor
  · intro h
    obtain ⟨buf, henc, hbuf⟩ := Option.map_eq_some_iff.1 h
    rw [← hbuf, obfuscate_obfuscate (take_netEncrypt hplain henc).2, henc]
  · intro h
    unfold pduOf
    rw [h, Option.map_some, obfuscate_obfuscate hdata]

/-- The header is new to the cache. -/
def Unseen (node : NetNode (List UInt8)) (netIf : NetIf) (s : NetCaches) (data plain : List UInt8) : Prop :=
  netIf = .adv → msgHash (node.iviOf data) plain ∉ s.msg.slots

/-- What is checked of a PDU. -/
theorem netDecrypt_eq_some (hcrypto : node.crypto = sdkNetCrypto stack) :
    (netDecrypt node netIf keys data s).1 = some (src, plain) ↔
      Unseen node netIf s data (btMeshNetObfuscate data (node.iviOf data) keys.privacy) ∧ addrIsUnicast src ∧
        src = beVal (((btMeshNetObfuscate data (node.iviOf data) keys.privacy).drop 5).take 2) ∧
        btMeshNetDecrypt keys.enc stack (btMeshNetObfuscate data (node.iviOf data) keys.privacy) (node.iviOf data)
          (netIf = .proxyCfg) = some plain := by
  unfold netDecrypt
  rw [hcrypto]
  simp only [sdkNetCrypto]
  generalize btMeshNetObfuscate data (node.iviOf data) keys.privacy = buf
  have hhit : (if netIf = .adv then msgCacheMatch s (node.iviOf data) buf else (false, s)).1 = true ↔
      ¬ Unseen node netIf s data buf := by
    unfold Unseen msgCacheMatch RecentRing.look
    by_cases hadv : netIf = .adv
    · by_cases hmem : msgHash (node.iviOf data) buf ∈ s.msg.slots
      · simp [hadv, hmem]
      · simp [hadv, hmem]
    · simp [hadv]
  generalize (if netIf = .adv then msgCacheMatch s (node.iviOf data) buf else (false, s)) = look at hhit ⊢
  by_cases hseen : Unseen node netIf s data buf
  · rw [if_neg (fun h => hhit.1 h hseen)]
    by_cases huni : addrIsUnicast (beVal ((buf.drop 5).take 2))
    · rw [if_neg (not_not.2 huni)]
      cases btMeshNetDecrypt keys.enc stack buf (node.iviOf data) (decide (netIf = .proxyCfg)) with
      | none =>
        constructor
        · intro h
          cases h
        · rintro ⟨-, -, -, h⟩
          cases h
      | some out =>
        constructor
        · intro h
          cases h
          exact ⟨hseen, huni, rfl, rfl⟩
        · rintro ⟨-, -, rfl, h⟩
          rw [Option.some.inj h]
    · rw [if_pos huni]
      constructor
      · intro h
        cases h
      · rintro ⟨-, huni', rfl, -⟩
        exact absurd huni' huni
  · rw [if_pos (hhit.2 hseen)]
    constructor
    · intro h
      cases h
    · rintro ⟨h, -⟩
      exact absurd h hseen

/-- **A key decrypts** the PDUs that are made under it, and no others. -/
theorem netDecrypt_exact (stack : List UInt8) (hcrypto : node.crypto = sdkNetCrypto stack') (hlen : 18 ≤ data.length) :
    (netDecrypt node netIf keys data s).1 = some (src, plain) ↔
      8 ≤ plain.length ∧ pduOf keys stack (node.iviOf data) (netIf = .proxyCfg) plain = some data ∧
        Unseen node netIf s data plain ∧ addrIsUnicast src ∧ src = beVal ((plain.drop 5).take 2) := by
  have hseven : 7 ≤ data.length := by omega
  have hbuf : 18 ≤ (btMeshNetObfuscate data (node.iviOf data) keys.privacy).length := by
    rwa [length_obfuscate hseven]
  rw [netDecrypt_eq_some hcrypto, net_exact stack _ hbuf]
  constructor
  · rintro ⟨hseen, huni, rfl, hplain, henc⟩
    have htake := (take_netEncrypt hplain henc).1
    refine ⟨hplain, (pduOf_eq_some hplain hseven).2 henc, ?_, huni, by rw [src_congr htake]⟩
    intro hadv
    rw [← msgHash_congr htake]
    exact hseen hadv
  · rintro ⟨hplain, hpdu, hseen, huni, rfl⟩
    have henc := (pduOf_eq_some hplain hseven).1 hpdu
    have htake := (take_netEncrypt hplain henc).1
    refine ⟨?_, huni, by rw [src_congr htake], hplain, henc⟩
    intro hadv
    rw [msgHash_congr htake]
    exact hseen hadv

/-- A PDU that is found was decrypted under one of the keys. -/
theorem exists_of_find {tried : List (ℕ × Bool × SubnetKeys (List UInt8))} {netIdx : ℕ} {newKey : Bool}
    (h : (netFindAndDecrypt node netIf data tried s).1 = some (netIdx, newKey, src, plain)) :
    ∃ keys s', (netIdx, newKey, keys) ∈ tried ∧ (data.getD 0 0).toNat % 128 = keys.nid ∧
      (netDecrypt node netIf keys data s').1 = some (src, plain) := by
  induction tried generalizing s with
  | nil => cases h
  | cons entry rest ih =>
    obtain ⟨idx, new, keys⟩ := entry
    unfold netFindAndDecrypt at h
    by_cases hnid : (data.getD 0 0).toNat % 128 = keys.nid
    · rw [if_neg (not_not.2 hnid)] at h
      have hrest : ∀ s', (netFindAndDecrypt node netIf data rest s').1 = some (netIdx, newKey, src, plain) →
          ∃ keys' s', (netIdx, newKey, keys') ∈ (idx, new, keys) :: rest ∧
            (data.getD 0 0).toNat % 128 = keys'.nid ∧
            (netDecrypt node netIf keys' data s').1 = some (src, plain) := by
        intro s' hs'
        obtain ⟨keys', s'', hmem, hfound⟩ := ih hs'
        exact ⟨keys', s'', List.mem_cons_of_mem _ hmem, hfound⟩
      match hdec : netDecrypt node netIf keys data s with
      | (some (src', plain'), s') =>
        rw [hdec] at h
        cases h
        exact ⟨keys, s, List.mem_cons_self, hnid, by rw [hdec]⟩
      | (none, s') =>
        rw [hdec] at h
        exact hrest s' h
    · rw [if_pos hnid] at h
      obtain ⟨keys', s', hmem, hfound⟩ := ih h
      exact ⟨keys', s', List.mem_cons_of_mem _ hmem, hfound⟩

/-- A key is reached if no key with its NID stands before it. -/
theorem find_of_netDecrypt {before after : List (ℕ × Bool × SubnetKeys (List UInt8))} {netIdx : ℕ} {newKey : Bool}
    (hbefore : ∀ e ∈ before, e.2.2.nid ≠ keys.nid) (hnid : (data.getD 0 0).toNat % 128 = keys.nid)
    (h : (netDecrypt node netIf keys data s).1 = some (src, plain)) :
    (netFindAndDecrypt node netIf data (before ++ (netIdx, newKey, keys) :: after) s).1 =
      some (netIdx, newKey, src, plain) := by
  induction before with
  | nil =>
    rw [List.nil_append]
    unfold netFindAndDecrypt
    rw [if_neg (not_not.2 hnid)]
    match hdec : netDecrypt node netIf keys data s with
    | (some (src', plain'), s') =>
      rw [hdec] at h
      cases h
      rfl
    | (none, s') =>
      rw [hdec] at h
      cases h
  | cons entry rest ih =>
    obtain ⟨idx, new, keys'⟩ := entry
    have hother : keys'.nid ≠ keys.nid := hbefore (idx, new, keys') List.mem_cons_self
    rw [List.cons_append]
    unfold netFindAndDecrypt
    rw [if_pos (fun heq => hother (heq.symm.trans hnid))]
    exact ih fun e he => hbefore e (List.mem_cons_of_mem _ he)

/-- The PDU is new to the cache of raw PDUs. -/
def NotDup (netIf : NetIf) (s : NetCaches) (data : List UInt8) : Prop :=
  netIf = .adv → dupVal data ∉ s.dup.slots

instance (netIf : NetIf) (s : NetCaches) (data : List UInt8) : Decidable (NotDup netIf s data) :=
  inferInstanceAs (Decidable (_ → _))

/-- The caches while a PDU is decoded. -/
def afterDup (netIf : NetIf) (s : NetCaches) (data : List UInt8) : NetCaches :=
  if netIf = .adv then (checkDup s data).2 else s

/-- The cache of raw PDUs does not touch that of messages. -/
theorem afterDup_msg (netIf : NetIf) (s : NetCaches) (data : List UInt8) : (afterDup netIf s data).msg = s.msg := by
  unfold afterDup
  split
  · rfl
  · rfl

/-- What the destination and the source of a PDU have to be. -/
structure Addressed (node : NetNode (List UInt8)) (netIf : NetIf) (src dst : ℕ) : Prop where
  assigned : netIf ≠ .proxyCfg → dst ≠ 0
  notRfu : ¬ addrIsRfu dst
  foreign : netIf ≠ .loc → ¬ node.isElem src

/-- What is read from a PDU. -/
def decodedOf (node : NetNode (List UInt8)) (data : List UInt8) (netIdx : ℕ) (newKey : Bool) (src : ℕ)
    (buf : List UInt8) : NetDecoded where
  netIdx := netIdx
  newKey := newKey
  oldIv := oldIvOf node.ivIndex data
  src := src
  recvTtl := (buf.getD 1 0).toNat % 128
  sendTtl := if (buf.getD 1 0).toNat % 128 = 0 then 0 else 0xff
  ctl := 128 ≤ (buf.getD 1 0).toNat
  seq := beVal ((buf.drop 2).take 3)
  dst := beVal ((buf.drop 7).take 2)

/-- A PDU that is not new is dropped. -/
theorem checkDup_hit : (if netIf = .adv then checkDup s data else (false, s)) =
    (decide (¬ NotDup netIf s data), afterDup netIf s data) := by
  unfold NotDup afterDup checkDup RecentRing.look
  by_cases hadv : netIf = .adv
  · by_cases hmem : dupVal data ∈ s.dup.slots
    · simp [hadv, hmem]
    · simp [hadv, hmem]
  · simp [hadv]

/-- **when a PDU is accepted.** -/
theorem decode_eq_ok {d : NetDecoded} : (btMeshNetDecode node netIf s data).1 = .ok (d, buf) ↔
    18 ≤ data.length ∧ NotDup netIf s data ∧ ∃ netIdx newKey src,
      (netFindAndDecrypt node netIf data node.tried (afterDup netIf s data)).1 = some (netIdx, newKey, src, buf) ∧
      Addressed node netIf src (beVal ((buf.drop 7).take 2)) ∧ d = decodedOf node data netIdx newKey src buf := by
  unfold btMeshNetDecode btMeshNetMinPduLen
  rw [checkDup_hit]
  by_cases hlen : data.length < 18
  · rw [if_pos hlen]
    constructor
    · intro h
      cases h
    · rintro ⟨h, -⟩
      omega
  · rw [if_neg hlen]
    dsimp only
    by_cases hdup : NotDup netIf s data
    · rw [if_neg (by simp [hdup])]
      match hfind : netFindAndDecrypt node netIf data node.tried (afterDup netIf s data) with
      | (none, s') =>
        constructor
        · intro h
          cases h
        · rintro ⟨-, -, netIdx, newKey, src, h, -⟩
          cases h
      | (some (netIdx, newKey, src, plain), s') =>
        dsimp only
        constructor
        · intro h
          split at h
          · cases h
          · split at h
            · cases h
            · split at h
              · cases h
              · cases h
                refine ⟨Nat.le_of_not_lt hlen, hdup, netIdx, newKey, src, rfl, ⟨?_, ?_, ?_⟩, rfl⟩
                · intro hif hzero
                  exact ‹¬ (netIf ≠ .proxyCfg ∧ _)› ⟨hif, hzero⟩
                · assumption
                · intro hif hsrc
                  exact ‹¬ (netIf ≠ .loc ∧ _)› ⟨hif, hsrc⟩
        · rintro ⟨-, -, netIdx', newKey', src', h, haddr, rfl⟩
          cases h
          rw [if_neg (fun h => haddr.assigned h.1 h.2), if_neg haddr.notRfu, if_neg (fun h => haddr.foreign h.1 h.2)]
          rfl
    · rw [if_pos (by simp [hdup])]
      constructor
      · intro h
        cases h
      · rintro ⟨-, h, -⟩
        exact absurd h hdup

/-- Encryption adds the MIC. -/
theorem length_netEncrypt {ivi : UInt32} {proxy : Bool} (hplain : 8 ≤ plain.length)
    (h : btMeshNetEncrypt keys.enc stack plain ivi proxy = some buf) :
    buf.length = plain.length + netMicLen plain := by
  obtain ⟨out, henc, rfl⟩ := Option.map_eq_some_iff.1 h
  have hmsg : 1 ≤ (plain.drop 7).length := by
    rw [List.length_drop]
    omega
  rw [ccm_encrypt_eq] at henc
  obtain rfl := Option.some.inj henc
  rw [List.length_append, List.length_append, length_maskBlocks, List.length_drop, List.length_take,
    length_ccmTag hmsg ((netMicLen_le plain).trans (by norm_num))]
  omega

/-- A PDU is longer than its plain text by the MIC. -/
theorem length_pduOf {ivi : UInt32} {proxy : Bool} (hplain : 8 ≤ plain.length)
    (h : pduOf keys stack ivi proxy plain = some data) : data.length = plain.length + netMicLen plain := by
  obtain ⟨buf, henc, rfl⟩ := Option.map_eq_some_iff.1 h
  rw [length_obfuscate (take_netEncrypt hplain henc).2, length_netEncrypt hplain henc]

/-- The first byte is in the clear. -/
theorem getD_pduOf {ivi : UInt32} {proxy : Bool} (hplain : 8 ≤ plain.length)
    (h : pduOf keys stack ivi proxy plain = some data) : data.getD 0 0 = plain.getD 0 0 := by
  obtain ⟨buf, henc, rfl⟩ := Option.map_eq_some_iff.1 h
  obtain ⟨htake, hseven⟩ := take_netEncrypt hplain henc
  rw [getD_obfuscate hseven, getD_of_take htake (by norm_num)]

/-- An IV index and its successor differ in the last bit. -/
theorem pred_mod_two (ivIndex : UInt32) : (ivIndex - 1).toNat % 2 = 1 - ivIndex.toNat % 2 := by
  rw [UInt32.toNat_sub]
  have h := ivIndex.toNat_lt
  change (2 ^ 32 - 1 + ivIndex.toNat) % 2 ^ 32 % 2 = _
  omega

/-- The bit in front of the NID says under which IV index a PDU was sent. -/
theorem iviOf_mod_two (node : NetNode (List UInt8)) (data : List UInt8) :
    (node.iviOf data).toNat % 2 = (data.getD 0 0).toNat / 128 := by
  have hbyte := (data.getD 0 0).toNat_lt
  unfold NetNode.iviOf oldIvOf
  by_cases h : (data.getD 0 0).toNat / 128 = node.ivIndex.toNat % 2
  · rw [h]
    simp
  · rw [if_pos (by simpa using h), pred_mod_two]
    omega

/-- The IV index is recognised by its last bit. -/
theorem iviOf_eq {ivi : UInt32} (hivi : ivi = node.ivIndex ∨ ivi = node.ivIndex - 1)
    (hbit : (data.getD 0 0).toNat / 128 = ivi.toNat % 2) :
    node.iviOf data = ivi ∧ oldIvOf node.ivIndex data = decide (ivi ≠ node.ivIndex) := by
  unfold NetNode.iviOf oldIvOf
  obtain rfl | rfl := hivi
  · rw [hbit]
    simp
  · have hbits := pred_mod_two node.ivIndex
    have hne : node.ivIndex - 1 ≠ node.ivIndex := by
      intro h
      rw [h] at hbits
      omega
    have hold : (data.getD 0 0).toNat / 128 ≠ node.ivIndex.toNat % 2 := by omega
    rw [if_pos (by simpa using hold)]
    exact ⟨rfl, by simpa [hne] using hold⟩

end Decoding

/-! ## The main results -/

section Main

variable {node : NetNode (List UInt8)} {netIf : NetIf} {keys : SubnetKeys (List UInt8)} {stack stack' : List UInt8}
  {s : NetCaches} {data payload buf : List UInt8} {m : MeshNet} {tx : NetTx} {netIdx tailroom : ℕ} {newKey : Bool}
  {before after : List (ℕ × Bool × SubnetKeys (List UInt8))}

/-- What `bt_mesh_net_decode` makes of a PDU that was encoded with these data. -/
def received (node : NetNode (List UInt8)) (m : MeshNet) (tx : NetTx) (netIdx : ℕ) (newKey : Bool) : NetDecoded where
  netIdx := netIdx
  newKey := newKey
  oldIv := m.iviTx ≠ node.ivIndex
  src := tx.src
  recvTtl := tx.sendTtl
  sendTtl := if tx.sendTtl = 0 then 0 else 0xff
  ctl := tx.ctl
  seq := m.seq
  dst := tx.dst

/-- The length of the MIC is known from the header. -/
theorem netMicLen_of_reads {plain : List UInt8} (h : ReadsAs plain keys.nid m tx) (httl : tx.sendTtl < 128) :
    netMicLen plain = if tx.ctl then 8 else 4 := by
  have hbit : ∀ b : UInt8, b &&& 0x80 = 0 ↔ b.toNat < 128 := forall_byte (by decide +kernel)
  have hsecond := h.second
  unfold netMicLen
  cases hctl : tx.ctl with
  | false =>
    rw [hctl] at hsecond
    have hlow : (plain.getD 1 0).toNat < 128 := by
      rw [hsecond]
      exact httl
    rw [if_pos ((hbit _).2 hlow)]
    rfl
  | true =>
    rw [hctl, if_pos rfl] at hsecond
    rw [if_neg (fun hzero => absurd ((hbit _).1 hzero) (by omega))]
    rfl

/-- What is decoded of a header that was written. -/
theorem decodedOf_eq {plain : List UInt8} (h : ReadsAs plain keys.nid m tx) (httl : tx.sendTtl < 128)
    (hold : oldIvOf node.ivIndex data = decide (m.iviTx ≠ node.ivIndex)) :
    decodedOf node data netIdx newKey tx.src plain = received node m tx netIdx newKey := by
  have hsecond := h.second
  have hrecv : (plain.getD 1 0).toNat % 128 = tx.sendTtl := by
    rw [hsecond]
    split
    · omega
    · omega
  have hctl : decide (128 ≤ (plain.getD 1 0).toNat) = tx.ctl := by
    rw [hsecond]
    cases tx.ctl with
    | false => exact decide_eq_false (by simpa using httl)
    | true => exact decide_eq_true (by simp)
  unfold decodedOf received
  rw [hold, hrecv, hctl, h.seq, h.dst]

/-- The header has nine bytes, and with its MIC the shortest PDU has 18. -/
theorem shortest_pdu (ctl : Bool) : (if ctl then 10 else 14) = 9 + (if ctl then 1 else 5) ∧
    (if ctl then 10 else 14) + (if ctl then 8 else 4) = 18 := by
  cases ctl with
  | false => exact ⟨rfl, rfl⟩
  | true => exact ⟨rfl, rfl⟩

/-- **what is made under a key of the node is accepted.** -/
theorem decode_pduOf {plain : List UInt8} (hcrypto : node.crypto = sdkNetCrypto stack')
    (htried : node.tried = before ++ (netIdx, newKey, keys) :: after)
    (hbefore : ∀ e ∈ before, e.2.2.nid ≠ keys.nid) (hnid : keys.nid < 128) (httl : tx.sendTtl < 128)
    (hreads : ReadsAs plain keys.nid m tx) (hlen : (if tx.ctl then 10 else 14) ≤ plain.length)
    (hivi : m.iviTx = node.ivIndex ∨ m.iviTx = node.ivIndex - 1) (hunicast : addrIsUnicast tx.src)
    (haddr : Addressed node netIf tx.src tx.dst)
    (hseen : netIf = .adv → msgHash m.iviTx plain ∉ s.msg.slots)
    (hdata : pduOf keys stack m.iviTx (netIf = .proxyCfg) plain = some data) (hdup : NotDup netIf s data) :
    (btMeshNetDecode node netIf s data).1 = .ok (received node m tx netIdx newKey, plain) := by
  have hmic := netMicLen_of_reads hreads httl
  obtain ⟨hheader, hwithMic⟩ := shortest_pdu tx.ctl
  have hplain : 8 ≤ plain.length := by omega
  have hlong : 18 ≤ data.length := by
    rw [length_pduOf hplain hdata, hmic]
    omega
  have hfirst : (data.getD 0 0).toNat = keys.nid + m.iviTx.toNat % 2 * 128 := by
    rw [getD_pduOf hplain hdata, hreads.first]
  obtain ⟨hiviOf, hold⟩ := iviOf_eq hivi (by omega : (data.getD 0 0).toNat / 128 = m.iviTx.toNat % 2)
  apply decode_eq_ok.2
  refine ⟨hlong, hdup, netIdx, newKey, tx.src, ?_, ?_, ?_⟩
  · rw [htried]
    apply find_of_netDecrypt hbefore (by omega)
    apply (netDecrypt_exact stack hcrypto hlong).2
    refine ⟨hplain, by rw [hiviOf]; exact hdata, ?_, hunicast, hreads.src.symm⟩
    intro hadv
    rw [afterDup_msg, hiviOf]
    exact hseen hadv
  · rw [hreads.dst]
    exact haddr
  · exact (decodedOf_eq hreads httl hold).symm

/-- A header and a payload make a PDU exactly if there is room for the MIC. -/
theorem netEncodePdu_eq_some (proxy : Bool) : netEncodePdu keys stack m tx proxy tailroom payload = some data ↔
    (if tx.ctl then 8 else 4) ≤ tailroom ∧
      pduOf keys stack m.iviTx proxy (netHeader keys.nid m tx ++ payload) = some data := by
  unfold netEncodePdu
  split
  · next hfull =>
      rw [if_pos hfull.1]
      exact iff_of_false (by simp) fun h => by omega
  next hlong =>
  split
  · next hfull =>
      refine iff_of_false (by simp) fun h => ?_
      have hroom := h.1
      split at hroom
      · omega
      · omega
  · next hshort =>
      have hroom : (if tx.ctl then 8 else 4) ≤ tailroom := by
        split
        · next hctl => exact not_lt.1 fun hlt => hlong ⟨hctl, hlt⟩
        · exact not_lt.1 hshort
      exact (and_iff_right hroom).symm

/-- The PDU of a header and a payload. -/
theorem netEncodePdu_eq (proxy : Bool) (hroom : (if tx.ctl then 8 else 4) ≤ tailroom) :
    netEncodePdu keys stack m tx proxy tailroom payload =
      pduOf keys stack m.iviTx proxy (netHeader keys.nid m tx ++ payload) := by
  obtain ⟨data, hdata⟩ := pduOf_isSome keys stack m.iviTx proxy (netHeader keys.nid m tx ++ payload)
  rw [hdata]
  exact (netEncodePdu_eq_some proxy).2 ⟨hroom, hdata⟩

/-- A PDU is made exactly when `btMeshNetEncode` takes a number for it, and the nonce that it is encrypted with has that
number and the IV index in it. -/
theorem netEncodePdu_takes (s : MeshNode) (proxy : Bool) :
    ((netEncodePdu keys stack s.net tx proxy tailroom payload).isSome ↔
      ∃ s', btMeshNetEncode s tx.ctl tailroom = some s' ∧ s'.used = s.used ++ [s.net.nonce]) ∧
    createNetNonce (netHeader keys.nid s.net tx ++ payload) s.net.iviTx =
      0x00 :: UInt8.ofNat (if tx.ctl then tx.sendTtl ||| 0x80 else tx.sendTtl) :: beBytes 3 s.net.nonce.seq ++
        beBytes 2 tx.src ++ [0, 0] ++ beBytes 4 s.net.nonce.iv := by
  refine ⟨?_, rfl⟩
  obtain ⟨pdu, henc⟩ : ∃ pdu, btMeshNetEncrypt keys.enc stack (netHeader keys.nid s.net tx ++ payload) s.net.iviTx
      proxy = some pdu := by
    obtain ⟨data, hdata⟩ := pduOf_isSome keys stack s.net.iviTx proxy (netHeader keys.nid s.net tx ++ payload)
    obtain ⟨pdu, henc, -⟩ := Option.map_eq_some_iff.1 hdata
    exact ⟨pdu, henc⟩
  unfold netEncodePdu btMeshNetEncode
  rw [henc]
  split
  · simp
  split
  · simp
  · simp

/-- What one of the keys encodes is decoded. -/
theorem encoded_decodes (hcrypto : node.crypto = sdkNetCrypto stack')
    (htried : node.tried = before ++ (netIdx, newKey, keys) :: after)
    (hbefore : ∀ e ∈ before, e.2.2.nid ≠ keys.nid) (hfits : TxFits tx keys.nid m.seq)
    (hivi : m.iviTx = node.ivIndex ∨ m.iviTx = node.ivIndex - 1) (hunicast : addrIsUnicast tx.src)
    (haddr : Addressed node netIf tx.src tx.dst) (hpayload : (if tx.ctl then 1 else 5) ≤ payload.length)
    (hroom : (if tx.ctl then 8 else 4) ≤ tailroom)
    (hseen : netIf = .adv → msgHash m.iviTx (netHeader keys.nid m tx) ∉ s.msg.slots) :
    ∃ data, netEncodePdu keys stack m tx (netIf = .proxyCfg) tailroom payload = some data ∧
      (NotDup netIf s data → (btMeshNetDecode node netIf s data).1 =
        .ok (received node m tx netIdx newKey, netHeader keys.nid m tx ++ payload)) := by
  have hheader : (netHeader keys.nid m tx ++ payload).take 7 = (netHeader keys.nid m tx).take 7 :=
    List.take_append_of_le_length (by rw [length_netHeader]; norm_num)
  have hlen : (if tx.ctl then 10 else 14) ≤ (netHeader keys.nid m tx ++ payload).length := by
    rw [List.length_append, length_netHeader, (shortest_pdu tx.ctl).1]
    omega
  obtain ⟨data, hdata⟩ :=
    pduOf_isSome keys stack m.iviTx (netIf = .proxyCfg) (netHeader keys.nid m tx ++ payload)
  refine ⟨data, (netEncodePdu_eq _ hroom).trans hdata, fun hdup => ?_⟩
  apply decode_pduOf hcrypto htried hbefore hfits.nid hfits.ttl (netHeader_reads hfits) hlen hivi hunicast haddr ?_
    hdata hdup
  intro hadv
  rw [msgHash_congr hheader]
  exact hseen hadv

/-- **A PDU is received as it was sent**: a node that has the keys of the sender, and its IV index or the next one,
reads the header and the payload that were encoded, if it has not seen the PDU before. -/
theorem net_pdu_round_trip (hcrypto : node.crypto = sdkNetCrypto stack')
    (htried : node.tried = before ++ (netIdx, newKey, keys) :: after)
    (hbefore : ∀ e ∈ before, e.2.2.nid ≠ keys.nid) (hfits : TxFits tx keys.nid m.seq)
    (hivi : m.iviTx = node.ivIndex ∨ m.iviTx = node.ivIndex - 1) (hunicast : addrIsUnicast tx.src)
    (haddr : Addressed node netIf tx.src tx.dst) (hpayload : (if tx.ctl then 1 else 5) ≤ payload.length)
    (hroom : (if tx.ctl then 8 else 4) ≤ tailroom)
    (hseen : netIf = .adv → msgHash m.iviTx (netHeader keys.nid m tx) ∉ s.msg.slots) :
    ∃ data, netEncodePdu keys stack m tx (netIf = .proxyCfg) tailroom payload = some data ∧
      (NotDup netIf s data → (btMeshNetDecode node netIf s data).1 =
        .ok (received node m tx netIdx newKey, netHeader keys.nid m tx ++ payload)) :=
  encoded_decodes hcrypto htried hbefore hfits hivi hunicast haddr hpayload hroom hseen

/-- The keys of a node. -/
def netKeys : SubnetKeys (List UInt8) where
  nid := 0x68
  enc := [0x09, 0x53, 0xfa, 0x93, 0xe7, 0xca, 0xac, 0x96, 0x38, 0xf5, 0x88, 0x20, 0x22, 0x0a, 0x39, 0x8e]
  privacy := [0x8b, 0x84, 0xee, 0xde, 0xc1, 0x00, 0x06, 0x7d, 0x67, 0x09, 0x71, 0xdd, 0x2a, 0xa7, 0x00, 0xcf]

/-- A node. -/
def netNode : NetNode (List UInt8) where
  crypto := sdkNetCrypto []
  ivIndex := 0x12345678
  subs := [⟨0, .normal, netKeys, netKeys⟩]
  isElem := fun addr => addr = 0x1202

/-- The node that sends. -/
def netSender : MeshNet := { meshBoot 4 with ivIndex := 0x12345678, seq := 1 }

/-- A PDU without an application key. -/
def netTx : NetTx := ⟨0x1201, 0xfffd, 0, true⟩

/-- A friend request. -/
def netPayload : List UInt8 := [0x03, 0x4b, 0x50, 0x05, 0x7e, 0x40, 0x00, 0x00, 0x01, 0x00, 0x00]

/-- A request of the application is received as it was sent. -/
theorem net_pdu_round_trip_request : ∃ data, netEncodePdu netKeys [] netSender netTx false 8 netPayload = some data ∧
    (NotDup .adv (netCachesInit 4) data → (btMeshNetDecode netNode .adv (netCachesInit 4) data).1 =
      .ok (received netNode netSender netTx 0 false, netHeader 0x68 netSender netTx ++ netPayload)) := by
  have hfits : TxFits netTx netKeys.nid netSender.seq := ⟨by decide, by decide, by decide, by decide, by decide⟩
  have haddr : Addressed netNode .adv netTx.src netTx.dst := ⟨by decide, by decide, by decide⟩
  have htried : netNode.tried = [] ++ (0, false, netKeys) :: [] := rfl
  have hcrypto : netNode.crypto = sdkNetCrypto [] := rfl
  have hbefore : ∀ e ∈ ([] : List (ℕ × Bool × SubnetKeys (List UInt8))), e.2.2.nid ≠ netKeys.nid :=
    List.forall_mem_nil _
  have hivi : netSender.iviTx = netNode.ivIndex ∨ netSender.iviTx = netNode.ivIndex - 1 := Or.inl (by decide)
  have hunicast : addrIsUnicast netTx.src := by decide
  have hpayload : (if netTx.ctl then 1 else 5) ≤ netPayload.length := by decide
  have hroom : (if netTx.ctl then 8 else 4) ≤ 8 := by decide
  have hseen : NetIf.adv = .adv →
      msgHash netSender.iviTx (netHeader netKeys.nid netSender netTx) ∉ (netCachesInit 4).msg.slots := by
    decide +kernel
  obtain ⟨data, hdata, hdecode⟩ :=
    net_pdu_round_trip hcrypto htried hbefore hfits hivi hunicast haddr hpayload hroom hseen
  exact ⟨data, hdata, hdecode⟩

/-- What is decoded is what one of the keys encodes. -/
theorem decode_encoded {d : NetDecoded} (hcrypto : node.crypto = sdkNetCrypto stack')
    (h : (btMeshNetDecode node netIf s data).1 = .ok (d, buf)) :
    ∃ keys, (d.netIdx, d.newKey, keys) ∈ node.tried ∧ ∀ stack m, m.iviTx = node.iviOf data → m.seq = d.seq →
      buf = netHeader keys.nid m ⟨d.src, d.dst, d.recvTtl, d.ctl⟩ ++ buf.drop 9 ∧
      ∀ tailroom, (if d.ctl then 8 else 4) ≤ tailroom →
        netEncodePdu keys stack m ⟨d.src, d.dst, d.recvTtl, d.ctl⟩ (netIf = .proxyCfg) tailroom (buf.drop 9) =
          some data := by
  obtain ⟨hlen, -, netIdx, newKey, src, hfind, -, rfl⟩ := decode_eq_ok.1 h
  obtain ⟨keys, s', hmem, hnid, hdec⟩ := exists_of_find hfind
  refine ⟨keys, hmem, ?_⟩
  intro stack m hivi hseq
  obtain ⟨hplain, hpdu, -, -, rfl⟩ := (netDecrypt_exact stack hcrypto hlen).1 hdec
  have hlong : 9 ≤ buf.length := by
    have hmic := netMicLen_le buf
    have hlength := length_pduOf hplain hpdu
    omega
  have hfirst := getD_pduOf hplain hpdu
  have hreads : ReadsAs buf keys.nid m ⟨beVal ((buf.drop 5).take 2), beVal ((buf.drop 7).take 2),
      (buf.getD 1 0).toNat % 128, 128 ≤ (buf.getD 1 0).toNat⟩ := by
    have hbyte := (buf.getD 1 0).toNat_lt
    refine ⟨?_, ?_, hseq.symm, rfl, rfl⟩
    · rw [← hfirst, hivi, iviOf_mod_two]
      omega
    · simp only [decide_eq_true_eq]
      split
      · omega
      · omega
  have heq := eq_netHeader hlong hreads (by omega) (Nat.mod_lt _ (by norm_num))
  refine ⟨heq, fun tailroom hroom => (netEncodePdu_eq_some _).2 ⟨hroom, ?_⟩⟩
  have hpdu' := hivi.symm ▸ hpdu
  rw [heq] at hpdu'
  exact hpdu'

/-- **Only what was encoded is accepted**: what is decoded is the header and the payload of a PDU that
`bt_mesh_net_encode` makes under one of the keys of the node. -/
theorem net_decode_only_encoded {d : NetDecoded} (hcrypto : node.crypto = sdkNetCrypto stack')
    (h : (btMeshNetDecode node netIf s data).1 = .ok (d, buf)) :
    ∃ keys, (d.netIdx, d.newKey, keys) ∈ node.tried ∧ ∀ stack m, m.iviTx = node.iviOf data → m.seq = d.seq →
      buf = netHeader keys.nid m ⟨d.src, d.dst, d.recvTtl, d.ctl⟩ ++ buf.drop 9 ∧
      ∀ tailroom, (if d.ctl then 8 else 4) ≤ tailroom →
        netEncodePdu keys stack m ⟨d.src, d.dst, d.recvTtl, d.ctl⟩ (netIf = .proxyCfg) tailroom (buf.drop 9) =
          some data :=
  decode_encoded hcrypto h

/-- What is received is what `bt_mesh_net_encode` made of that request. -/
theorem net_decode_only_encoded_request : ∃ data, (btMeshNetDecode netNode .proxy (netCachesInit 4) data).1 =
      .ok (received netNode netSender netTx 0 false, netHeader 0x68 netSender netTx ++ netPayload) ∧
    ∃ keys, (0, false, keys) ∈ netNode.tried ∧
      ∀ stack m, m.iviTx = netNode.iviOf data → m.seq = 1 →
        netHeader 0x68 netSender netTx ++ netPayload =
          netHeader keys.nid m netTx ++ (netHeader 0x68 netSender netTx ++ netPayload).drop 9 ∧
        netEncodePdu keys stack m netTx false 8 ((netHeader 0x68 netSender netTx ++ netPayload).drop 9) =
          some data := by
  have hcrypto : netNode.crypto = sdkNetCrypto [] := rfl
  have htried : netNode.tried = [] ++ (0, false, netKeys) :: [] := rfl
  have hfits : TxFits netTx netKeys.nid netSender.seq := ⟨by decide, by decide, by decide, by decide, by decide⟩
  have haddr : Addressed netNode .proxy netTx.src netTx.dst := ⟨by decide, by decide, by decide⟩
  have hreads : ReadsAs (netHeader 0x68 netSender netTx ++ netPayload) netKeys.nid netSender netTx :=
    netHeader_reads hfits
  obtain ⟨data, hdata⟩ :=
    pduOf_isSome netKeys [] netSender.iviTx (NetIf.proxy = .proxyCfg) (netHeader 0x68 netSender netTx ++ netPayload)
  have hdup : NotDup .proxy (netCachesInit 4) data := by
    intro h
    cases h
  have hdecode := decode_pduOf hcrypto htried (List.forall_mem_nil _) hfits.nid hfits.ttl hreads (by decide)
    (Or.inl (by decide)) (by decide) haddr (fun h => by cases h) hdata hdup
  obtain ⟨keys, hmem, hsent⟩ := net_decode_only_encoded hcrypto hdecode
  have hroom : (if netTx.ctl then 8 else 4) ≤ 8 := by decide
  refine ⟨data, hdecode, keys, hmem, fun stack m hivi hseq => ?_⟩
  obtain ⟨hheader, hpdu⟩ := hsent stack m hivi hseq
  exact ⟨hheader, hpdu 8 hroom⟩

end Main

end GenieSdk.Analysis.NetPdu
