import GenieSdk.Analysis.NetPdu
import GenieSdk.Analysis.ReplayProtection
import GenieSdk.Model.Access

/-!
# Messages reach the models that they are for

From `bt_mesh_trans_send` of one node to the handlers of another, through the encryption for the application and for
the network: **a message that fits into one PDU arrives with its opcode and its parameters** (`access_message_arrives`),
and **a handler is called for nothing but what is encrypted with a key that its model is bound to**
(`handler_call_authentic`), also where the message came in segments.
-/

set_option autoImplicit false

namespace GenieSdk.Analysis.Access

open GenieSdk.Lib GenieSdk.Model GenieSdk.Analysis.NetPdu GenieSdk.Analysis.Ccm

/-! ## Opcodes -/

section Opcodes

variable {opcode : ℕ} {buf params : List UInt8}

/-- The opcodes of one, two and three bytes; 0x7f is reserved. -/
def OpcodeOk (opcode : ℕ) : Prop :=
  opcode < 0x7f ∨ (0x8000 ≤ opcode ∧ opcode < 0xc000) ∨ (0xc00000 ≤ opcode ∧ opcode < 0x1000000)

instance (opcode : ℕ) : Decidable (OpcodeOk opcode) := inferInstanceAs (Decidable (_ ∨ _ ∨ _))

/-- The three shapes of a message. -/
theorem getOpcode_one {b : UInt8} (h : b.toNat < 0x7f) : getOpcode (b :: params) = some (b.toNat, params) := by
  have hclass : b.toNat / 64 < 2 := by omega
  have hok : b.toNat ≠ 0x7f := by omega
  simp only [getOpcode, List.getD_cons_zero, hclass, hok, if_true, if_false, List.drop_succ_cons, List.drop_zero]

/-- An opcode of two bytes is read as it was. -/
theorem getOpcode_two {b c : UInt8} (h : b.toNat / 64 = 2) :
    getOpcode (b :: c :: params) = some (b.toNat * 2 ^ 8 + c.toNat, params) := by
  have hlen : ¬ (b :: c :: params).length < 2 := by simp
  have hval : beVal ((b :: c :: params).take 2) = b.toNat * 2 ^ 8 + c.toNat := by
    simp only [beVal, List.take_succ_cons, List.take_zero, List.reverse_cons, List.reverse_nil, List.nil_append,
      List.singleton_append, leVal]
    omega
  simp only [getOpcode, List.getD_cons_zero, h, Nat.lt_irrefl, if_false, if_true, hlen, hval, List.drop_succ_cons,
    List.drop_zero]

/-- An opcode of three bytes is read as it was. -/
theorem getOpcode_three {b c d : UInt8} (h : b.toNat / 64 = 3) :
    getOpcode (b :: c :: d :: params) = some (b.toNat * 2 ^ 16 + (c.toNat + d.toNat * 2 ^ 8), params) := by
  have hclass : ¬ b.toNat / 64 < 2 := by omega
  have hclass' : b.toNat / 64 ≠ 2 := by omega
  have hlen : ¬ (b :: c :: d :: params).length < 3 := by simp
  have hval : leVal ((c :: d :: params).take 2) = c.toNat + d.toNat * 2 ^ 8 := by
    simp only [List.take_succ_cons, List.take_zero, leVal]
    omega
  simp only [getOpcode, List.getD_cons_zero, hclass, hclass', if_false, hlen, List.drop_succ_cons, List.drop_zero,
    hval]

/-- The bytes of a small number. -/
theorem toNat_ofNat {n : ℕ} (h : n < 2 ^ 8) : (UInt8.ofNat n).toNat = n := UInt8.toNat_ofNat_of_lt' h

/-- **An opcode is read as it was written.** -/
theorem getOpcode_msgInit (h : OpcodeOk opcode) (params : List UInt8) :
    getOpcode (btMeshModelMsgInit opcode ++ params) = some (opcode, params) := by
  unfold btMeshModelMsgInit
  obtain hone | ⟨hlow, hhigh⟩ | ⟨hlow, hhigh⟩ := h
  · have hbyte := toNat_ofNat (by omega : opcode < 2 ^ 8)
    rw [if_pos (by omega), List.singleton_append, getOpcode_one (by omega), hbyte]
  · have hfirst := toNat_ofNat (by omega : opcode / 256 % 256 < 2 ^ 8)
    have hsecond := toNat_ofNat (by omega : opcode % 256 < 2 ^ 8)
    have hsum : opcode / 256 % 256 * 2 ^ 8 + opcode % 256 = opcode := by omega
    rw [if_neg (by omega), if_pos (by omega)]
    change getOpcode (UInt8.ofNat (opcode / 256 % 256) :: UInt8.ofNat (opcode % 256) :: params) = _
    rw [getOpcode_two (by omega), hfirst, hsecond, hsum]
  · have hfirst := toNat_ofNat (by omega : opcode / 2 ^ 16 % 256 < 2 ^ 8)
    have hsecond := toNat_ofNat (by omega : opcode % 2 ^ 16 % 256 < 2 ^ 8)
    have hthird := toNat_ofNat (by omega : opcode % 2 ^ 16 / 256 % 256 < 2 ^ 8)
    have hsum : opcode / 2 ^ 16 % 256 * 2 ^ 16 + (opcode % 2 ^ 16 % 256 + opcode % 2 ^ 16 / 256 % 256 * 2 ^ 8) =
        opcode := by
      omega
    rw [if_neg (by omega), if_neg (by omega)]
    change getOpcode (UInt8.ofNat (opcode / 2 ^ 16 % 256) :: UInt8.ofNat (opcode % 2 ^ 16 % 256) ::
      UInt8.ofNat (opcode % 2 ^ 16 / 256 % 256) :: params) = _
    rw [getOpcode_three (by omega), hfirst, hsecond, hthird, hsum]

/-- A byte is that of its number. -/
theorem ofNat_eq {b : UInt8} {n : ℕ} (h : n = b.toNat) : UInt8.ofNat n = b := by
  rw [h, UInt8.ofNat_toNat]

/-- **Nothing else is read**: a message is what `bt_mesh_model_msg_init` puts in front of its parameters. -/
theorem msgInit_of_getOpcode (hpos : 0 < buf.length) (h : getOpcode buf = some (opcode, params)) :
    OpcodeOk opcode ∧ buf = btMeshModelMsgInit opcode ++ params := by
  obtain ⟨b, rest, rfl⟩ := List.exists_cons_of_length_pos hpos
  have hb := b.toNat_lt
  unfold btMeshModelMsgInit
  by_cases hclass : b.toNat / 64 < 2
  · have hok : b.toNat ≠ 0x7f := by
      intro hrfu
      simp [getOpcode, hrfu] at h
    rw [getOpcode_one (by omega)] at h
    obtain ⟨rfl, rfl⟩ := Prod.mk.inj (Option.some.inj h)
    refine ⟨Or.inl (by omega), ?_⟩
    rw [if_pos (by omega), ofNat_eq rfl]
    rfl
  by_cases hclass' : b.toNat / 64 = 2
  · cases rest with
    | nil => simp [getOpcode, hclass'] at h
    | cons c rest =>
      have hc := c.toNat_lt
      rw [getOpcode_two hclass'] at h
      obtain ⟨rfl, rfl⟩ := Prod.mk.inj (Option.some.inj h)
      refine ⟨Or.inr (Or.inl (by omega)), ?_⟩
      rw [if_neg (by omega), if_pos (by omega)]
      change _ = UInt8.ofNat ((b.toNat * 2 ^ 8 + c.toNat) / 256 % 256) ::
        UInt8.ofNat ((b.toNat * 2 ^ 8 + c.toNat) % 256) :: rest
      rw [ofNat_eq (b := b) (by omega), ofNat_eq (b := c) (by omega)]
  · obtain ⟨c, d, rest, rfl⟩ : ∃ c d rest', rest = c :: d :: rest' := by
      cases rest with
      | nil => simp [getOpcode, hclass, hclass'] at h
      | cons c rest =>
        cases rest with
        | nil => simp [getOpcode, hclass, hclass'] at h
        | cons d rest => exact ⟨c, d, rest, rfl⟩
    have hc := c.toNat_lt
    have hd := d.toNat_lt
    rw [getOpcode_three (by omega)] at h
    obtain ⟨rfl, rfl⟩ := Prod.mk.inj (Option.some.inj h)
    refine ⟨Or.inr (Or.inr ⟨by omega, by omega⟩), ?_⟩
    rw [if_neg (by omega), if_neg (by omega)]
    generalize hn : b.toNat * 2 ^ 16 + (c.toNat + d.toNat * 2 ^ 8) = n
    change _ = UInt8.ofNat (n / 2 ^ 16 % 256) :: UInt8.ofNat (n % 2 ^ 16 % 256) ::
      UInt8.ofNat (n % 2 ^ 16 / 256 % 256) :: rest
    rw [ofNat_eq (b := b) (by omega), ofNat_eq (b := c) (by omega), ofNat_eq (b := d) (by omega)]

/-- An opcode has at least one byte. -/
theorem length_msgInit_pos (opcode : ℕ) : 0 < (btMeshModelMsgInit opcode).length := by
  unfold btMeshModelMsgInit
  split
  · exact Nat.zero_lt_one
  · split
    · rw [length_beBytes]
      norm_num
    · exact Nat.succ_pos _

end Opcodes

/-! ## The models -/

section Models

variable {node : AccessNode} {src dst appIdx opcode : ℕ} {params buf : List UInt8} {call : ModelCall}

/-- What is checked before a handler is called: its element is one that the message is for, its model is bound to the
key of the message and has the opcode, and the parameters are not too short. -/
structure Bound (node : AccessNode) (dst : ℕ) (call : ModelCall) : Prop where
  found : ∃ elem mod op, node.elems[call.elem]? = some elem ∧ elemTakes node elem call.elem dst ∧
    (elem.modelsFor call.opcode)[call.model]? = some mod ∧ call.appIdx ∈ mod.keys ∧ op ∈ mod.op ∧
      op.opcode = call.opcode ∧ op.func = call.func ∧ op.minLen ≤ call.params.length

/-- The model that is found is bound to the key and knows the opcode. -/
theorem findOp_some {models : List MeshModel} {j : ℕ} {op : ModelOp}
    (h : findOp appIdx opcode models = some (j, op)) :
    ∃ mod, models[j]? = some mod ∧ appIdx ∈ mod.keys ∧ op ∈ mod.op ∧ op.opcode = opcode := by
  induction models generalizing j with
  | nil => cases h
  | cons mod rest ih =>
    have hnext : (findOp appIdx opcode rest).map (fun p => (p.1 + 1, p.2)) = some (j, op) →
        ∃ mod', (mod :: rest)[j]? = some mod' ∧ appIdx ∈ mod'.keys ∧ op ∈ mod'.op ∧ op.opcode = opcode := by
      intro hrest
      obtain ⟨⟨i, op'⟩, hfind, heq⟩ := Option.map_eq_some_iff.1 hrest
      obtain ⟨rfl, rfl⟩ := Prod.mk.inj heq
      exact ih hfind
    rw [findOp] at h
    split at h
    · exact hnext h
    · next hkey =>
        split at h
        · next op' hfind =>
            obtain ⟨rfl, rfl⟩ := Prod.mk.inj (Option.some.inj h)
            have hmem : appIdx ∈ mod.keys := List.contains_iff_mem.1 (not_not.1 hkey)
            have hopcode : op'.opcode = opcode := by simpa using List.find?_some hfind
            exact ⟨mod, rfl, hmem, List.mem_of_find?_eq_some hfind, hopcode⟩
        · exact hnext h

/-- A handler is called after the checks, with what the message has. -/
theorem modelRecv_bound (hpos : 0 < buf.length) (h : call ∈ btMeshModelRecv node src dst appIdx buf) :
    Bound node dst call ∧ call.src = src ∧ call.appIdx = appIdx ∧
      buf = btMeshModelMsgInit call.opcode ++ call.params := by
  unfold btMeshModelRecv at h
  split at h
  · cases h
  next opcode params hread =>
  obtain ⟨⟨elem, i⟩, hmem, hcall⟩ := List.mem_filterMap.1 h
  have hget : node.elems[i]? = some elem := List.mk_mem_zipIdx_iff_getElem?.1 hmem
  change elemRecv node src dst appIdx opcode params elem i = some call at hcall
  unfold elemRecv at hcall
  by_cases htakes : elemTakes node elem i dst = true
  swap
  · rw [if_pos htakes] at hcall
    cases hcall
  rw [if_neg (not_not.2 htakes)] at hcall
  split at hcall
  · cases hcall
  next j op hop =>
  split at hcall
  · cases hcall
  next hmin =>
  cases hcall
  obtain ⟨mod, hmod, hkey, hin, hopcode⟩ := findOp_some hop
  refine ⟨⟨elem, mod, op, hget, htakes, hmod, hkey, hin, hopcode, rfl, Nat.not_lt.1 hmin⟩, rfl, rfl, ?_⟩
  exact (msgInit_of_getOpcode hpos hread).2

end Models

/-! ## The keys -/

section Keys

variable {node : AccessNode} {stack stack' key buf sdu : List UInt8} {devKey aszmic newKey : Bool}
  {ad : Option LabelUuid} {src dst seq netIdx appIdx aid : ℕ} {ivi : UInt32} {net : NetRx}

/-- The MIC has at most eight bytes. -/
theorem appMicLen_le (aszmic : Bool) : appMicLen aszmic ≤ 8 := by
  unfold appMicLen
  split
  · exact le_rfl
  · norm_num

/-- The MIC comes behind the message. -/
theorem length_appEncrypt (hpos : 0 < sdu.length)
    (h : btMeshAppEncrypt key stack devKey aszmic sdu ad src dst seq ivi = some buf) :
    buf.length = sdu.length + appMicLen aszmic := by
  have hmic := appMicLen_le aszmic
  have htag : (ccmTag key stack (createAppNonce devKey aszmic src dst seq ivi) sdu ad
      (appMicLen aszmic)).length = appMicLen aszmic :=
    length_ccmTag hpos (by omega)
  unfold btMeshAppEncrypt at h
  rw [ccm_encrypt_eq] at h
  have hlength := congrArg List.length (Option.some.inj h)
  rw [List.length_append, length_maskBlocks, htag] at hlength
  exact hlength.symm

/-- **The encryption of a message is exact.** -/
theorem app_exact (stack stack' : List UInt8) (hlen : 1 + appMicLen aszmic ≤ buf.length) :
    btMeshAppDecrypt key stack' devKey aszmic buf (buf.length - appMicLen aszmic) ad src dst seq ivi = some sdu ↔
      0 < sdu.length ∧ btMeshAppEncrypt key stack devKey aszmic sdu ad src dst seq ivi = some buf := by
  have hmic := appMicLen_le aszmic
  unfold btMeshAppDecrypt
  rw [ccm_exact stack stack' (by omega) (by omega) (by omega)]
  constructor
  · rintro ⟨hlength, hencrypt⟩
    exact ⟨by omega, hencrypt⟩
  · rintro ⟨hpos, hencrypt⟩
    have hlength := length_appEncrypt hpos hencrypt
    exact ⟨by omega, hencrypt⟩

/-- A key that a node may decrypt a message with: that of the device, or one of an application of the subnet. -/
inductive RxKey (node : AccessNode) (netIdx : ℕ) (newKey : Bool) (aid : ℕ) : Bool → ℕ → List UInt8 → Prop
  | dev : RxKey node netIdx newKey aid true btMeshKeyDev node.devKey
  | app (k : AppKey) (hmem : k ∈ node.appKeys) (hnet : k.netIdx = netIdx) (haid : (k.rxKeys newKey).id = aid) :
      RxKey node netIdx newKey aid false k.appIdx (k.rxKeys newKey).val

/-- The key that decrypts the message is one of the subnet with the identifier of the PDU. -/
theorem sduRecvKeys_some {appKeys : List AppKey}
    (h : sduRecvKeys stack netIdx newKey aszmic aid net ivi ad buf appKeys = some (appIdx, sdu)) :
    ∃ k ∈ appKeys, k.netIdx = netIdx ∧ (k.rxKeys newKey).id = aid ∧ k.appIdx = appIdx ∧
      btMeshAppDecrypt (k.rxKeys newKey).val stack false aszmic buf (buf.length - appMicLen aszmic) ad net.src net.dst
        net.seq ivi = some sdu := by
  induction appKeys with
  | nil => cases h
  | cons k rest ih =>
    have hnext : sduRecvKeys stack netIdx newKey aszmic aid net ivi ad buf rest = some (appIdx, sdu) →
        ∃ k' ∈ k :: rest, k'.netIdx = netIdx ∧ (k'.rxKeys newKey).id = aid ∧ k'.appIdx = appIdx ∧
          btMeshAppDecrypt (k'.rxKeys newKey).val stack false aszmic buf (buf.length - appMicLen aszmic) ad net.src
            net.dst net.seq ivi = some sdu := by
      intro hrest
      obtain ⟨k', hmem, hk'⟩ := ih hrest
      exact ⟨k', List.mem_cons_of_mem k hmem, hk'⟩
    rw [sduRecvKeys] at h
    split at h
    · exact hnext h
    next hnet =>
    split at h
    · exact hnext h
    next haid =>
    split at h
    · exact hnext h
    next sdu' hdec =>
    obtain ⟨rfl, rfl⟩ := Prod.mk.inj (Option.some.inj h)
    exact ⟨k, List.mem_cons_self, not_not.1 hnet, (not_not.1 haid).symm, rfl, hdec⟩

/-- Keys of other subnets, or with another identifier, are passed by. -/
theorem sduRecvKeys_of_before {before after : List AppKey} {k : AppKey} (hnet : k.netIdx = netIdx)
    (hbefore : ∀ k' ∈ before, k'.netIdx = netIdx → (k'.rxKeys newKey).id ≠ (k.rxKeys newKey).id)
    (hdec : btMeshAppDecrypt (k.rxKeys newKey).val stack false aszmic buf (buf.length - appMicLen aszmic) ad net.src
      net.dst net.seq ivi = some sdu) :
    sduRecvKeys stack netIdx newKey aszmic (k.rxKeys newKey).id net ivi ad buf (before ++ k :: after) =
      some (k.appIdx, sdu) := by
  induction before with
  | nil => rw [List.nil_append, sduRecvKeys, if_neg (not_not.2 hnet), if_neg (not_not.2 rfl), hdec]
  | cons k' before ih =>
    have hrest := ih fun k'' hk'' => hbefore k'' (List.mem_cons_of_mem k' hk'')
    rw [List.cons_append, sduRecvKeys]
    by_cases hother : k'.netIdx = netIdx
    · have haid := hbefore k' List.mem_cons_self hother
      rw [if_neg (not_not.2 hother), if_pos (Ne.symm haid)]
      exact hrest
    · rw [if_pos hother]
      exact hrest

/-- **Only what was encrypted is passed on.** -/
theorem sduRecv_some {hdr : UInt8} (h : sduRecv node stack' netIdx newKey ivi net hdr aszmic buf = some (appIdx, sdu)) :
    ∃ devKey key, RxKey node netIdx newKey (hdr.toNat % 64) devKey appIdx key ∧ 0 < sdu.length ∧ ∀ stack,
      btMeshAppEncrypt key stack devKey aszmic sdu (node.ad net.dst) net.src net.dst net.seq ivi = some buf := by
  unfold sduRecv at h
  split at h
  · cases h
  next hlen =>
  split at h
  · cases h
  have hlong : 1 + appMicLen aszmic ≤ buf.length := Nat.not_lt.1 hlen
  dsimp only at h
  split at h
  · obtain ⟨sdu', hdec, heq⟩ := Option.map_eq_some_iff.1 h
    obtain ⟨rfl, rfl⟩ := Prod.mk.inj heq
    have hexact := fun stack => (app_exact stack stack' hlong).1 hdec
    exact ⟨true, node.devKey, .dev, (hexact []).1, fun stack => (hexact stack).2⟩
  · obtain ⟨k, hmem, hnet, haid, rfl, hdec⟩ := sduRecvKeys_some h
    have hexact := fun stack => (app_exact stack stack' hlong).1 hdec
    exact ⟨false, (k.rxKeys newKey).val, .app k hmem hnet haid, (hexact []).1, fun stack => (hexact stack).2⟩

end Keys

/-! ## What the transport layer hands on -/

section Handed

variable {cfg : RxCfg} {s t : TransRx} {net : NetRx} {h : SegHdr} {k now : ℕ} {payload buf : List UInt8}

/-- An SDU is handed on with what is known of its last PDU. -/
def HandsOn (net : NetRx) (s : TransRx) (r : RecvRet × TransRx) : Prop :=
  r.1 = .handed → ∃ hd : Handed, r.2.handed = s.handed ++ [hd] ∧ hd.net = { net with seq := hd.net.seq }

/-- Other results. -/
theorem HandsOn.of_ne {r : RecvRet × TransRx} (h : r.1 ≠ .handed) : HandsOn net s r := fun hr => absurd hr h

/-- The state may differ in what was not handed on. -/
theorem HandsOn.of_handed {r : RecvRet × TransRx} (h : HandsOn net t r) (hs : t.handed = s.handed) :
    HandsOn net s r := by
  unfold HandsOn at h ⊢
  rw [hs] at h
  exact h

/-- A segmented message is handed on as it was put together. -/
theorem segHand_handsOn (rx : SegRx) : HandsOn net s (.handed, segHand cfg s net h k rx) := by
  intro _
  unfold segHand
  dsimp only
  obtain ⟨acks, hack⟩ := sendAck_eq cfg s net.dst net.src net.sendTtl rx.seqAuth rx.block rx.obo
  rw [hack]
  exact ⟨_, rfl, rfl⟩

/-- The replay list says nothing of what was handed on. -/
theorem handed_of_replayed {b : Bool} (hrep : replayed s net = (b, t)) : t.handed = s.handed := by
  unfold replayed at hrep
  split at hrep
  · have hrest := (isReplay_rest s net).2.1
    rw [hrep] at hrest
    exact hrest
  · obtain ⟨-, rfl⟩ := Prod.mk.inj hrep
    rfl

/-- Storing a segment hands on nothing else. -/
theorem segStore_handsOn : HandsOn net s (segStore cfg s net h k payload now) := by
  unfold segStore
  dsimp only
  split
  · exact HandsOn.of_ne (by simp)
  · generalize hrep : replayed (s.setRx k (segStored cfg h payload now (s.rx k))) net = rep
    obtain ⟨b, t⟩ := rep
    have ht := handed_of_replayed hrep
    cases b with
    | true => exact HandsOn.of_ne (by simp)
    | false => exact (segHand_handsOn _).of_handed ht

/-- Nor does receiving one. -/
theorem segReceive_handsOn : HandsOn net s (segReceive cfg s net h k payload now) := by
  unfold segReceive
  dsimp only
  split
  · exact HandsOn.of_ne (by simp)
  · split
    · split
      · exact HandsOn.of_ne (by simp)
      · exact segStore_handsOn.of_handed rfl
    · split
      · exact HandsOn.of_ne (by simp)
      · exact segStore_handsOn

/-- Nor does `trans_seg`. -/
theorem transSeg_handsOn : HandsOn net s (transSeg cfg s net buf now) := by
  unfold transSeg
  split
  · exact HandsOn.of_ne (by simp)
  dsimp only
  split
  · exact HandsOn.of_ne (by simp)
  split
  · split
    · exact HandsOn.of_ne (by simp)
    · split
      · exact segReceive_handsOn.of_handed rfl
      · split
        · exact HandsOn.of_ne (by simp)
        · exact HandsOn.of_ne (by simp)
  · split
    · exact HandsOn.of_ne (by simp)
    · split
      · exact HandsOn.of_ne (by simp)
      · exact segReceive_handsOn.of_handed rfl

/-- A PDU that is not segmented is an SDU behind its header. -/
theorem transUnseg_handsOn (hr : (transUnseg s net buf).1 = .handed) :
    ∃ hd : Handed, (transUnseg s net buf).2.handed = s.handed ++ [hd] ∧ hd.net = net ∧ hd.aszmic = false ∧
      buf = hd.hdr :: hd.buf := by
  unfold transUnseg at hr ⊢
  split at hr
  · cases hr
  next hlen =>
  obtain ⟨b, rest, rfl⟩ := List.exists_cons_of_length_pos (Nat.not_lt.1 hlen)
  rw [if_neg hlen]
  generalize hrep : replayed s net = rep at hr ⊢
  obtain ⟨again, t⟩ := rep
  have ht := handed_of_replayed hrep
  cases again with
  | true => cases hr
  | false =>
    dsimp only at hr ⊢
    split at hr
    · cases hr
    next hmatch =>
    rw [if_neg hmatch]
    exact ⟨_, by rw [ht], rfl, rfl, rfl⟩

/-- What `bt_mesh_trans_recv` hands on is of the PDU that came in; of an unsegmented one it is all of it. -/
theorem transRecv_handsOn (hr : (transRecv cfg s net buf now).1 = .handed) :
    ∃ hd : Handed, (transRecv cfg s net buf now).2.handed = s.handed ++ [hd] ∧
      hd.net = { net with seq := hd.net.seq } ∧
      ((buf.getD 0 0).toNat < 128 → hd.net.seq = net.seq ∧ hd.aszmic = false ∧ buf = hd.hdr :: hd.buf) := by
  unfold transRecv at hr ⊢
  by_cases hseg : 128 ≤ (buf.getD 0 0).toNat
  · rw [if_pos hseg] at hr ⊢
    split at hr
    · cases hr
    next hmatch =>
    rw [if_neg hmatch]
    obtain ⟨hd, hhanded, hnet⟩ := transSeg_handsOn hr
    exact ⟨hd, hhanded, hnet, fun hlt => absurd hseg (by omega)⟩
  · rw [if_neg hseg] at hr ⊢
    obtain ⟨hd, hhanded, hnet, hmic, hbuf⟩ := transUnseg_handsOn hr
    exact ⟨hd, hhanded, by rw [hnet], fun _ => ⟨by rw [hnet], hmic, hbuf⟩⟩

end Handed

/-! ## Every call -/

section Calls

variable {cfg : RxCfg} {net : NetNode (List UInt8)} {node : AccessNode} {stack stack' data : List UInt8} {netIf : NetIf}
  {env : RecvEnv} {s : NetCaches × TransRx} {call : ModelCall}

/-- What a call goes back to: a network PDU under a key of the node, the SDU that is complete with it, and the key that
the SDU is encrypted with. -/
structure Origin where
  decoded : NetDecoded
  payload : List UInt8
  netKeys : SubnetKeys (List UInt8)
  handed : Handed
  devKey : Bool
  key : List UInt8

/-- The origin of a call: the node has the keys, both encryptions give the bytes that came in, and the model is bound
to the key. -/
structure Authentic (cfg : RxCfg) (net : NetNode (List UInt8)) (node : AccessNode) (netIf : NetIf) (env : RecvEnv)
    (data : List UInt8) (t : TransRx) (call : ModelCall) (o : Origin) : Prop where
  netKeys : (o.decoded.netIdx, o.decoded.newKey, o.netKeys) ∈ net.tried
  network : ∀ stack m tailroom, m.iviTx = net.iviOf data → m.seq = o.decoded.seq →
    (if o.decoded.ctl then 8 else 4) ≤ tailroom →
    netEncodePdu o.netKeys stack m ⟨o.decoded.src, o.decoded.dst, o.decoded.recvTtl, o.decoded.ctl⟩
      (netIf = .proxyCfg) tailroom o.payload = some data
  transport : (transRecv cfg { t with ivIndex := net.ivIndex } (netRxOf node env o.decoded) o.payload
    env.now).2.handed = t.handed ++ [o.handed]
  unsegmented : (o.payload.getD 0 0).toNat < 128 →
    o.handed.net.seq = o.decoded.seq ∧ o.handed.aszmic = false ∧ o.payload = o.handed.hdr :: o.handed.buf
  key : RxKey node o.decoded.netIdx o.decoded.newKey (o.handed.hdr.toNat % 64) o.devKey call.appIdx o.key
  message : ∀ stack, btMeshAppEncrypt o.key stack o.devKey o.handed.aszmic
    (btMeshModelMsgInit call.opcode ++ call.params) (node.ad o.decoded.dst) o.decoded.src o.decoded.dst
      o.handed.net.seq (net.iviOf data) = some o.handed.buf
  src : call.src = o.decoded.src
  bound : Bound node o.decoded.dst call

/-- **Handlers are called for authentic messages only.** -/
theorem handler_call_authentic (hcrypto : net.crypto = sdkNetCrypto stack')
    (h : call ∈ (btMeshNetRecv cfg net node stack netIf env data s).1) :
    ∃ o, Authentic cfg net node netIf env data s.2 call o := by
  unfold btMeshNetRecv at h
  split at h
  · cases h
  next d buf c hdecode =>
  split at h
  · cases h
  dsimp only at h
  split at h
  swap
  · cases h
  next hret =>
  have hok : (btMeshNetDecode net netIf s.1 data).1 = .ok (d, buf) := by rw [hdecode]
  obtain ⟨netKeys, hmem, hencoded⟩ := decode_encoded hcrypto hok
  obtain ⟨hd, hhanded, hnet, hunseg⟩ := transRecv_handsOn hret
  have hold : d.oldIv = oldIvOf net.ivIndex data := by
    obtain ⟨-, -, netIdx, newKey, src, -, -, rfl⟩ := decode_eq_ok.1 hok
    rfl
  rw [hhanded, List.getLast?_concat, Option.map_some, Option.getD_some] at h
  unfold handedCalls at h
  split at h
  · cases h
  split at h
  · cases h
  next appIdx sdu hsdu =>
  obtain ⟨devKey, key, hkey, hpos, hmessage⟩ := sduRecv_some hsdu
  obtain ⟨hbound, hsrc, rfl, rfl⟩ := modelRecv_bound hpos h
  have hivi : net.ivIndex - (if hd.net.oldIv then 1 else 0) = net.iviOf data := by
    rw [hnet]
    change net.ivIndex - (if d.oldIv then 1 else 0) = _
    rw [hold]
    rfl
  have hmsrc : hd.net.src = d.src := by rw [hnet]; rfl
  have hmdst : hd.net.dst = d.dst := by rw [hnet]; rfl
  rw [hivi, hmsrc, hmdst] at hmessage
  rw [hmdst] at hbound
  refine ⟨⟨d, buf.drop 9, netKeys, hd, devKey, key⟩, ?_⟩
  exact {
    netKeys := hmem
    network := fun stack m tailroom hiv hseq hroom => (hencoded stack m hiv hseq).2 tailroom hroom
    transport := hhanded
    unsegmented := hunseg
    key := hkey
    message := hmessage
    src := hsrc.trans hmsrc
    bound := hbound }

end Calls

/-! ## A message that fits into one PDU -/

section Arrival

variable {cfg : RxCfg} {net : NetNode (List UInt8)} {node sender : AccessNode} {stack stack' : List UInt8}
  {netIf : NetIf} {env : RecvEnv} {s : NetCaches × TransRx} {m : MeshNet} {tx : AccessTx} {appKey : AppKeys}
  {keys : SubnetKeys (List UInt8)} {netIdx appIdx opcode lpns tailroom : ℕ} {newKey : Bool} {params : List UInt8}
  {before after : List (ℕ × Bool × SubnetKeys (List UInt8))}

/-- The receiver has the key of the message: that of the device, or one of an application of the subnet that stands
behind no other one with its identifier. -/
inductive SharesKey (node : AccessNode) (netIdx : ℕ) (newKey : Bool) (tx : AccessTx) (appKey : AppKeys) : ℕ → Prop
  | dev (htx : tx.appIdx = btMeshKeyDev) (hval : node.devKey = appKey.val) :
      SharesKey node netIdx newKey tx appKey btMeshKeyDev
  | app (htx : tx.appIdx ≠ btMeshKeyDev) (front back : List AppKey) (k : AppKey)
      (hkeys : node.appKeys = front ++ k :: back) (hnet : k.netIdx = netIdx) (hval : k.rxKeys newKey = appKey)
      (hid : appKey.id < 64) (hfront : ∀ k' ∈ front, k'.netIdx = netIdx → (k'.rxKeys newKey).id ≠ appKey.id) :
      SharesKey node netIdx newKey tx appKey k.appIdx

/-- The first byte of an unsegmented message has the identifier of its application key. -/
theorem toNat_unsegHdr (aid : ℕ) : (unsegHdr false aid).toNat = 64 + aid % 64 := by
  have haid := Nat.mod_lt aid (by norm_num : 0 < 64)
  exact toNat_ofNat (by change 64 + aid % 64 < 2 ^ 8; omega)

/-- With the device key it is zero. -/
theorem toNat_unsegHdr_dev (aid : ℕ) : (unsegHdr true aid).toNat = 0 := rfl

/-- It never says that the message is segmented. -/
theorem unsegHdr_lt (devKey : Bool) (aid : ℕ) : (unsegHdr devKey aid).toNat < 128 := by
  cases devKey with
  | true => exact Nat.zero_lt_succ _
  | false =>
    rw [toNat_unsegHdr]
    omega

/-- What is encrypted for a key of the receiver is decrypted with it. -/
theorem sduRecv_of_shared {rx : NetRx} {ivi : UInt32} {msg sdu : List UInt8}
    (hshare : SharesKey node netIdx newKey tx appKey appIdx) (hlocal : rx.localMatch = true) (hpos : 0 < msg.length)
    (henc : btMeshAppEncrypt appKey.val stack (tx.appIdx = btMeshKeyDev) false msg (node.ad rx.dst) rx.src rx.dst
      rx.seq ivi = some sdu) :
    sduRecv node stack' netIdx newKey ivi rx (unsegHdr (tx.appIdx = btMeshKeyDev) appKey.id) false sdu =
      some (appIdx, msg) := by
  have hlength := length_appEncrypt hpos henc
  have hlong : 1 + appMicLen false ≤ sdu.length := by omega
  have hdec := (app_exact stack stack' hlong).2 ⟨hpos, henc⟩
  unfold sduRecv
  rw [if_neg (Nat.not_lt.2 hlong), if_neg (by simp [hlocal])]
  dsimp only
  cases hshare with
  | dev htx hval =>
    rw [decide_eq_true htx] at hdec ⊢
    rw [toNat_unsegHdr_dev, if_pos rfl, hval, hdec]
    rfl
  | app htx front back k hkeys hnet hval hid hfront =>
    rw [decide_eq_false htx] at hdec ⊢
    subst hval
    rw [toNat_unsegHdr, if_neg (by omega), hkeys, Nat.add_mod_left, Nat.mod_mod, Nat.mod_eq_of_lt hid]
    exact sduRecvKeys_of_before hnet hfront hdec

/-- A new PDU that is not segmented is handed on. -/
theorem transRecv_unseg (cfg : RxCfg) {t : TransRx} {rx : NetRx} {hdr : UInt8} (sdu : List UInt8) (now : ℕ)
    (hhdr : hdr.toNat < 128) (hlocal : rx.localMatch = true) (hreplay : (isReplay t rx).1 = false) :
    (transRecv cfg t rx (hdr :: sdu) now).1 = .handed ∧ ∃ seqAuth,
      (transRecv cfg t rx (hdr :: sdu) now).2.handed.getLast? = some ⟨rx, hdr, false, sdu, seqAuth⟩ := by
  have hpair : isReplay t rx = (false, (isReplay t rx).2) := Prod.ext hreplay rfl
  have hnot : ¬ 128 ≤ ((hdr :: sdu).getD 0 0).toNat := Nat.not_le.2 hhdr
  unfold transRecv transUnseg replayed
  rw [if_neg hnot, if_neg (by simp), if_pos hlocal, hpair]
  dsimp only
  rw [if_neg (by simp [hlocal])]
  exact ⟨rfl, _, List.getLast?_concat⟩

/-- The handlers for an SDU that was handed on and decrypted. -/
theorem netRecv_of_handed {data buf msg : List UInt8} {d : NetDecoded} {c : NetCaches} {hd : Handed}
    (hdecode : btMeshNetDecode net netIf s.1 data = (.ok (d, buf), c)) (hready : env.lpnIgnores = false)
    (hret : (transRecv cfg { s.2 with ivIndex := net.ivIndex } (netRxOf node env d) (buf.drop 9) env.now).1 = .handed)
    (hlast : (transRecv cfg { s.2 with ivIndex := net.ivIndex } (netRxOf node env d) (buf.drop 9)
      env.now).2.handed.getLast? = some hd)
    (hctl : hd.net.ctl = false)
    (hsdu : sduRecv node stack d.netIdx d.newKey (net.ivIndex - (if hd.net.oldIv then 1 else 0)) hd.net hd.hdr
      hd.aszmic hd.buf = some (appIdx, msg)) :
    (btMeshNetRecv cfg net node stack netIf env data s).1 =
      btMeshModelRecv node hd.net.src hd.net.dst appIdx msg := by
  unfold btMeshNetRecv
  rw [hdecode]
  dsimp only
  rw [hready, if_neg Bool.false_ne_true]
  dsimp only
  rw [if_pos hret, hlast, Option.map_some, Option.getD_some]
  unfold handedCalls
  rw [hctl, if_neg Bool.false_ne_true, hsdu]

/-- The IV index that the sender used. -/
theorem ivi_of_received (hivi : m.iviTx = net.ivIndex ∨ m.iviTx = net.ivIndex - 1) :
    net.ivIndex - (if decide (m.iviTx ≠ net.ivIndex) then 1 else 0) = m.iviTx := by
  by_cases hsame : m.iviTx = net.ivIndex
  · rw [decide_eq_false (not_not.2 hsame), if_neg Bool.false_ne_true, hsame]
    exact UInt32.sub_zero _
  · rw [decide_eq_true hsame, if_pos rfl]
    exact (hivi.resolve_left hsame).symm

/-- A message of one PDU, encrypted. -/
theorem transSend_short {msg sdu : List UInt8} (hkey : sender.txKey tx.krPhase tx.appIdx = some appKey)
    (hrel : tx.sendRel = false) (hshort : msg.length ≤ 11) (hroom : 4 ≤ tailroom)
    (hsdu : btMeshAppEncrypt appKey.val stack (tx.appIdx = btMeshKeyDev) false msg (sender.ad tx.dst) tx.src tx.dst
      m.seq m.iviTx = some sdu) :
    btMeshTransSend sender stack m tx tailroom msg = some ⟨false, appKey.id, false, sdu⟩ := by
  have hunseg : (tx.sendRel || decide (11 < msg.length)) = false := by
    rw [hrel, Bool.false_or]
    exact decide_eq_false (by omega)
  unfold btMeshTransSend
  rw [if_neg (by omega), hkey, hunseg]
  dsimp only
  rw [Bool.false_and, hsdu]
  rfl

/-- The transport PDU stands behind the header. -/
theorem drop_netHeader (nid : ℕ) (m : MeshNet) (t : NetTx) (pdu : List UInt8) :
    (netHeader nid m t ++ pdu).drop 9 = pdu := by
  rw [List.drop_append_of_le_length (by rw [length_netHeader]), List.drop_eq_nil_of_le (by rw [length_netHeader]),
    List.nil_append]

/-- The way of a message. -/
theorem message_arrives (stack : List UInt8) (hcrypto : net.crypto = sdkNetCrypto stack')
    (htried : net.tried = before ++ (netIdx, newKey, keys) :: after) (hbefore : ∀ e ∈ before, e.2.2.nid ≠ keys.nid)
    (hfits : TxFits ⟨tx.src, tx.dst, tx.sendTtl, false⟩ keys.nid m.seq)
    (hivi : m.iviTx = net.ivIndex ∨ m.iviTx = net.ivIndex - 1) (hunicast : addrIsUnicast tx.src)
    (haddr : Addressed net netIf tx.src tx.dst) (hif : netIf ≠ .proxyCfg)
    (hseen : netIf = .adv → msgHash m.iviTx (netHeader keys.nid m ⟨tx.src, tx.dst, tx.sendTtl, false⟩) ∉ s.1.msg.slots)
    (hkey : sender.txKey tx.krPhase tx.appIdx = some appKey) (hshare : SharesKey node netIdx newKey tx appKey appIdx)
    (hlabel : node.ad tx.dst = sender.ad tx.dst) (hop : OpcodeOk opcode) (hrel : tx.sendRel = false)
    (hshort : (btMeshModelMsgInit opcode ++ params).length ≤ 11) (hroom : 4 ≤ tailroom) (hlpns : lpns = 0)
    (hready : env.lpnIgnores = false)
    (hlocal : (btMeshFixedGroupMatch node tx.dst || btMeshElemFind node.elems tx.dst) = true)
    (hreplay : (isReplay { s.2 with ivIndex := net.ivIndex }
      (netRxOf node env (received net m ⟨tx.src, tx.dst, tx.sendTtl, false⟩ netIdx newKey))).1 = false) :
    ∃ data, sendAccess sender stack keys m tx lpns tailroom (btMeshModelMsgInit opcode ++ params) = some data ∧
      (NotDup netIf s.1 data → (btMeshNetRecv cfg net node stack' netIf env data s).1 =
        node.elems.zipIdx.filterMap fun (elem, i) => elemRecv node tx.src tx.dst appIdx opcode params elem i) := by
  generalize hmsg : btMeshModelMsgInit opcode ++ params = msg at hshort
  have hpos : 0 < msg.length := by
    have hinit := length_msgInit_pos opcode
    rw [← hmsg, List.length_append]
    omega
  obtain ⟨sdu, hsdu⟩ : ∃ sdu, btMeshAppEncrypt appKey.val stack (tx.appIdx = btMeshKeyDev) false msg (node.ad tx.dst)
      tx.src tx.dst m.seq m.iviTx = some sdu :=
    ⟨_, ccm_encrypt_eq⟩
  have hlength := length_appEncrypt hpos hsdu
  have hmic : appMicLen false = 4 := rfl
  have hsend := transSend_short hkey hrel hshort hroom (by rw [← hlabel]; exact hsdu)
  generalize hpdu : unsegHdr (tx.appIdx = btMeshKeyDev) appKey.id :: sdu = pdu
  have hlen : pdu.length = sdu.length + 1 := by rw [← hpdu, List.length_cons]
  have hpayload : (if false then 1 else 5) ≤ pdu.length := by
    rw [if_neg Bool.false_ne_true]
    omega
  -- the buffer of an advertisement has room for the MIC of a PDU that is not segmented
  have hspace : (if false then 8 else 4) ≤ btMeshAdvDataSize - btMeshNetHdrLen - pdu.length := by
    rw [if_neg Bool.false_ne_true, hlen]
    unfold btMeshAdvDataSize btMeshNetHdrLen
    omega
  have hseq : { m with seq := (m.seq + lpns) % 2 ^ 24 } = m := by
    rw [hlpns, Nat.add_zero, Nat.mod_eq_of_lt hfits.seq]
  obtain ⟨data, hdata, hdecode⟩ :=
    encoded_decodes hcrypto htried hbefore hfits hivi hunicast haddr hpayload hspace hseen
  refine ⟨data, ?_, fun hdup => ?_⟩
  · rw [decide_eq_false hif] at hdata
    unfold sendAccess unsegPdu
    rw [hsend]
    dsimp only
    rw [if_neg Bool.false_ne_true, if_neg fun h => absurd hlpns h.1.ne', hpdu, hseq]
    exact hdata
  · have hok := hdecode hdup
    generalize hr : btMeshNetDecode net netIf s.1 data = r at hok
    obtain ⟨res, c⟩ := r
    cases hok
    have hdrop := drop_netHeader keys.nid m ⟨tx.src, tx.dst, tx.sendTtl, false⟩ pdu
    obtain ⟨hret, seqAuth, hlast⟩ :=
      transRecv_unseg cfg sdu env.now (unsegHdr_lt (tx.appIdx = btMeshKeyDev) appKey.id) hlocal hreplay
    have hmsgRecv : sduRecv node stack' netIdx newKey
        (net.ivIndex - (if decide (m.iviTx ≠ net.ivIndex) then 1 else 0))
        (netRxOf node env (received net m ⟨tx.src, tx.dst, tx.sendTtl, false⟩ netIdx newKey))
        (unsegHdr (tx.appIdx = btMeshKeyDev) appKey.id) false sdu = some (appIdx, msg) := by
      rw [ivi_of_received hivi]
      exact sduRecv_of_shared hshare hlocal hpos hsdu
    rw [hpdu] at hret hlast
    rw [← hdrop] at hret hlast
    have hcalls := netRecv_of_handed hr hready hret hlast rfl hmsgRecv
    refine hcalls.trans ?_
    unfold btMeshModelRecv
    rw [← hmsg, getOpcode_msgInit hop]
    rfl

/-- An application key. -/
def lightKey : AppKey where
  netIdx := 0
  appIdx := 0
  updated := false
  keys :=
    (⟨0x26, [0x63, 0x96, 0x47, 0x71, 0x73, 0x4f, 0xbd, 0x76, 0xe3, 0xb4, 0x05, 0x19, 0xd1, 0xd9, 0x4a, 0x48]⟩, ⟨0, []⟩)

/-- A light: one model that is bound to the key and can be switched. -/
def lightNode : AccessNode where
  devKey := List.replicate 16 0
  appKeys := [lightKey]
  labels := []
  elems := [⟨0x1202, 0, [⟨[0], [0xc000], [⟨0x8202, 2, 7⟩]⟩], []⟩]
  friend := false
  relay := false
  friendConfig := false

/-- A switch. -/
def switchNode : AccessNode := { lightNode with elems := [⟨0x1201, 0, [], []⟩] }

/-- It sends to the group. -/
def switchTx : AccessTx := ⟨0x1201, 0xc000, 3, 0, .normal, false⟩

/-- Nothing but the PDU. -/
def quietEnv : RecvEnv := ⟨false, fun _ _ => false, 0⟩

/-- A node that has just started. -/
def freshRx : NetCaches × TransRx := (netCachesInit 4, rxInit 0x12345678 2 1)

/-- What both nodes have. -/
theorem switch_conditions : TxFits ⟨switchTx.src, switchTx.dst, switchTx.sendTtl, false⟩ netKeys.nid netSender.seq ∧
    SharesKey lightNode 0 false switchTx lightKey.keys.1 0 ∧
    switchNode.txKey switchTx.krPhase switchTx.appIdx = some lightKey.keys.1 ∧
    (∀ netIf : NetIf, Addressed netNode netIf switchTx.src switchTx.dst) ∧
    (btMeshFixedGroupMatch lightNode switchTx.dst || btMeshElemFind lightNode.elems switchTx.dst) = true ∧
    (isReplay { freshRx.2 with ivIndex := netNode.ivIndex } (netRxOf lightNode quietEnv (received netNode netSender
      ⟨switchTx.src, switchTx.dst, switchTx.sendTtl, false⟩ 0 false))).1 = false := by
  have hshare : SharesKey lightNode 0 false switchTx lightKey.keys.1 lightKey.appIdx :=
    .app (by decide) [] [] lightKey rfl rfl rfl (by decide) (List.forall_mem_nil _)
  exact ⟨⟨by decide, by decide, by decide, by decide, by decide⟩, hshare, by decide,
    fun _ => ⟨fun _ => by decide, by decide, fun _ => by decide⟩, by decide, by decide⟩

/-- The call of the light's handler is authentic. -/
theorem handler_call_authentic_switch : ∃ data call o,
    call ∈ (btMeshNetRecv ⟨24, false⟩ netNode lightNode [] .proxy quietEnv data freshRx).1 ∧
      Authentic ⟨24, false⟩ netNode lightNode .proxy quietEnv data freshRx.2 call o := by
  obtain ⟨hfits, hshare, hkey, haddr, hlocal, hreplay⟩ := switch_conditions
  have htried : netNode.tried = [] ++ (0, false, netKeys) :: [] := rfl
  have hcrypto : netNode.crypto = sdkNetCrypto [] := rfl
  obtain ⟨data, -, hcalls⟩ := message_arrives [] hcrypto htried (List.forall_mem_nil _) hfits
    (Or.inl (by decide)) (by decide) (haddr .proxy) (by decide) (fun h => by cases h) hkey hshare rfl
    (by decide : OpcodeOk 0x8202) rfl (by decide : (btMeshModelMsgInit 0x8202 ++ [1, 5]).length ≤ 11)
    (by decide : 4 ≤ 8) rfl rfl hlocal hreplay
  have hcall : (⟨0, 0, 7, 0x1201, 0, 0x8202, [1, 5]⟩ : ModelCall) ∈
      (btMeshNetRecv ⟨24, false⟩ netNode lightNode [] .proxy quietEnv data freshRx).1 := by
    rw [hcalls fun h => by cases h]
    decide
  obtain ⟨o, ho⟩ := handler_call_authentic hcrypto hcall
  exact ⟨data, _, o, hcall, ho⟩

end Arrival

end GenieSdk.Analysis.Access
