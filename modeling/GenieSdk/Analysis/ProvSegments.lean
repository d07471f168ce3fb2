import GenieSdk.Model.ProvAdv

/-!
# Provisioning PDUs in segments

What the receiver of a provisioning PDU makes of its advertisements, whichever of them comes when: `Waits` holds of a
node that has not taken the PDU in, `Done` of one that has. A PDU whose length is 20 and a multiple of 23 is
announced with one segment more than is sent (`isSeg_lastSeg`).
-/

set_option autoImplicit false

namespace GenieSdk.Analysis.Prov

open GenieSdk.Lib
open GenieSdk.Model

/-! ## The frame check sequence -/

/-- The byte that is sent and the register are complements. -/
theorem xor_complement (x : UInt8) : x ^^^ (0xff - x) = 0xff :=
  forall_byte (p := fun x => x ^^^ (0xff - x) = 0xff) (by decide +kernel) x

/-- A message passes the check of its own FCS. -/
theorem fcsCheck_calc {msg : List UInt8} (h : msg.length < 256) : btMeshFcsCheck msg (btMeshFcsCalc msg) = true := by
  have htake : msg.take (msg.length % 256) = msg := by rw [Nat.mod_eq_of_lt h, List.take_length]
  have hlast : crcTable.getD (0xff : UInt8).toNat 0 = 0xcf := by decide
  unfold btMeshFcsCheck btMeshFcsCalc
  rw [htake]
  generalize msg.foldl fcsStep 0xff = x
  unfold fcsStep
  rw [xor_complement, hlast]
  rfl

/-! ## Segments -/

section Segments

/-- The segment that has byte `j`. -/
def segOf (j : ℕ) : ℕ := if j < 20 then 0 else 1 + (j - 20) / 23

/-- Where a segment begins. -/
def segPos (i : ℕ) : ℕ := if i = 0 then 0 else 20 + (i - 1) * 23

/-- The bytes of a segment. -/
def segBody (m : List UInt8) (i : ℕ) : List UInt8 := (m.drop (segPos i)).take (if i = 0 then 20 else 23)

/-- A PDU of this length has the segment. -/
def IsSeg (len i : ℕ) : Prop := i = 0 ∨ 20 + (i - 1) * 23 < len

instance (len i : ℕ) : Decidable (IsSeg len i) := inferInstanceAs (Decidable (_ ∨ _))

variable {m : List UInt8} {i j len : ℕ}

/-- The number of the last segment. -/
theorem lastSeg_eq (h : len < 256) : lastSeg len = if len ≤ 20 then 0 else 1 + (len - 20) / 23 := by
  unfold lastSeg startPayloadMax contPayloadMax
  rw [Nat.mod_eq_of_lt h]

/-- No segment is sent that is not announced. -/
theorem IsSeg.le_lastSeg (h : IsSeg len i) (hlen : len < 256) : i ≤ lastSeg len := by
  rw [lastSeg_eq hlen]
  unfold IsSeg at h
  split
  · omega
  · omega

/-- **When the last segment that is announced is sent.** -/
theorem isSeg_lastSeg (hlen : len < 256) : IsSeg len (lastSeg len) ↔ len ≤ 20 ∨ (len - 20) % 23 ≠ 0 := by
  unfold IsSeg
  rw [lastSeg_eq hlen]
  split
  · omega
  · omega

/-- All but the last segment that is announced are sent. -/
theorem isSeg_of_lt (hlen : len < 256) (h : i < lastSeg len) : IsSeg len i := by
  unfold IsSeg
  rw [lastSeg_eq hlen] at h
  split at h
  · omega
  · omega

/-- Each byte is in a segment. -/
theorem isSeg_segOf (h : j < len) : IsSeg len (segOf j) := by
  unfold IsSeg segOf
  split
  · omega
  · omega

/-- The first segment has 20 bytes, the others 23, the last one the rest. -/
theorem length_segBody (m : List UInt8) (i : ℕ) :
    (segBody m i).length = min (if i = 0 then 20 else 23) (m.length - segPos i) := by
  unfold segBody
  rw [List.length_take, List.length_drop]

/-- A byte is in its segment. -/
theorem segOf_eq (hj : j < m.length) :
    segOf j = i ↔ segPos i ≤ j ∧ j < segPos i + (segBody m i).length := by
  rw [length_segBody]
  unfold segOf segPos
  split
  · split
    · omega
    · omega
  · split
    · omega
    · omega

/-- A byte of a segment is the one of the message. -/
theorem getD_segBody (h : segPos i ≤ j) (hj : j < segPos i + (segBody m i).length) :
    (segBody m i).getD (j - segPos i) 0 = m.getD j 0 := by
  rw [length_segBody] at hj
  unfold segBody
  rw [List.getD_eq_getElem?_getD, List.getD_eq_getElem?_getD, List.getElem?_take_of_lt (by omega),
    List.getElem?_drop, Nat.add_sub_cancel' h]

/-- What a segment writes. -/
theorem writeBytes_segBody (data : Mem) (hj : j < m.length) :
    writeBytes data (segPos i) (segBody m i) j = if segOf j = i then m.getD j 0 else data j := by
  by_cases h : segOf j = i
  · obtain ⟨hlow, hhigh⟩ := (segOf_eq hj).1 h
    rw [if_pos h, writeBytes_inside _ _ _ _ hlow hhigh, getD_segBody hlow hhigh]
  · rw [if_neg h, writeBytes_outside]
    by_contra hout
    apply h
    apply (segOf_eq hj).2
    omega

/-- The expected length of the last segment. -/
theorem length_last (hlen : m.length < 256) (hlast : i = lastSeg m.length) (hpos : i ≠ 0) :
    ((m.length : ℤ) - 20 - 23 * ((i : ℤ) - 1)) % 256 = (segBody m i).length := by
  rw [length_segBody]
  rw [lastSeg_eq hlen] at hlast
  unfold segPos
  rw [if_neg hpos, if_neg hpos]
  split at hlast
  · omega
  · omega

end Segments

/-! ## Advertisements -/

section Frames

variable {linkId : ℕ} {x gpc : UInt8} {body m : List UInt8} {i : ℕ}

/-- The advertisement with a segment. -/
def segFrame (linkId : ℕ) (x : UInt8) (m : List UInt8) (i : ℕ) : List UInt8 :=
  if i = 0 then provFrame linkId x (gpcStart (lastSeg m.length)) (startBody m)
  else provFrame linkId x (gpcCont i) (segBody m i)

/-- The advertisements after the first one. -/
theorem contFrames_get {slots segId bufs : ℕ} {msg : List UInt8} {frames : List (List UInt8)}
    (h : contFrames linkId x slots segId bufs msg = .ok frames) (i : ℕ) :
    frames[i]? = if 23 * i < msg.length then
      some (provFrame linkId x (gpcCont (segId + i)) ((msg.drop (23 * i)).take 23)) else none := by
  induction slots generalizing segId bufs msg frames i with
  | zero =>
    cases msg with
    | nil =>
      cases h
      rfl
    | cons b msg => cases h
  | succ slots ih =>
    cases msg with
    | nil =>
      cases h
      rfl
    | cons b msg =>
      cases bufs with
      | zero => cases h
      | succ bufs =>
        unfold contFrames at h
        cases hrest : contFrames linkId x slots (segId + 1) bufs ((b :: msg).drop contPayloadMax) with
        | error e =>
          rw [hrest] at h
          cases h
        | ok rest =>
          rw [hrest] at h
          cases h
          cases i with
          | zero => rfl
          | succ i =>
            have htail := ih hrest i
            unfold contPayloadMax at htail
            rw [List.getElem?_cons_succ, htail, List.length_drop, List.drop_drop,
              show segId + 1 + i = segId + (i + 1) by omega, show 23 + 23 * i = 23 * (i + 1) by omega]
            congr 1
            rw [eq_iff_iff]
            omega

/-- **What is put on the air.** -/
theorem provSendAdv_ok {s s' : ProvLink} {bufs : ℕ} (h : provSendAdv s bufs m = (none, s')) :
    s' = { s with txId := nextTransactionId s.txId, txBuf := s'.txBuf } ∧
      ∀ i, s'.txBuf[i]? = if IsSeg m.length i then some (segFrame s.id (nextTransactionId s.txId) m i) else none := by
  unfold provSendAdv at h
  cases bufs with
  | zero => cases h
  | succ bufs =>
    dsimp only [ProvLink.clearTx] at h
    cases hcont : contFrames s.id (nextTransactionId s.txId) 2 1 bufs (m.drop startPayloadMax) with
    | error e =>
      rw [hcont] at h
      cases h
    | ok frames =>
      rw [hcont] at h
      cases h
      refine ⟨rfl, ?_⟩
      intro i
      cases i with
      | zero => rfl
      | succ i =>
        have hget := contFrames_get hcont i
        unfold startPayloadMax at hget
        rw [List.getElem?_cons_succ, hget, List.length_drop, List.drop_drop]
        unfold IsSeg segFrame segBody segPos
        rw [if_neg (Nat.succ_ne_zero i), if_neg (Nat.succ_ne_zero i), if_neg (Nat.succ_ne_zero i),
          show 1 + i = i + 1 by omega, show 20 + 23 * i = 20 + (i + 1 - 1) * 23 by omega]
        congr 1
        rw [eq_iff_iff]
        omega

end Frames

/-! ## Receiving -/

section Receive

variable {c : ProvConf} {s s' : ProvLink} {bufs : ProvBufs} {x : UInt8} {m : List UInt8} {i j k : ℕ}

/-- The control byte of a first segment. -/
theorem toNat_gpcStart (h : k < 64) : (gpcStart k).toNat = k * 4 := UInt8.toNat_ofNat_of_lt' (by change _ < 256; omega)

/-- The control byte of another one. -/
theorem toNat_gpcCont (h : k < 63) : (gpcCont k).toNat = k * 4 + 2 :=
  UInt8.toNat_ofNat_of_lt' (by change _ < 256; omega)

/-- The fields of an advertisement. -/
theorem provFrame_fields {linkId : ℕ} (x gpc : UInt8) (body : List UInt8) (hid : linkId < 2 ^ 32) :
    (provFrame linkId x gpc body).length = 6 + body.length ∧
      beVal ((provFrame linkId x gpc body).take 4) = linkId ∧ (provFrame linkId x gpc body).getD 4 0 = x ∧
      (provFrame linkId x gpc body).getD 5 0 = gpc ∧ (provFrame linkId x gpc body).drop 6 = body := by
  have hlen := length_beBytes 4 linkId
  have hval : beVal (beBytes 4 linkId) = linkId := by
    unfold beVal beBytes
    rw [List.reverse_reverse]
    exact leVal_leBytes (hid.trans_eq (by norm_num))
  unfold provFrame
  generalize beBytes 4 linkId = bs at hlen hval ⊢
  match bs, hlen with
  | [b0, b1, b2, b3], _ =>
    refine ⟨?_, hval, rfl, rfl, rfl⟩
    simp
    omega

/-- An advertisement of the link gets to its function. -/
theorem recv_frame {gpc : UInt8} {body : List UInt8} (hactive : s.linkActive) (hid : s.id < 2 ^ 32) :
    (gpc.toNat % 4 = 0 → 3 ≤ body.length →
        btMeshPbAdvRecv c s bufs (provFrame s.id x gpc body) = genProvStart c.size s bufs x gpc body) ∧
      (gpc.toNat % 4 = 1 → btMeshPbAdvRecv c s bufs (provFrame s.id x gpc body) = genProvAck s x) ∧
      (gpc.toNat % 4 = 2 →
        btMeshPbAdvRecv c s bufs (provFrame s.id x gpc body) = genProvCont s bufs x gpc body) ∧
      (gpc.toNat % 4 = 3 →
        btMeshPbAdvRecv c s bufs (provFrame s.id x gpc body) = genProvCtl c.uuid s bufs s.id gpc body) := by
  obtain ⟨hlen, hval, hx, hgpc, hbody⟩ := provFrame_fields x gpc body hid
  unfold btMeshPbAdvRecv
  rw [hlen, hval, hx, hgpc, hbody, if_neg (by omega)]
  dsimp only
  rw [if_neg (fun h => h.2 rfl)]
  refine ⟨?_, ?_, ?_, ?_⟩
  · intro h hbody
    rw [h]
    simp only [hactive, not_true, or_false]
    rw [if_neg (by omega)]
  · intro h
    rw [h]
    simp only [hactive, not_true, if_false]
  · intro h
    rw [h]
    simp only [hactive, not_true, if_false]
  · intro h
    rw [h]
    rfl

/-- An advertisement of another link is dropped. -/
theorem recv_foreign {frame : List UInt8} (hactive : s.linkActive) (h : beVal (frame.take 4) ≠ s.id) :
    btMeshPbAdvRecv c s bufs frame = s := by
  unfold btMeshPbAdvRecv
  split
  · rfl
  · dsimp only
    rw [if_pos ⟨hactive, Ne.symm h⟩]

/-! ## What becomes of a PDU -/

/-- What a node sends is left alone. -/
structure KeepsTx (s s' : ProvLink) : Prop where
  linkActive : s'.linkActive = s.linkActive
  id : s'.id = s.id
  txId : s'.txId = s.txId
  txBuf : s'.txBuf = s.txBuf
  sent : s'.sent = s.sent

/-- At most an acknowledgement is added. -/
def Acked (s s' : ProvLink) (x : UInt8) : Prop :=
  s'.acks = s.acks ∨ ∃ cb, s'.acks = s.acks ++ [(provFrame s.id x gpcAck [], cb)]

/-- The PDU was taken in, and no other one is collected. -/
structure Done (rx : ProvRx) (x : UInt8) : Prop where
  seg : rx.seg = 0
  id : rx.id = 0
  prevId : rx.prevId = x

/-- Some segments of the PDU are there. -/
structure Gathers (rx : ProvRx) (x : UInt8) (m : List UInt8) : Prop where
  id : rx.id = x
  prevId : rx.prevId ≠ x
  len : rx.len = m.length
  fcs : rx.fcs = btMeshFcsCalc m
  lastSeg : rx.lastSeg = Model.lastSeg m.length
  high : ∀ i, Model.lastSeg m.length < i → rx.seg.getLsbD i = false
  absent : ∀ i, i ≤ Model.lastSeg m.length → ¬ IsSeg m.length i → rx.seg.getLsbD i = true
  data : ∀ j < m.length, rx.seg.getLsbD (segOf j) = false → rx.data j = m.getD j 0

/-- The first segment is there, and some others are not. -/
structure Collects (rx : ProvRx) (x : UInt8) (m : List UInt8) : Prop extends Gathers rx x m where
  missing : rx.seg ≠ 0
  first : rx.seg.getLsbD 0 = false

/-- Nothing of the PDU is there. -/
structure Fresh (rx : ProvRx) (x : UInt8) : Prop where
  seg : rx.seg = 0
  id : rx.id = 0
  prevId : rx.prevId ≠ x

/-- The PDU was not taken in. -/
def Waits (rx : ProvRx) (x : UInt8) (m : List UInt8) : Prop := Fresh rx x ∨ Collects rx x m

/-- An acknowledgement is queued, or fails. -/
theorem ackSend_spec (s : ProvLink) (buf : Bool) (x : UInt8) :
    ∃ pending acks, genProvAckSend s buf x = { s with pendingAck := pending, acks := acks } ∧
      (acks = s.acks ∨ ∃ cb, acks = s.acks ++ [(provFrame s.id x gpcAck [], cb)]) := by
  unfold genProvAckSend
  split
  · exact ⟨_, _, rfl, Or.inl rfl⟩
  · split
    · exact ⟨_, _, rfl, Or.inl rfl⟩
    · split
      · exact ⟨_, _, rfl, Or.inr ⟨true, rfl⟩⟩
      · exact ⟨_, _, rfl, Or.inr ⟨false, rfl⟩⟩

/-- The PDU is taken in and perhaps acknowledged. -/
structure HandsOver (s s' : ProvLink) (x : UInt8) (m : List UInt8) : Prop where
  keepsTx : KeepsTx s s'
  done : Done s'.rx x
  accepted : s'.accepted = s.accepted ++ [m]
  acks : Acked s s' x
  complete : IsSeg m.length (lastSeg m.length)

/-- All segments are there. -/
theorem Gathers.handsOver (bufs : ProvBufs) (h : Gathers s.rx x m) (hlen : m.length < 256) (hseg : s.rx.seg = 0) :
    HandsOver s (provMsgRecv s bufs) x m := by
  have hmsg : readBytes s.rx.data 0 s.rx.len = m := by
    rw [h.len]
    apply readBytes_eq_of_getD 0
    intro j hj
    rw [Nat.zero_add]
    apply h.data j hj
    rw [hseg]
    exact BitVec.getLsbD_zero
  obtain ⟨pending, acks, hack, hacks⟩ := ackSend_spec s bufs.ack s.rx.id
  unfold provMsgRecv
  dsimp only
  rw [hmsg, h.fcs, fcsCheck_calc hlen, hack]
  refine ⟨⟨rfl, rfl, rfl, rfl, rfl⟩, ⟨hseg, rfl, h.id⟩, rfl, ?_, ?_⟩
  · rw [h.id] at hacks
    exact hacks
  · by_contra habsent
    have hbit := h.absent _ (le_refl _) habsent
    rw [hseg] at hbit
    cases BitVec.getLsbD_zero.symm.trans hbit

/-- The bit of a segment is cleared. -/
theorem getLsbD_xactSegRecv (seg : BitVec 8) (i j : ℕ) :
    (xactSegRecv seg i).getLsbD j = (seg.getLsbD j && decide (j ≠ i)) := by
  unfold xactSegRecv
  by_cases hj : j < 8
  · simp [hj, eq_comm]
  · have hseg : seg.getLsbD j = false := BitVec.getLsbD_of_ge _ _ (by omega)
    simp [hseg]

/-- **a segment that is taken.** -/
theorem Gathers.take (bufs : ProvBufs) (h : Gathers s.rx x m) (hlen : m.length < 256) (hseg : IsSeg m.length i)
    (hfirst : i ≠ 0 → s.rx.seg.getLsbD 0 = false) :
    (KeepsTx s (provSegTake s bufs i (segPos i) (segBody m i)) ∧
        Collects (provSegTake s bufs i (segPos i) (segBody m i)).rx x m ∧
        (provSegTake s bufs i (segPos i) (segBody m i)).rx.seg = xactSegRecv s.rx.seg i ∧
        (provSegTake s bufs i (segPos i) (segBody m i)).accepted = s.accepted ∧
        (provSegTake s bufs i (segPos i) (segBody m i)).acks = s.acks) ∨
      HandsOver s (provSegTake s bufs i (segPos i) (segBody m i)) x m := by
  have hbit := getLsbD_xactSegRecv s.rx.seg i
  have hnext : Gathers
      { s.rx with data := writeBytes s.rx.data (segPos i) (segBody m i), seg := xactSegRecv s.rx.seg i } x m := by
    refine ⟨h.id, h.prevId, h.len, h.fcs, h.lastSeg, ?_, ?_, ?_⟩
    · intro k hk
      change (xactSegRecv s.rx.seg i).getLsbD k = false
      rw [hbit, h.high k hk, Bool.false_and]
    · intro k hk habsent
      have hne : k ≠ i := fun heq => habsent (heq ▸ hseg)
      change (xactSegRecv s.rx.seg i).getLsbD k = true
      rw [hbit, h.absent k hk habsent, decide_eq_true hne]
      rfl
    · intro j hj hclear
      change (xactSegRecv s.rx.seg i).getLsbD (segOf j) = false at hclear
      change writeBytes s.rx.data (segPos i) (segBody m i) j = _
      rw [writeBytes_segBody _ hj]
      split
      · rfl
      · rename_i hne
        apply h.data j hj
        rw [hbit, decide_eq_true hne, Bool.and_true] at hclear
        exact hclear
  unfold provSegTake
  dsimp only
  split
  · right
    rename_i hzero
    have hover := Gathers.handsOver (s := { s with
      rx := { s.rx with data := writeBytes s.rx.data (segPos i) (segBody m i), seg := xactSegRecv s.rx.seg i } })
      bufs hnext hlen hzero
    exact ⟨⟨hover.keepsTx.linkActive, hover.keepsTx.id, hover.keepsTx.txId, hover.keepsTx.txBuf,
      hover.keepsTx.sent⟩, hover.done, hover.accepted, hover.acks, hover.complete⟩
  · left
    rename_i hmissing
    refine ⟨⟨rfl, rfl, rfl, rfl, rfl⟩, ⟨hnext, hmissing, ?_⟩, rfl, rfl, rfl⟩
    change (xactSegRecv s.rx.seg i).getLsbD 0 = false
    rw [hbit]
    by_cases hzero : i = 0
    · rw [decide_eq_false (fun hne => hne hzero.symm), Bool.and_false]
    · rw [hfirst hzero, Bool.false_and]

/-! ## The advertisements of a transaction -/

/-- The number of a segment of a PDU that is not too long. -/
theorem IsSeg.lt (h : IsSeg m.length i) (hlen : m.length ≤ 65) : i < 3 := by
  unfold IsSeg at h
  omega

/-- A message has at most three segments. -/
theorem lastSeg_lt (hlen : m.length ≤ 65) : lastSeg m.length < 3 := by
  rw [lastSeg_eq (by omega)]
  split
  · omega
  · omega

/-- An advertisement of the transaction is looked at as what it is. -/
theorem recv_segFrame (hactive : s.linkActive) (hid : s.id < 2 ^ 32) (hlen : m.length ≤ 65)
    (hi : IsSeg m.length i) :
    btMeshPbAdvRecv c s bufs (segFrame s.id x m i) =
      if i = 0 then genProvStart c.size s bufs x (gpcStart (lastSeg m.length)) (startBody m)
      else genProvCont s bufs x (gpcCont i) (segBody m i) := by
  have hlt := hi.lt hlen
  unfold segFrame
  split
  · apply (recv_frame hactive hid).1
    · rw [toNat_gpcStart (by have := lastSeg_lt hlen; omega)]
      omega
    · unfold startBody
      rw [List.length_append, List.length_append, length_beBytes]
      simp
  · apply (recv_frame hactive hid).2.2.1
    rw [toNat_gpcCont (by omega)]
    omega

/-- **after the PDU was taken in** it is acknowledged again. -/
theorem Done.recv (c : ProvConf) (bufs : ProvBufs) (h : Done s.rx x) (hactive : s.linkActive)
    (hid : s.id < 2 ^ 32) (hlen : m.length ≤ 65) (hi : IsSeg m.length i) :
    ∃ pending acks, btMeshPbAdvRecv c s bufs (segFrame s.id x m i) = { s with pendingAck := pending, acks := acks } ∧
      (acks = s.acks ∨ ∃ cb, acks = s.acks ++ [(provFrame s.id x gpcAck [], cb)]) := by
  have hack := ackSend_spec s bufs.ack x
  rw [recv_segFrame hactive hid hlen hi]
  split
  · unfold genProvStart
    rw [if_neg (not_not.2 h.seg), if_pos h.prevId]
    exact hack
  · unfold genProvCont
    dsimp only
    rw [if_pos ⟨h.seg, h.prevId⟩]
    exact hack

/-- **the first segment** opens the transaction. -/
theorem Fresh.start (c : ProvConf) (bufs : ProvBufs) (h : Fresh s.rx x) (hactive : s.linkActive)
    (hid : s.id < 2 ^ 32) (hpos : 1 ≤ m.length) (hlen : m.length ≤ 65) (hsize : 65 ≤ c.size) :
    ∃ rx, Gathers rx x m ∧ btMeshPbAdvRecv c s bufs (segFrame s.id x m 0) =
      provSegTake { s with rx := rx } bufs 0 (segPos 0) (segBody m 0) := by
  have hlast := lastSeg_lt hlen
  have hval : beVal ((startBody m).take 2) = m.length := by
    unfold startBody
    rw [List.append_assoc, List.take_left' (length_beBytes 2 _)]
    unfold beVal beBytes
    rw [List.reverse_reverse]
    exact leVal_leBytes (by omega)
  have hrest : (startBody m).drop 3 = segBody m 0 := by
    unfold startBody segBody segPos
    rw [List.drop_left' (by rw [List.length_append, length_beBytes]; rfl)]
    rfl
  have hfcs : (startBody m).getD 2 0 = btMeshFcsCalc m := by
    unfold startBody
    rw [List.append_assoc, List.getD_append_right _ _ _ _ (by rw [length_beBytes]), length_beBytes]
    rfl
  have hgpc : (gpcStart (lastSeg m.length)).toNat / 4 = lastSeg m.length := by
    rw [toNat_gpcStart (by omega)]
    omega
  refine ⟨{ s.rx with
      len := m.length, id := x, fcs := btMeshFcsCalc m
      seg := BitVec.ofNat 8 (2 ^ (lastSeg m.length + 1) - 1), lastSeg := lastSeg m.length }, ?_, ?_⟩
  · have hbit : ∀ k, (BitVec.ofNat 8 (2 ^ (lastSeg m.length + 1) - 1)).getLsbD k =
        decide (k ≤ lastSeg m.length) := by
      intro k
      rw [BitVec.getLsbD_ofNat, Nat.testBit_two_pow_sub_one, ← Bool.decide_and, decide_eq_decide]
      omega
    refine ⟨rfl, h.prevId, rfl, rfl, rfl, ?_, ?_, ?_⟩
    · intro k hk
      change (BitVec.ofNat 8 (2 ^ (lastSeg m.length + 1) - 1)).getLsbD k = false
      rw [hbit]
      exact decide_eq_false (by omega)
    · intro k hk _
      change (BitVec.ofNat 8 (2 ^ (lastSeg m.length + 1) - 1)).getLsbD k = true
      rw [hbit]
      exact decide_eq_true hk
    · intro j hj hclear
      change (BitVec.ofNat 8 (2 ^ (lastSeg m.length + 1) - 1)).getLsbD (segOf j) = false at hclear
      have hin := (isSeg_segOf hj).le_lastSeg (by omega)
      rw [hbit, decide_eq_true hin] at hclear
      cases hclear
  · have hshort : ¬ (0 < lastSeg m.length ∧ m.length ≤ 20) := by
      rw [lastSeg_eq (by omega)]
      split
      · omega
      · omega
    rw [recv_segFrame hactive hid hlen (Or.inl rfl), if_pos rfl]
    unfold genProvStart
    rw [if_neg (not_not.2 h.seg), if_neg h.prevId]
    dsimp only
    rw [hval, hrest, hfcs, hgpc, if_neg (by omega), if_neg (by omega), if_neg hshort]
    rfl

/-- **a segment of an open transaction** is taken, unless it is there. -/
theorem Collects.recv (c : ProvConf) (bufs : ProvBufs) (h : Collects s.rx x m) (hactive : s.linkActive)
    (hid : s.id < 2 ^ 32) (hlen : m.length ≤ 65) (hi : IsSeg m.length i) :
    btMeshPbAdvRecv c s bufs (segFrame s.id x m i) =
      if s.rx.seg.getLsbD i then provSegTake s bufs i (segPos i) (segBody m i) else s := by
  have hlt := hi.lt hlen
  rw [recv_segFrame hactive hid hlen hi]
  by_cases hzero : i = 0
  · subst hzero
    rw [if_pos rfl, h.first]
    unfold genProvStart
    rw [if_pos h.missing]
    rfl
  · have hgpc : (gpcCont i).toNat / 4 = i := by
      rw [toNat_gpcCont (by omega)]
      omega
    have hpos : startPayloadMax + (i - 1) * contPayloadMax = segPos i := by
      unfold startPayloadMax contPayloadMax segPos
      rw [if_neg hzero]
    rw [if_neg hzero]
    unfold genProvCont
    dsimp only
    rw [hgpc, hpos, if_neg (fun hdone => h.missing hdone.1), if_neg (not_not.2 h.id.symm), h.lastSeg,
      if_neg (not_lt.2 (hi.le_lastSeg (by omega))), if_neg, ite_not]
    rintro ⟨hlast, hbad⟩
    apply hbad
    rw [h.len, ← hlast]
    exact length_last (by omega) hlast hzero

/-- A later segment without the first one is dropped. -/
theorem Fresh.cont (c : ProvConf) (bufs : ProvBufs) (h : Fresh s.rx x) (hactive : s.linkActive)
    (hid : s.id < 2 ^ 32) (hlen : m.length ≤ 65) (hi : IsSeg m.length i) (hx : x ≠ 0) (hpos : i ≠ 0) :
    btMeshPbAdvRecv c s bufs (segFrame s.id x m i) = s := by
  rw [recv_segFrame hactive hid hlen hi, if_neg hpos]
  unfold genProvCont
  dsimp only
  rw [if_neg (fun hdone => h.prevId hdone.2), if_pos (by rw [h.id]; exact hx)]

end Receive

end GenieSdk.Analysis.Prov
