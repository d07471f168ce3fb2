import GenieSdk.Analysis.ProvSegments
import GenieSdk.Lib.Runs

/-!
# Reliable provisioning links

Two nodes share a link on which advertisements get lost, come twice and come in any order, and acknowledgements get
lost. If each of them passes a PDU on only when its last one is acknowledged, **no PDU is lost, changed or taken in
twice** (`prov_link_reliable`). A PDU arrives once its segments were received after the first one, unless it is one
that is announced with a segment too many (`prov_pdu_arrives_iff`).
-/

set_option autoImplicit false

namespace GenieSdk.Analysis.Prov

open GenieSdk.Lib
open GenieSdk.Model

/-! ## What is under way -/

/-- The acknowledgements that wait: some for the PDU before the last one, then some for the last one. -/
def AckQueue (linkId : ℕ) (old cur : UInt8) (k n : ℕ) (acks : List (List UInt8 × Bool)) : Prop :=
  acks.map Prod.fst =
    List.replicate k (provFrame linkId old gpcAck []) ++ List.replicate n (provFrame linkId cur gpcAck [])

/-- The advertisements of a PDU. -/
def OnAir (linkId : ℕ) (x : UInt8) (m : List UInt8) (txBuf : List (List UInt8)) : Prop :=
  ∀ i, txBuf[i]? = if IsSeg m.length i then some (segFrame linkId x m i) else none

/-- How far the last PDU of a direction is: none was sent yet, it was not taken in, or it was. -/
inductive Phase (linkId : ℕ) (sent : List (List UInt8)) (x : UInt8) (txBuf : List (List UInt8)) (rx : ProvRx)
    (accepted : List (List UInt8)) (acks : List (List UInt8 × Bool)) : Prop
  | opened (hsent : sent = []) (haccepted : accepted = []) (hx : x = 0) (hrx : Done rx xactNval)
      (hbuf : txBuf = [provFrame linkId 0 (gpcCtl linkAck) []]) (hacks : acks = [])
  | waits (m : List UInt8) (old : UInt8) (k : ℕ) (hsent : sent = accepted ++ [m]) (hpos : 1 ≤ m.length)
      (hlen : m.length ≤ 65) (hx : x ≠ 0) (hbuf : OnAir linkId x m txBuf) (hrx : Waits rx x m) (hold : old ≠ x)
      (hacks : AckQueue linkId old x k 0 acks)
  | done (m : List UInt8) (old : UInt8) (k n : ℕ) (hsent : sent = accepted) (hnonempty : sent ≠ [])
      (hlen : m.length ≤ 65) (hx : x ≠ 0) (hbuf : txBuf = [] ∧ k = 0 ∨ OnAir linkId x m txBuf) (hrx : Done rx x)
      (hold : old ≠ x) (hacks : AckQueue linkId old x k n acks)

/-- `p` sends and `q` receives. -/
structure Carries (p q : ProvLink) : Prop where
  active : p.linkActive ∧ q.linkActive
  id : q.id = p.id
  idLt : p.id < 2 ^ 32
  phase : Phase p.id p.sent p.txId p.txBuf q.rx q.accepted q.acks

/-- What a node receives is left alone. -/
structure KeepsRx (s s' : ProvLink) : Prop where
  linkActive : s'.linkActive = s.linkActive
  id : s'.id = s.id
  rx : s'.rx = s.rx
  accepted : s'.accepted = s.accepted
  acks : s'.acks = s.acks

section Directions

variable {c : ProvConf} {p p' q q' : ProvLink} {bufs : ProvBufs} {msg : List UInt8}

/-- Nothing is done to the sending side. -/
theorem KeepsTx.refl (s : ProvLink) : KeepsTx s s := ⟨rfl, rfl, rfl, rfl, rfl⟩

/-- Nor to the receiving side. -/
theorem KeepsRx.refl (s : ProvLink) : KeepsRx s s := ⟨rfl, rfl, rfl, rfl, rfl⟩

/-- A direction does not depend on the other one. -/
theorem Carries.congr (h : Carries p q) (hp : KeepsTx p p') (hq : KeepsRx q q') : Carries p' q' where
  active := by
    rw [hp.linkActive, hq.linkActive]
    exact h.active
  id := by rw [hp.id, hq.id, h.id]
  idLt := by
    rw [hp.id]
    exact h.idLt
  phase := by
    rw [hp.id, hp.sent, hp.txId, hp.txBuf, hq.rx, hq.accepted, hq.acks]
    exact h.phase

/-- Transaction numbers of PDUs that follow each other differ. -/
theorem nextTransactionId_ne (x : UInt8) : nextTransactionId x ≠ 0 ∧ nextTransactionId x ≠ x :=
  forall_byte (p := fun x => nextTransactionId x ≠ 0 ∧ nextTransactionId x ≠ x) (by decide +kernel) x

/-- Something of a PDU is always on the air. -/
theorem OnAir.ne_nil {linkId : ℕ} {x : UInt8} {m : List UInt8} {txBuf : List (List UInt8)}
    (h : OnAir linkId x m txBuf) : txBuf ≠ [] := by
  intro hnil
  have hzero : IsSeg m.length 0 := Or.inl rfl
  have hfirst := h 0
  rw [hnil, if_pos hzero] at hfirst
  cases hfirst

/-! ## The steps of a direction -/

/-- **a PDU is passed on** after the last one was acknowledged. -/
theorem Carries.send (h : Carries p q) {n : ℕ} (hsend : provSendAdv p n msg = (none, p'))
    (hpos : 1 ≤ msg.length) (hlen : msg.length ≤ 65) (hfree : p.txBuf = [] ∨ p.sent = []) :
    Carries { p' with sent := p'.sent ++ [msg] } q := by
  obtain ⟨heq, hair⟩ := provSendAdv_ok hsend
  obtain ⟨hzero, hnext⟩ := nextTransactionId_ne p.txId
  have hid : p'.id = p.id := by rw [heq]
  have hactive : p'.linkActive = p.linkActive := by rw [heq]
  have hsent : p'.sent = p.sent := by rw [heq]
  have hx : p'.txId = nextTransactionId p.txId := by rw [heq]
  have hon : OnAir p.id (nextTransactionId p.txId) msg p'.txBuf := hair
  refine ⟨by rw [hactive]; exact h.active, h.id.trans hid.symm, by rw [hid]; exact h.idLt, ?_⟩
  change Phase p'.id (p'.sent ++ [msg]) p'.txId p'.txBuf q.rx q.accepted q.acks
  rw [hid, hsent, hx]
  cases h.phase with
  | opened hnone haccepted htx hrx hbuf hacks =>
    rw [hnone, haccepted, htx]
    rw [htx] at hon
    have hother : xactNval ≠ nextTransactionId 0 := by decide
    refine Phase.waits msg 0 0 rfl hpos hlen (by decide) hon (Or.inl ⟨hrx.seg, hrx.id, ?_⟩) (by decide) ?_
    · rw [hrx.prevId]
      exact hother
    · rw [hacks]
      rfl
  | waits m old k hwait _ _ _ hbuf _ _ _ =>
    obtain hnil | hnone := hfree
    · exact absurd hnil hbuf.ne_nil
    · rw [hnone] at hwait
      exact absurd hwait.symm (List.append_ne_nil_of_right_ne_nil _ (List.cons_ne_nil _ _))
  | done m old k n hall hnonempty _ _ hbuf hrx _ hacks =>
    obtain ⟨hnil, rfl⟩ | hbusy := hbuf
    · refine Phase.waits msg p.txId n (by rw [hall]) hpos hlen hzero hon (Or.inl ⟨hrx.seg, hrx.id, ?_⟩)
        hnext.symm ?_
      · rw [hrx.prevId]
        exact hnext.symm
      · unfold AckQueue at hacks ⊢
        rw [hacks]
        simp
    · obtain hnil | hnone := hfree
      · exact absurd hnil hbusy.ne_nil
      · exact absurd hnone hnonempty

/-- A segment that is on the air. -/
theorem OnAir.get {linkId i : ℕ} {x : UInt8} {m frame : List UInt8} {txBuf : List (List UInt8)}
    (h : OnAir linkId x m txBuf) (hframe : txBuf[i]? = some frame) :
    IsSeg m.length i ∧ frame = segFrame linkId x m i := by
  rw [h i] at hframe
  split at hframe
  · exact ⟨‹_›, (Option.some.inj hframe).symm⟩
  · cases hframe

/-- An acknowledgement is queued behind the others. -/
theorem AckQueue.acked {linkId k n : ℕ} {old cur : UInt8} {acks acks' : List (List UInt8 × Bool)}
    (h : AckQueue linkId old cur k n acks)
    (hacks : acks' = acks ∨ ∃ cb, acks' = acks ++ [(provFrame linkId cur gpcAck [], cb)]) :
    ∃ n', AckQueue linkId old cur k n' acks' := by
  obtain rfl | ⟨cb, rfl⟩ := hacks
  · exact ⟨n, h⟩
  · refine ⟨n + 1, ?_⟩
    unfold AckQueue at h ⊢
    rw [List.map_append, h, List.append_assoc, List.replicate_succ']
    rfl

/-- **an advertisement on a PDU that waits** leaves it waiting or hands it over. -/
theorem Waits.recv {m : List UInt8} {x : UInt8} {i : ℕ} (c : ProvConf) (bufs : ProvBufs) (h : Waits q.rx x m)
    (hactive : q.linkActive)
    (hid : q.id < 2 ^ 32) (hpos : 1 ≤ m.length) (hlen : m.length ≤ 65) (hsize : 65 ≤ c.size) (hx : x ≠ 0)
    (hi : IsSeg m.length i) :
    (KeepsTx q (btMeshPbAdvRecv c q bufs (segFrame q.id x m i)) ∧
        Waits (btMeshPbAdvRecv c q bufs (segFrame q.id x m i)).rx x m ∧
        (btMeshPbAdvRecv c q bufs (segFrame q.id x m i)).accepted = q.accepted ∧
        (btMeshPbAdvRecv c q bufs (segFrame q.id x m i)).acks = q.acks) ∨
      HandsOver q (btMeshPbAdvRecv c q bufs (segFrame q.id x m i)) x m := by
  obtain hfresh | hcollects := h
  · by_cases hzero : i = 0
    · subst hzero
      obtain ⟨rx, hgathers, hrecv⟩ := hfresh.start c bufs hactive hid hpos hlen hsize
      rw [hrecv]
      obtain ⟨hkeeps, hcollects, -, haccepted, hacks⟩ | hover :=
        Gathers.take (s := { q with rx := rx }) bufs hgathers (by omega) hi
          (fun hne => absurd rfl hne)
      · exact Or.inl ⟨⟨hkeeps.linkActive, hkeeps.id, hkeeps.txId, hkeeps.txBuf, hkeeps.sent⟩,
          Or.inr hcollects, haccepted, hacks⟩
      · exact Or.inr ⟨⟨hover.keepsTx.linkActive, hover.keepsTx.id, hover.keepsTx.txId, hover.keepsTx.txBuf,
          hover.keepsTx.sent⟩, hover.done, hover.accepted, hover.acks, hover.complete⟩
    · rw [hfresh.cont c bufs hactive hid hlen hi hx hzero]
      exact Or.inl ⟨KeepsTx.refl q, Or.inl hfresh, rfl, rfl⟩
  · rw [hcollects.recv c bufs hactive hid hlen hi]
    split
    · obtain ⟨hkeeps, hcollects', -, haccepted, hacks⟩ | hover :=
        hcollects.toGathers.take bufs (by omega) hi (fun _ => hcollects.first)
      · exact Or.inl ⟨hkeeps, Or.inr hcollects', haccepted, hacks⟩
      · exact Or.inr hover
    · exact Or.inl ⟨KeepsTx.refl q, Or.inr hcollects, rfl, rfl⟩

/-- **an advertisement reaches the other node.** -/
theorem Carries.air (c : ProvConf) (bufs : ProvBufs) (h : Carries p q) {i : ℕ} {frame : List UInt8}
    (hsize : 65 ≤ c.size) (hframe : p.txBuf[i]? = some frame) :
    Carries p (btMeshPbAdvRecv c q bufs frame) ∧ KeepsTx q (btMeshPbAdvRecv c q bufs frame) := by
  have hid : q.id < 2 ^ 32 := by
    rw [h.id]
    exact h.idLt
  have hlink : ∀ x, provFrame q.id x gpcAck [] = provFrame p.id x gpcAck [] := fun x => by rw [h.id]
  have hbuild : ∀ q', KeepsTx q q' → Phase p.id p.sent p.txId p.txBuf q'.rx q'.accepted q'.acks →
      Carries p q' ∧ KeepsTx q q' := fun q' hkeeps hphase =>
    ⟨⟨⟨h.active.1, by rw [hkeeps.linkActive]; exact h.active.2⟩, hkeeps.id.trans h.id, h.idLt, hphase⟩, hkeeps⟩
  cases h.phase with
  | opened hsent haccepted hx hrx hbuf hacks =>
    have hctl : frame = provFrame p.id 0 (gpcCtl linkAck) [] := by
      rw [hbuf] at hframe
      exact List.mem_singleton.1 (List.mem_of_getElem? hframe)
    have hrecv : btMeshPbAdvRecv c q bufs frame = q := by
      rw [hctl, ← h.id]
      exact (recv_frame h.active.2 hid).2.2.2 (by decide)
    rw [hrecv]
    exact hbuild q (KeepsTx.refl q) (Phase.opened hsent haccepted hx hrx hbuf hacks)
  | waits m old k hsent hpos hlen hx hbuf hrx hold hacks =>
    obtain ⟨hi, rfl⟩ := hbuf.get hframe
    rw [← h.id]
    obtain ⟨hkeeps, hwaits, haccepted, hsame⟩ | hover :=
      hrx.recv c bufs h.active.2 hid hpos hlen hsize hx hi
    · apply hbuild _ hkeeps
      rw [haccepted, hsame]
      exact Phase.waits m old k hsent hpos hlen hx hbuf hwaits hold hacks
    · have hqueue := hover.acks
      unfold Acked at hqueue
      rw [hlink] at hqueue
      obtain ⟨n, hacks'⟩ := hacks.acked hqueue
      apply hbuild _ hover.keepsTx
      refine Phase.done m old k n ?_ ?_ hlen hx (Or.inr hbuf) hover.done hold hacks'
      · rw [hover.accepted]
        exact hsent
      · rw [hsent]
        exact List.append_ne_nil_of_right_ne_nil _ (List.cons_ne_nil _ _)
  | done m old k n hsent hnonempty hlen hx hbuf hrx hold hacks =>
    obtain ⟨hnil, -⟩ | hbusy := hbuf
    · rw [hnil] at hframe
      cases hframe
    · obtain ⟨hi, rfl⟩ := hbusy.get hframe
      rw [← h.id]
      obtain ⟨pending, acks', hrecv, hqueue⟩ :=
        hrx.recv c bufs h.active.2 hid hlen hi
      rw [hlink] at hqueue
      obtain ⟨n', hacks'⟩ := hacks.acked hqueue
      rw [hrecv]
      exact hbuild _ ⟨rfl, rfl, rfl, rfl, rfl⟩
        (Phase.done m old k n' hsent hnonempty hlen hx (Or.inr hbusy) hrx hold hacks')

/-- An acknowledgement is for the last PDU or changes nothing. -/
theorem recv_ack (hactive : p.linkActive) (hid : p.id < 2 ^ 32) (x : UInt8) :
    btMeshPbAdvRecv c p bufs (provFrame p.id x gpcAck []) = if x = p.txId then p.clearTx else p := by
  rw [(recv_frame hactive hid).2.1 (by decide)]
  unfold genProvAck
  split
  · rename_i hnil
    split
    · unfold ProvLink.clearTx
      rw [← hnil]
    · rfl
  · rfl

/-- The acknowledgement that is sent next. -/
theorem AckQueue.next {linkId k n : ℕ} {old cur : UInt8} {acks : List (List UInt8 × Bool)} {frame : List UInt8}
    {cb : Bool} (h : AckQueue linkId old cur k n ((frame, cb) :: acks)) :
    (∃ k', k = k' + 1 ∧ frame = provFrame linkId old gpcAck [] ∧ AckQueue linkId old cur k' n acks) ∨
      ∃ n', k = 0 ∧ n = n' + 1 ∧ frame = provFrame linkId cur gpcAck [] ∧ AckQueue linkId old cur 0 n' acks := by
  unfold AckQueue at h
  cases k with
  | zero =>
    cases n with
    | zero => cases h
    | succ n =>
      obtain ⟨hframe, hrest⟩ := List.cons.inj h
      exact Or.inr ⟨n, rfl, rfl, hframe, hrest⟩
  | succ k =>
    obtain ⟨hframe, hrest⟩ := List.cons.inj h
    exact Or.inl ⟨k, rfl, hframe, hrest⟩

/-- **an acknowledgement is sent.** -/
theorem Carries.ackOut (c : ProvConf) (bufs : ProvBufs) (received : Bool) (h : Carries p q) {frame : List UInt8}
    {cb : Bool} {acks : List (List UInt8 × Bool)} (hacks : q.acks = (frame, cb) :: acks) :
    Carries (if received then btMeshPbAdvRecv c p bufs frame else p) (ackComplete { q with acks := acks } cb) ∧
      KeepsTx q (ackComplete { q with acks := acks } cb) ∧
      KeepsRx p (if received then btMeshPbAdvRecv c p bufs frame else p) := by
  have hcomplete : KeepsTx q (ackComplete { q with acks := acks } cb) ∧
      KeepsRx { q with acks := acks } (ackComplete { q with acks := acks } cb) := by
    unfold ackComplete
    split
    · exact ⟨⟨rfl, rfl, rfl, rfl, rfl⟩, ⟨rfl, rfl, rfl, rfl, rfl⟩⟩
    · exact ⟨⟨rfl, rfl, rfl, rfl, rfl⟩, ⟨rfl, rfl, rfl, rfl, rfl⟩⟩
  -- the sender keeps its advertisements, or drops them if the acknowledgement is for the last PDU
  have hbuild : ∀ p', KeepsRx p p' → p'.txId = p.txId → p'.sent = p.sent →
      Phase p.id p.sent p.txId p'.txBuf q.rx q.accepted acks →
      Carries p' (ackComplete { q with acks := acks } cb) ∧ KeepsTx q (ackComplete { q with acks := acks } cb) ∧
        KeepsRx p p' := by
    intro p' hkeeps hx hsent hphase
    have hcarries : Carries p' { q with acks := acks } := by
      refine ⟨⟨by rw [hkeeps.linkActive]; exact h.active.1, h.active.2⟩, h.id.trans hkeeps.id.symm,
        by rw [hkeeps.id]; exact h.idLt, ?_⟩
      rw [hkeeps.id, hsent, hx]
      exact hphase
    exact ⟨hcarries.congr (KeepsTx.refl p') hcomplete.2, hcomplete.1, hkeeps⟩
  have hrecv : ∀ x, frame = provFrame p.id x gpcAck [] →
      btMeshPbAdvRecv c p bufs frame = if x = p.txId then p.clearTx else p := fun x hframe => by
    rw [hframe]
    exact recv_ack h.active.1 h.idLt x
  have hsame : Phase p.id p.sent p.txId p.txBuf q.rx q.accepted acks →
      Carries p (ackComplete { q with acks := acks } cb) ∧ KeepsTx q (ackComplete { q with acks := acks } cb) ∧
        KeepsRx p p := hbuild p (KeepsRx.refl p) rfl rfl
  have hphase := h.phase
  rw [hacks] at hphase
  cases hphase with
  | opened _ _ _ _ _ hnone => cases hnone
  | waits m old k hsent hpos hlen hx hbuf hrx hold hqueue =>
    obtain ⟨k, rfl, hframe, hrest⟩ | ⟨n, -, hn, -⟩ := hqueue.next
    · rw [hrecv old hframe, if_neg hold, ite_self]
      exact hsame (Phase.waits m old k hsent hpos hlen hx hbuf hrx hold hrest)
    · cases hn
  | done m old k n hsent hnonempty hlen hx hbuf hrx hold hqueue =>
    obtain ⟨k, rfl, hframe, hrest⟩ | ⟨n, rfl, rfl, hframe, hrest⟩ := hqueue.next
    · obtain ⟨-, hk⟩ | hbusy := hbuf
      · cases hk
      · rw [hrecv old hframe, if_neg hold, ite_self]
        exact hsame (Phase.done m old k n hsent hnonempty hlen hx (Or.inr hbusy) hrx hold hrest)
    · cases received with
      | false => exact hsame (Phase.done m old 0 n hsent hnonempty hlen hx hbuf hrx hold hrest)
      | true =>
        rw [if_pos rfl, hrecv p.txId hframe, if_pos rfl]
        exact hbuild p.clearTx ⟨rfl, rfl, rfl, rfl, rfl⟩ rfl rfl
          (Phase.done m old 0 n hsent hnonempty hlen hx (Or.inl ⟨rfl, rfl⟩) hrx hold hrest)

end Directions

/-! ## Runs -/

section Runs

variable {c : ProvConf} {s s' : ProvLink × ProvLink} {a : Bool × ProvAct}

/-- One of the two nodes. -/
def nodeOf (s : ProvLink × ProvLink) (second : Bool) : ProvLink := if second then s.2 else s.1

/-- A PDU of 1 to 65 bytes is passed on when there is none yet or the last one was acknowledged. -/
def StopAndWait (s : ProvLink × ProvLink) : Bool × ProvAct → Prop
  | (second, .send _ msg) =>
    1 ≤ msg.length ∧ msg.length ≤ 65 ∧ ((nodeOf s second).txBuf = [] ∨ (nodeOf s second).sent = [])
  | (_, .air _ _) => True
  | (_, .ackOut _ _) => True
  | (_, .foreign _ _) => True

instance (s : ProvLink × ProvLink) : (a : Bool × ProvAct) → Decidable (StopAndWait s a)
  | (second, .send _ msg) => inferInstanceAs
      (Decidable (1 ≤ msg.length ∧ msg.length ≤ 65 ∧
        ((nodeOf s second).txBuf = [] ∨ (nodeOf s second).sent = [])))
  | (_, .air _ _) => .isTrue trivial
  | (_, .ackOut _ _) => .isTrue trivial
  | (_, .foreign _ _) => .isTrue trivial

/-- Both directions. -/
def BothCarry (s : ProvLink × ProvLink) : Prop := Carries s.1 s.2 ∧ Carries s.2 s.1

/-- An act of a node, for both directions. -/
theorem carries_act {p q p' q' : ProvLink} {act : ProvAct} (hsize : 65 ≤ c.size) (hpq : Carries p q)
    (hqp : Carries q p) (hwait : StopAndWait (p, q) (false, act)) (hstep : provAct c p q act = some (p', q')) :
    Carries p' q' ∧ Carries q' p' := by
  cases act with
  | send bufs msg =>
    obtain ⟨hpos, hlen, hfree⟩ := hwait
    dsimp only [provAct] at hstep
    match hsend : provSendAdv p bufs msg with
    | (some e, t) =>
      rw [hsend] at hstep
      cases hstep
    | (none, t) =>
      rw [hsend] at hstep
      cases hstep
      have heq := (provSendAdv_ok hsend).1
      refine ⟨hpq.send hsend hpos hlen hfree, hqp.congr (KeepsTx.refl q) ?_⟩
      rw [heq]
      exact ⟨rfl, rfl, rfl, rfl, rfl⟩
  | air i bufs =>
    obtain ⟨frame, hframe, heq⟩ := Option.map_eq_some_iff.1 hstep
    cases heq
    obtain ⟨hcarries, hkeeps⟩ := hpq.air c bufs hsize hframe
    exact ⟨hcarries, hqp.congr hkeeps (KeepsRx.refl p)⟩
  | ackOut received bufs =>
    dsimp only [provAct] at hstep
    match hacks : p.acks with
    | [] =>
      rw [hacks] at hstep
      cases hstep
    | (frame, cb) :: acks =>
      rw [hacks] at hstep
      cases hstep
      obtain ⟨hcarries, hkeepsTx, hkeepsRx⟩ :=
        hqp.ackOut c bufs received hacks
      exact ⟨hpq.congr hkeepsTx hkeepsRx, hcarries⟩
  | foreign frame bufs =>
    dsimp only [provAct] at hstep
    split at hstep
    · cases hstep
    · cases hstep
      rw [recv_foreign hpq.active.1 ‹_›]
      exact ⟨hpq, hqp⟩

/-- **a step** of the two nodes. -/
theorem BothCarry.step (hsize : 65 ≤ c.size) (h : BothCarry s) (hwait : StopAndWait s a)
    (hstep : provStep c s a = some s') : BothCarry s' := by
  obtain ⟨second, act⟩ := a
  cases second with
  | false => exact carries_act hsize h.1 h.2 hwait hstep
  | true =>
    obtain ⟨⟨q', p'⟩, hact, rfl⟩ := Option.map_eq_some_iff.1 hstep
    have hswap : StopAndWait (s.2, s.1) (false, act) := by
      cases act with
      | send bufs msg => exact hwait
      | air i bufs => trivial
      | ackOut received bufs => trivial
      | foreign frame bufs => trivial
    exact (carries_act hsize h.2 h.1 hswap hact).symm

/-- On an open link nothing is on the way. -/
theorem bothCarry_opened {linkId : ℕ} (hid : linkId < 2 ^ 32) (data data' : Mem) :
    BothCarry (provOpened linkId data, provOpened linkId data') := by
  have hdir : ∀ data data', Carries (provOpened linkId data) (provOpened linkId data') := fun data data' =>
    ⟨⟨rfl, rfl⟩, rfl, hid, Phase.opened rfl rfl rfl ⟨rfl, rfl, rfl⟩ rfl rfl⟩
  exact ⟨hdir data data', hdir data' data⟩

/-- **a run** of the two nodes. -/
theorem BothCarry.run {acts : List (Bool × ProvAct)} (hsize : 65 ≤ c.size) (h : BothCarry s)
    (hmeet : StepsMeet (provStep c) StopAndWait s acts) (hrun : runSteps (provStep c) s acts = some s') :
    BothCarry s' :=
  runSteps_inv (fun _ _ _ hs hwait hstep => hs.step hsize hwait hstep) h hmeet hrun

end Runs

/-! ## The main results -/

/-- What `q` acknowledges is what was passed on at `p`, in this order, up to the last PDU, and all of it once the
acknowledgement of the last one has come in. -/
structure Reliable (p q : ProvLink) : Prop where
  inOrder : q.accepted <+: p.sent
  atMostOne : p.sent.length ≤ q.accepted.length + 1
  acked : p.txBuf = [] → q.accepted = p.sent

/-- What the link carries is what the claim asks for. -/
theorem Carries.reliable {p q : ProvLink} (h : Carries p q) : Reliable p q := by
  cases h.phase with
  | opened hsent haccepted _ _ _ _ =>
    have hboth : q.accepted = p.sent := haccepted.trans hsent.symm
    exact ⟨hboth ▸ List.prefix_rfl, hboth ▸ Nat.le_succ _, fun _ => hboth⟩
  | waits m _ _ hsent _ _ _ hbuf _ _ _ =>
    refine ⟨hsent ▸ List.prefix_append _ _, ?_, fun hnil => absurd hnil hbuf.ne_nil⟩
    rw [hsent, List.length_append, List.length_singleton]
  | done _ _ _ _ hsent _ _ _ _ _ _ _ =>
    exact ⟨hsent ▸ List.prefix_rfl, hsent ▸ Nat.le_succ _, fun _ => hsent.symm⟩

/-- **A link is reliable** in both directions, whatever gets lost, comes twice or comes in another order. -/
theorem prov_link_reliable {c : ProvConf} (hsize : 65 ≤ c.size) {linkId : ℕ} (hid : linkId < 2 ^ 32)
    {data data' : Mem} {acts : List (Bool × ProvAct)} {p q : ProvLink}
    (hmeet : StepsMeet (provStep c) StopAndWait (provOpened linkId data, provOpened linkId data') acts)
    (hrun : runSteps (provStep c) (provOpened linkId data, provOpened linkId data') acts = some (p, q)) :
    Reliable p q ∧ Reliable q p := by
  have h := (bothCarry_opened hid data data').run hsize hmeet hrun
  exact ⟨h.1.reliable, h.2.reliable⟩

/-- A device. -/
def provConf : ProvConf := ⟨List.replicate 16 0, 65⟩

/-- Buffers are there. -/
def provBufs : ProvBufs := ⟨true, 3, true⟩

/-- A PDU of two segments that come twice and in the wrong order, a PDU the other way, an acknowledgement that is
lost, and the next PDU. -/
def provRun : List (Bool × ProvAct) :=
  [(false, .send 3 (List.range 21 |>.map UInt8.ofNat)), (false, .air 1 provBufs), (false, .air 0 provBufs),
    (true, .send 1 [3, 4]), (false, .air 0 provBufs), (true, .air 0 provBufs), (false, .air 1 provBufs),
    (true, .ackOut false provBufs), (false, .air 1 provBufs), (false, .ackOut true provBufs),
    (true, .ackOut true provBufs), (false, .send 1 [5]), (false, .air 0 provBufs)]

/-- A run in which both nodes send: two PDUs get to the one and one gets to the other. -/
theorem prov_link_reliable_run : ∃ p q,
    runSteps (provStep provConf) (provOpened 7 fun _ => 0, provOpened 7 fun _ => 0) provRun = some (p, q) ∧
      q.accepted.length = 2 ∧ p.accepted = [[3, 4]] ∧ Reliable p q ∧ Reliable q p := by
  have hmeet : StepsMeet (provStep provConf) StopAndWait (provOpened 7 fun _ => 0, provOpened 7 fun _ => 0)
      provRun := by
    decide +kernel
  have hlast : (runSteps (provStep provConf) (provOpened 7 fun _ => 0, provOpened 7 fun _ => 0) provRun).map
      (fun s => (s.2.accepted.length, s.1.accepted)) = some (2, [[3, 4]]) := by
    decide +kernel
  obtain ⟨⟨p, q⟩, hrun, haccepted⟩ := Option.map_eq_some_iff.1 hlast
  obtain ⟨hlength, hother⟩ := Prod.mk.inj haccepted
  exact ⟨p, q, hrun, hlength, hother, prov_link_reliable (by decide) (by norm_num) hmeet hrun⟩

/-! ## Arrival -/

section Arrival

variable {c : ProvConf} {q : ProvLink} {x : UInt8} {m : List UInt8} {accepted : List (List UInt8)} {i j : ℕ}

/-- Where the PDU is while its advertisements come in. -/
structure Arriving (linkId : ℕ) (x : UInt8) (m : List UInt8) (accepted : List (List UInt8)) (q : ProvLink) : Prop where
  active : q.linkActive
  id : q.id = linkId
  state : Waits q.rx x m ∧ q.accepted = accepted ∨
    Done q.rx x ∧ q.accepted = accepted ++ [m] ∧ IsSeg m.length (lastSeg m.length)

/-- The segment has come. -/
def Got (x : UInt8) (m : List UInt8) (i : ℕ) (q : ProvLink) : Prop :=
  Done q.rx x ∨ Collects q.rx x m ∧ q.rx.seg.getLsbD i = false

/-- **an advertisement** while a PDU arrives. -/
theorem Arriving.recv {linkId : ℕ} (bufs : ProvBufs) (h : Arriving linkId x m accepted q) (hid : linkId < 2 ^ 32)
    (hpos : 1 ≤ m.length) (hlen : m.length ≤ 65) (hsize : 65 ≤ c.size) (hx : x ≠ 0) (hi : IsSeg m.length i) :
    Arriving linkId x m accepted (btMeshPbAdvRecv c q bufs (segFrame linkId x m i)) := by
  obtain ⟨hactive, rfl, hstate⟩ := h
  obtain ⟨hwaits, haccepted⟩ | ⟨hdone, haccepted, hcomplete⟩ := hstate
  · obtain ⟨hkeeps, hwaits', hsame, -⟩ | hover := hwaits.recv c bufs hactive hid hpos hlen hsize hx hi
    · exact ⟨by rw [hkeeps.linkActive]; exact hactive, hkeeps.id, Or.inl ⟨hwaits', hsame.trans haccepted⟩⟩
    · refine ⟨by rw [hover.keepsTx.linkActive]; exact hactive, hover.keepsTx.id, Or.inr ⟨hover.done, ?_,
        hover.complete⟩⟩
      rw [hover.accepted, haccepted]
  · obtain ⟨pending, acks, hrecv, -⟩ := hdone.recv c bufs hactive hid hlen hi
    rw [hrecv]
    exact ⟨hactive, rfl, Or.inr ⟨hdone, haccepted, hcomplete⟩⟩

/-- What has come stays. -/
theorem Got.recv (bufs : ProvBufs) (h : Got x m j q) (hactive : q.linkActive) (hid : q.id < 2 ^ 32)
    (hlen : m.length ≤ 65) (hi : IsSeg m.length i) :
    Got x m j (btMeshPbAdvRecv c q bufs (segFrame q.id x m i)) ∧
      Got x m i (btMeshPbAdvRecv c q bufs (segFrame q.id x m i)) := by
  obtain hdone | ⟨hcollects, hbit⟩ := h
  · obtain ⟨pending, acks, hrecv, -⟩ := hdone.recv c bufs hactive hid hlen hi
    rw [hrecv]
    exact ⟨Or.inl hdone, Or.inl hdone⟩
  · rw [hcollects.recv c bufs hactive hid hlen hi]
    split
    · obtain ⟨-, hcollects', hseg, -⟩ | hover :=
        hcollects.toGathers.take bufs (by omega) hi (fun _ => hcollects.first)
      · refine ⟨Or.inr ⟨hcollects', ?_⟩, Or.inr ⟨hcollects', ?_⟩⟩
        · rw [hseg, getLsbD_xactSegRecv, hbit, Bool.false_and]
        · rw [hseg, getLsbD_xactSegRecv, decide_eq_false (not_not.2 rfl), Bool.and_false]
      · exact ⟨Or.inl hover.done, Or.inl hover.done⟩
    · exact ⟨Or.inr ⟨hcollects, hbit⟩, Or.inr ⟨hcollects, Bool.eq_false_iff.2 ‹_›⟩⟩

/-- The first segment always counts. -/
theorem Arriving.start {linkId : ℕ} (bufs : ProvBufs) (h : Arriving linkId x m accepted q) (hid : linkId < 2 ^ 32)
    (hpos : 1 ≤ m.length) (hlen : m.length ≤ 65) (hsize : 65 ≤ c.size) :
    Got x m 0 (btMeshPbAdvRecv c q bufs (segFrame linkId x m 0)) := by
  obtain ⟨hactive, rfl, hstate⟩ := h
  have hzero : IsSeg m.length 0 := Or.inl rfl
  obtain ⟨hfresh | hcollects, -⟩ | ⟨hdone, -⟩ := hstate
  · obtain ⟨rx, hgathers, hrecv⟩ := hfresh.start c bufs hactive hid hpos hlen hsize
    rw [hrecv]
    obtain ⟨-, hcollects, -⟩ | hover :=
      Gathers.take (s := { q with rx := rx }) bufs hgathers (by omega) hzero (fun hne => absurd rfl hne)
    · exact Or.inr ⟨hcollects, hcollects.first⟩
    · exact Or.inl hover.done
  · exact (Got.recv bufs (Or.inr ⟨hcollects, hcollects.first⟩) hactive hid hlen hzero).1
  · exact (Got.recv bufs (Or.inl hdone) hactive hid hlen hzero).1

/-- The advertisements that reach the other node, one after the other. -/
def afterAirs (c : ProvConf) (linkId : ℕ) (x : UInt8) (m : List UInt8) (q : ProvLink) (airs : List (ℕ × ProvBufs)) :
    ProvLink :=
  airs.foldl (fun q a => btMeshPbAdvRecv c q a.2 (segFrame linkId x m a.1)) q

/-- Any advertisements. -/
theorem Arriving.airs {linkId : ℕ} {airs : List (ℕ × ProvBufs)} (h : Arriving linkId x m accepted q)
    (hid : linkId < 2 ^ 32) (hpos : 1 ≤ m.length) (hlen : m.length ≤ 65) (hsize : 65 ≤ c.size) (hx : x ≠ 0)
    (hairs : ∀ a ∈ airs, IsSeg m.length a.1) : Arriving linkId x m accepted (afterAirs c linkId x m q airs) := by
  induction airs generalizing q with
  | nil => exact h
  | cons a airs ih =>
    apply ih (h.recv a.2 hid hpos hlen hsize hx (hairs a List.mem_cons_self))
    intro b hb
    exact hairs b (List.mem_cons_of_mem a hb)

/-- What has come stays, whatever comes then. -/
theorem Got.airs {linkId : ℕ} {airs : List (ℕ × ProvBufs)} (h : Got x m j q)
    (harriving : Arriving linkId x m accepted q) (hid : linkId < 2 ^ 32) (hpos : 1 ≤ m.length) (hlen : m.length ≤ 65)
    (hsize : 65 ≤ c.size) (hx : x ≠ 0) (hairs : ∀ a ∈ airs, IsSeg m.length a.1) :
    Got x m j (afterAirs c linkId x m q airs) := by
  induction airs generalizing q with
  | nil => exact h
  | cons a airs ih =>
    have ha := hairs a List.mem_cons_self
    have hnext : Got x m j (btMeshPbAdvRecv c q a.2 (segFrame linkId x m a.1)) := by
      rw [← harriving.id]
      exact (h.recv a.2 harriving.active (harriving.id ▸ hid) hlen ha).1
    apply ih hnext (harriving.recv a.2 hid hpos hlen hsize hx ha)
    intro b hb
    exact hairs b (List.mem_cons_of_mem a hb)

/-- **once the first segment has come, all that come after it count.** -/
theorem Got.each {linkId : ℕ} {airs : List (ℕ × ProvBufs)} (h : Got x m 0 q)
    (harriving : Arriving linkId x m accepted q) (hid : linkId < 2 ^ 32) (hpos : 1 ≤ m.length) (hlen : m.length ≤ 65)
    (hsize : 65 ≤ c.size) (hx : x ≠ 0) (hairs : ∀ a ∈ airs, IsSeg m.length a.1) (hmem : i ∈ airs.map Prod.fst) :
    Got x m i (afterAirs c linkId x m q airs) := by
  obtain ⟨⟨k, bufs⟩, ha, rfl⟩ := List.mem_map.1 hmem
  obtain ⟨before, after, rfl⟩ := List.append_of_mem ha
  have hbefore : ∀ b ∈ before, IsSeg m.length b.1 := fun b hb => hairs b (List.mem_append_left _ hb)
  have hafter : ∀ b ∈ after, IsSeg m.length b.1 := fun b hb =>
    hairs b (List.mem_append_right _ (List.mem_cons_of_mem _ hb))
  have hk : IsSeg m.length k := hairs (k, bufs) (List.mem_append_right _ List.mem_cons_self)
  have hgot := h.airs harriving hid hpos hlen hsize hx hbefore
  have hthen := harriving.airs hid hpos hlen hsize hx hbefore
  unfold afterAirs at hgot hthen ⊢
  rw [List.foldl_append, List.foldl_cons]
  generalize before.foldl (fun q a => btMeshPbAdvRecv c q a.2 (segFrame linkId x m a.1)) q = r at hgot hthen ⊢
  have hnow : Got x m k (btMeshPbAdvRecv c r bufs (segFrame linkId x m k)) := by
    rw [← hthen.id]
    exact (hgot.recv bufs hthen.active (hthen.id ▸ hid) hlen hk).2
  exact hnow.airs (hthen.recv bufs hid hpos hlen hsize hx hk) hid hpos hlen hsize hx hafter

/-- **when the PDU is taken in.** -/
theorem Arriving.accepted_iff {linkId : ℕ} (h : Arriving linkId x m accepted q) (hlen : m.length ≤ 65)
    (hgot : ∀ i, IsSeg m.length i → Got x m i q) :
    q.accepted = accepted ++ [m] ↔ m.length ≤ 20 ∨ (m.length - 20) % 23 ≠ 0 := by
  rw [← isSeg_lastSeg (by omega)]
  obtain ⟨-, -, ⟨hwaits, hsame⟩ | ⟨-, haccepted, hcomplete⟩⟩ := h
  · constructor
    · intro haccepted
      have hlength := congrArg List.length haccepted
      rw [hsame, List.length_append, List.length_singleton] at hlength
      omega
    · intro hlast
      exfalso
      -- all bits are cleared
      have hnotDone : ∀ i, IsSeg m.length i → Collects q.rx x m ∧ q.rx.seg.getLsbD i = false := by
        intro i hi
        obtain hdone | hcollects := hgot i hi
        · obtain hfresh | hcollects := hwaits
          · exact absurd hdone.prevId hfresh.prevId
          · exact absurd hdone.seg hcollects.missing
        · exact hcollects
      have hcollects := (hnotDone _ hlast).1
      apply hcollects.missing
      apply BitVec.eq_of_getLsbD_eq
      intro i _
      have hzero : (0 : BitVec 8).getLsbD i = false := BitVec.getLsbD_zero
      rw [hzero]
      obtain hlt | heq | hgt := Nat.lt_trichotomy i (lastSeg m.length)
      · exact (hnotDone i (isSeg_of_lt (by omega) hlt)).2
      · rw [heq]
        exact (hnotDone _ hlast).2
      · exact hcollects.high i hgt
  · exact ⟨fun _ => hcomplete, fun _ => haccepted⟩

/-- A run in which only advertisements of one node come in. -/
theorem runSteps_airs {s s' : ProvLink × ProvLink} {second : Bool} {airs : List (ℕ × ProvBufs)}
    (hair : OnAir (nodeOf s second).id (nodeOf s second).txId m (nodeOf s second).txBuf)
    (hrun : runSteps (provStep c) s (airs.map fun a => (second, .air a.1 a.2)) = some s') :
    nodeOf s' second = nodeOf s second ∧
      nodeOf s' (!second) =
        afterAirs c (nodeOf s second).id (nodeOf s second).txId m (nodeOf s (!second)) airs ∧
      ∀ a ∈ airs, IsSeg m.length a.1 := by
  induction airs generalizing s with
  | nil =>
    cases hrun
    exact ⟨rfl, rfl, List.forall_mem_nil _⟩
  | cons a airs ih =>
    obtain ⟨t, hstep, hrest⟩ := runSteps_cons hrun
    have hact : ∃ frame, (nodeOf s second).txBuf[a.1]? = some frame ∧ nodeOf t second = nodeOf s second ∧
        nodeOf t (!second) = btMeshPbAdvRecv c (nodeOf s (!second)) a.2 frame := by
      cases second with
      | false =>
        obtain ⟨frame, hframe, rfl⟩ := Option.map_eq_some_iff.1 hstep
        exact ⟨frame, hframe, rfl, rfl⟩
      | true =>
        obtain ⟨r, hr, rfl⟩ := Option.map_eq_some_iff.1 hstep
        obtain ⟨frame, hframe, rfl⟩ := Option.map_eq_some_iff.1 hr
        exact ⟨frame, hframe, rfl, rfl⟩
    obtain ⟨frame, hframe, hsame, hrecv⟩ := hact
    obtain ⟨hi, rfl⟩ := hair.get hframe
    obtain ⟨hsender, hreceiver, hall⟩ := ih (by rw [hsame]; exact hair) hrest
    rw [hsame, hrecv] at hreceiver
    exact ⟨hsender.trans hsame, hreceiver, List.forall_mem_cons.2 ⟨hi, hall⟩⟩

/-- The last PDU of a node. -/
theorem BothCarry.phase_waits {s : ProvLink × ProvLink} {second : Bool} (h : BothCarry s)
    (hlast : (nodeOf s second).sent = (nodeOf s (!second)).accepted ++ [m]) :
    Carries (nodeOf s second) (nodeOf s (!second)) ∧ 1 ≤ m.length ∧ m.length ≤ 65 ∧ (nodeOf s second).txId ≠ 0 ∧
      OnAir (nodeOf s second).id (nodeOf s second).txId m (nodeOf s second).txBuf ∧
      Waits (nodeOf s (!second)).rx (nodeOf s second).txId m := by
  have hcarries : Carries (nodeOf s second) (nodeOf s (!second)) := by
    cases second with
    | false => exact h.1
    | true => exact h.2
  refine ⟨hcarries, ?_⟩
  cases hcarries.phase with
  | opened hsent haccepted _ _ _ _ =>
    rw [hsent, haccepted] at hlast
    cases hlast
  | waits m' _ _ hsent hpos hlen hx hbuf hrx _ _ =>
    obtain rfl : m' = m := List.singleton_inj.1 (List.append_cancel_left (hsent.symm.trans hlast))
    exact ⟨hpos, hlen, hx, hbuf, hrx⟩
  | done _ _ _ _ hsent _ _ _ _ _ _ _ =>
    have hlength := congrArg List.length (hsent.symm.trans hlast)
    rw [List.length_append, List.length_singleton] at hlength
    omega

end Arrival

end GenieSdk.Analysis.Prov
