import GenieSdk.Analysis.SegContexts
import GenieSdk.Model.SegHistory

/-!
# Segmented sends are completed once and for the right message

The end callback of a message should be called at most once, by something that belongs to the
message, and for a group or virtual address only after all segments are out. The callback of a
segment knows its context only. A context is given up at the first completion, while segments of the
message can still wait at the advertiser, and the next message takes it; and for a group every
callback of a segment is a completion. **Where messages to groups have one segment and take contexts
of which nothing is at the advertiser, completions are right** (`completions_right`).
-/

set_option autoImplicit false

namespace GenieSdk.Analysis

open GenieSdk.Lib GenieSdk.Model

/-! ## What is claimed -/

/-- The cause belongs to the message: the callback of one of its segments, an acknowledgement with
its SeqZero from its destination or from a Friend that has acknowledged on its behalf, or its
timer. -/
def EventOf (log : List SegEvent) (m : ℕ) (msg : SentMsg) : SegCause → Prop
  | .sent m' _ => m' = m
  | .ack seqZero addr =>
    seqZero = msg.seqAuth % 2 ^ 13 ∧ (addr = msg.dst ∨ .ack m true addr ∈ log)
  | .retransmit m' => m' = m

/-- The destination is unicast, or all segments are out. -/
def AllOut (log : List SegEvent) (m : ℕ) (msg : SentMsg) : Prop :=
  addrIsUnicast msg.dst = true ∨ ∀ o ≤ msg.segN, .out m o ∈ log

/-- What is claimed of an end callback, after the events of `log`. -/
def EndOk (msgs : List SentMsg) (log : List SegEvent) (m : ℕ) (cause : SegCause) : Prop :=
  (∀ cause', .ended m cause' ∉ log) ∧
    ∃ msg, msgs[m]? = some msg ∧ EventOf log m msg cause ∧ AllOut log m msg

/-- The context that a send takes. -/
def freeCtx (s : TransTx) : Option ℕ := s.ctxs.findIdx? fun c => c.nackCount = 0

/-- **The condition** on a step. A message to a group or virtual address has one segment, and it takes
a context of which no segment is at the advertiser. An acknowledgement has a unicast source, and it is
not for a context with such a message. -/
def SegsOk (h : SegHistory) : SegAct → Prop
  | .send p _ _ => addrIsUnicast p.dst = false →
    p.segN = 0 ∧ ∀ i ∈ freeCtx h.tx, ∀ e ∈ h.adv, e.ctx ≠ i
  | .ack src friendMatch buf _ _ _ => addrIsUnicast src = true ∧
    ∀ i ∈ ackCtx h.tx src friendMatch buf,
      (h.tx.ctx i).cb = true → addrIsUnicast (h.tx.ctx i).dst = true
  | .sent _ _ | .retransmit _ _ _ _ => True

instance (h : SegHistory) : (a : SegAct) → Decidable (SegsOk h a)
  | .send p _ _ => inferInstanceAs (Decidable (addrIsUnicast p.dst = false →
    p.segN = 0 ∧ ∀ i ∈ freeCtx h.tx, ∀ e ∈ h.adv, e.ctx ≠ i))
  | .ack src friendMatch buf _ _ _ => inferInstanceAs (Decidable (addrIsUnicast src = true ∧
    ∀ i ∈ ackCtx h.tx src friendMatch buf,
      (h.tx.ctx i).cb = true → addrIsUnicast (h.tx.ctx i).dst = true))
  | .sent _ _ | .retransmit _ _ _ _ => isTrue trivial

/-! ## What becomes of a context -/

section Contexts

variable {c c' c'' : SegTx}

/-- A context that is free. -/
structure CtxReset (c : SegTx) : Prop where
  cb : c.cb = false
  retransmit : c.retransmit = false
  dst : c.dst = 0
  nackCount : c.nackCount = 0

/-- A context that still has its message. -/
structure SameMsg (c c' : SegTx) : Prop where
  cb : c'.cb = c.cb
  dst : c'.dst = c.dst
  seqAuth : c'.seqAuth = c.seqAuth
  segN : c'.segN = c.segN
  nackCount : c'.nackCount = c.nackCount
  timer : c'.retransmit = true → c.retransmit = true ∨ addrIsUnicast c.dst = true

def CtxStep (c c' : SegTx) : Prop := CtxReset c' ∨ SameMsg c c'

/-- A context holds the message that it holds. -/
theorem SameMsg.refl (c : SegTx) : SameMsg c c := ⟨rfl, rfl, rfl, rfl, rfl, Or.inl⟩

/-- Two steps of a context that keep its message. -/
theorem SameMsg.trans (h : SameMsg c c') (h' : SameMsg c' c'') : SameMsg c c'' := by
  refine ⟨h'.cb.trans h.cb, h'.dst.trans h.dst, h'.seqAuth.trans h.seqAuth, h'.segN.trans h.segN,
    h'.nackCount.trans h.nackCount, fun ht => ?_⟩
  rcases h'.timer ht with ht | hu
  · exact h.timer ht
  · exact Or.inr (h.dst ▸ hu)

/-- A reset context stays reset while it keeps its message. -/
theorem CtxReset.same (h : CtxReset c) (h' : SameMsg c c') : CtxReset c' := by
  refine ⟨h'.cb.trans h.cb, ?_, h'.dst.trans h.dst, h'.nackCount.trans h.nackCount⟩
  rw [← Bool.not_eq_true]
  intro ht
  rcases h'.timer ht with ht | hu
  · simp [h.retransmit] at ht
  · simp [h.dst, addrIsUnicast] at hu

/-- Two steps of a context, each of which keeps its message or resets it. -/
theorem CtxStep.trans (h : CtxStep c c') (h' : CtxStep c' c'') : CtxStep c c'' := by
  rcases h' with h' | h'
  · exact Or.inl h'
  · rcases h with h | h
    · exact Or.inl (h.same h')
    · exact Or.inr (h.trans h')

/-- `seg_tx_reset` leaves a context without a message. -/
theorem resetCtx_reset (c : SegTx) : CtxReset (resetCtx c) := by
  unfold resetCtx
  split
  · next h => exact ⟨rfl, rfl, rfl, h⟩
  · exact ⟨rfl, rfl, rfl, rfl⟩

end Contexts

/-! ## What a function does to the contexts -/

section Touches

variable {cfg : TxCfg} {s s' s'' : TransTx} {i : ℕ} {c : SegTx} {now : ℤ}

/-- One context is changed. -/
structure Touches (s s' : TransTx) (i : ℕ) : Prop where
  length : s'.ctxs.length = s.ctxs.length
  others : ∀ j, j ≠ i → s'.ctx j = s.ctx j
  self : CtxStep (s.ctx i) (s'.ctx i)

/-- Setting one context leaves the others. -/
theorem ctx_set_ne {j : ℕ} (hs' : s'.ctxs = s.ctxs.set i c) (hj : j ≠ i) :
    s'.ctx j = s.ctx j := by
  unfold TransTx.ctx
  rw [hs', List.getD_eq_getElem?_getD, List.getElem?_set_ne (Ne.symm hj),
    ← List.getD_eq_getElem?_getD]

/-- A context that is set has the new value, or the old one where the index is out of bounds. -/
theorem ctx_set_or (hs' : s'.ctxs = s.ctxs.set i c) : s'.ctx i = c ∨ s'.ctx i = s.ctx i := by
  by_cases hi : i < s.ctxs.length
  · exact Or.inl (ctx_set hs' hi)
  · rw [List.set_eq_of_length_le (not_lt.1 hi)] at hs'
    exact Or.inr (by unfold TransTx.ctx; rw [hs'])

/-- The same of `setCtx`. -/
theorem setCtx_ctx_or : (s.setCtx i c).ctx i = c ∨ (s.setCtx i c).ctx i = s.ctx i := by
  have h : (s.setCtx i c).ctxs = s.ctxs.set i c := rfl
  exact ctx_set_or h

/-- With the same contexts each is the same. -/
theorem ctx_of_ctxs (hs' : s'.ctxs = s.ctxs) (j : ℕ) : s'.ctx j = s.ctx j := by
  unfold TransTx.ctx
  rw [hs']

/-- A step that leaves the contexts touches none. -/
theorem Touches.of_ctxs (hs' : s'.ctxs = s.ctxs) : Touches s s' i :=
  ⟨by rw [hs'], fun j _ => ctx_of_ctxs hs' j, Or.inr (ctx_of_ctxs hs' i ▸ SameMsg.refl _)⟩

/-- Two steps that touch the same context only. -/
theorem Touches.trans (h : Touches s s' i) (h' : Touches s' s'' i) : Touches s s'' i :=
  ⟨h'.length.trans h.length, fun j hj => (h'.others j hj).trans (h.others j hj),
    h.self.trans h'.self⟩

/-- A step that sets one context touches that one only. -/
theorem Touches.set (hs' : s'.ctxs = s.ctxs.set i c) (hc : CtxStep (s.ctx i) c) :
    Touches s s' i := by
  refine ⟨by rw [hs', List.length_set], fun j hj => ctx_set_ne hs' hj, ?_⟩
  rcases ctx_set_or hs' with h | h
  · rwa [h]
  · rw [h]
    exact Or.inr (.refl _)

/-- `seg_tx_reset` touches its context only. -/
theorem touches_segTxReset : Touches s (segTxReset cfg s i now) i :=
  Touches.set segTxReset_ctxs (Or.inl (resetCtx_reset _))

/-- And leaves it without a message. -/
theorem segTxReset_reset (hi : i < s.ctxs.length) :
    CtxReset ((segTxReset cfg s i now).ctx i) := by
  rw [ctx_set segTxReset_ctxs hi]
  exact resetCtx_reset _

/-- The callback of a unicast segment keeps the message. -/
theorem segSent_same (hu : addrIsUnicast (s.ctx i).dst = true) :
    SameMsg (s.ctx i) ((segSent cfg s i now).ctx i) := by
  unfold segSent
  rw [if_neg (by simp [hu])]
  rcases setCtx_ctx_or (s := s) (i := i) (c := { s.ctx i with retransmit := true }) with h | h
  · rw [h]
    exact ⟨rfl, rfl, rfl, rfl, rfl, fun _ => Or.inr hu⟩
  · rw [h]
    exact .refl _

/-- The callback of a segment touches its context only. -/
theorem touches_segSent : Touches s (segSent cfg s i now) i := by
  by_cases hu : addrIsUnicast (s.ctx i).dst = true
  · unfold segSent
    rw [if_neg (by simp [hu])]
    exact Touches.set rfl (Or.inr ⟨rfl, rfl, rfl, rfl, rfl, fun _ => Or.inr hu⟩)
  · unfold segSent
    rw [if_pos (by simpa using hu)]
    exact touches_segTxReset

/-- Sending segments again touches their context only. -/
theorem touches_sendUnackedLoop {env : ℕ → ResendEnv} (ks : List ℕ) :
    Touches s (sendUnackedLoop cfg env now i ks s) i := by
  induction ks generalizing s with
  | nil => exact .of_ctxs rfl
  | cons k ks ih =>
    unfold sendUnackedLoop
    split
    · exact ih
    · next b _ =>
        split
        · exact ih
        · split
          · exact touches_segTxReset
          · have hset : Touches s (s.setCtx i { s.ctx i with
                seg := (s.ctx i).seg.set k (some { b with attempts := b.attempts - 1 }) }) i :=
              Touches.set rfl (Or.inr ⟨rfl, rfl, rfl, rfl, rfl, Or.inl⟩)
            dsimp only
            split
            · refine Touches.trans ?_ touches_segTxReset
              exact hset.trans (.of_ctxs rfl)
            · refine Touches.trans ?_ ih
              exact hset.trans (.of_ctxs rfl)

/-! ### `send_seg` -/

variable {p : SegSdu} {env : ℕ → SegEnv}

/-- `bt_mesh_net_send` touches the segment's context only. -/
theorem touches_btMeshNetSend {dst ttl : ℕ} {e : SegEnv} :
    Touches s (btMeshNetSend cfg s i dst ttl e now).2 i := by
  unfold btMeshNetSend
  split
  · exact .of_ctxs rfl
  · next node _ =>
      have hnode : Touches s { s with node := node } i := .of_ctxs rfl
      dsimp only
      split_ifs
      · exact hnode.trans touches_segSent
      · exact hnode.trans touches_segSent
      · exact hnode
      · exact hnode

/-- The loop of `send_seg` touches its context only. -/
theorem touches_sendSegLoop {seqZero : ℕ} (segs : List ℕ) :
    Touches s (sendSegLoop cfg p env now seqZero i segs s).2.2 i := by
  induction segs generalizing s with
  | nil => exact .of_ctxs rfl
  | cons segO rest ih =>
    unfold sendSegLoop
    split
    · exact touches_segTxReset
    · have hset : Touches s (s.setCtx i { s.ctx i with
          seg := (s.ctx i).seg.set segO
            (some ⟨segRetransmitAttempts, p.segPdu seqZero segO⟩) }) i :=
        Touches.set rfl (Or.inr ⟨rfl, rfl, rfl, rfl, rfl, Or.inl⟩)
      have hqueued : Touches s (btMeshFriendEnqueueTx (s.setCtx i { s.ctx i with
          seg := (s.ctx i).seg.set segO
            (some ⟨segRetransmitAttempts, p.segPdu seqZero segO⟩) }) (env segO).lpns) i :=
        hset.trans (.of_ctxs rfl)
      dsimp only
      split
      · exact hqueued
      · have hnet := hqueued.trans (touches_btMeshNetSend :
          Touches _ (btMeshNetSend cfg _ i p.dst p.ttl (env segO) now).2 i)
        split
        · next hs =>
            rw [hs] at hnet
            exact hnet.trans touches_segTxReset
        · next hs =>
            rw [hs] at hnet
            exact hnet.trans ih

/-- No callback runs at once for a group or virtual address. -/
def NotAtOnce (cfg : TxCfg) (p : SegSdu) : Prop :=
  cfg.isLocal p.dst = true → addrIsUnicast p.dst = true

/-- A segment that does not end at once leaves its context the message. -/
theorem btMeshNetSend_same {e : SegEnv} (hp : NotAtOnce cfg p) (hdst : (s.ctx i).dst = p.dst) :
    SameMsg (s.ctx i) ((btMeshNetSend cfg s i p.dst p.ttl e now).2.ctx i) := by
  unfold btMeshNetSend
  split
  · exact .refl _
  · next node _ =>
      dsimp only
      split_ifs with _ hproxy hlocal
      · exact segSent_same (s := { s with node := node }) (by simpa [TransTx.ctx] using hdst ▸ hproxy.2.2)
      · exact segSent_same (s := { s with node := node }) (by simpa [TransTx.ctx] using hdst ▸ hp hlocal)
      · exact .refl _
      · exact .refl _

/-- A send that succeeds leaves the context with its message, unless the message is
complete at once. -/
theorem sendSegLoop_same {seqZero : ℕ} (hp : NotAtOnce cfg p) (segs : List ℕ)
    (hdst : (s.ctx i).dst = p.dst)
    (hok : (sendSegLoop cfg p env now seqZero i segs s).1 = .ok) :
    SameMsg (s.ctx i) ((sendSegLoop cfg p env now seqZero i segs s).2.2.ctx i) := by
  induction segs generalizing s with
  | nil => exact .refl _
  | cons segO rest ih =>
    unfold sendSegLoop at hok ⊢
    split at hok
    · cases hok
    · next hbuf =>
        rw [if_neg hbuf]
        have hset : SameMsg (s.ctx i) ((s.setCtx i { s.ctx i with
            seg := (s.ctx i).seg.set segO
              (some ⟨segRetransmitAttempts, p.segPdu seqZero segO⟩) }).ctx i) := by
          rcases setCtx_ctx_or (s := s) (i := i) with h | h
          · rw [h]
            exact ⟨rfl, rfl, rfl, rfl, rfl, Or.inl⟩
          · rw [h]
            exact .refl _
        have hqueued : SameMsg (s.ctx i) ((btMeshFriendEnqueueTx (s.setCtx i { s.ctx i with
            seg := (s.ctx i).seg.set segO
              (some ⟨segRetransmitAttempts, p.segPdu seqZero segO⟩) }) (env segO).lpns).ctx i) := hset
        dsimp only at hok ⊢
        split at hok
        · next hfriend =>
            rw [if_pos hfriend]
            exact hqueued
        · next hfriend =>
            rw [if_neg hfriend]
            have hdst' := hqueued.dst.trans hdst
            have hnet := hqueued.trans (btMeshNetSend_same hp hdst' :
              SameMsg _ ((btMeshNetSend cfg _ i p.dst p.ttl (env segO) now).2.ctx i))
            split at hok
            · cases hok
            · next hs =>
                rw [hs] at hnet
                exact hnet.trans (ih (hnet.dst.trans hdst) hok)

/-- No more segments are handed to the advertiser than there are. -/
theorem handed_length {seqZero : ℕ} (segs : List ℕ) :
    (sendSegLoop cfg p env now seqZero i segs s).2.1.length ≤ segs.length := by
  induction segs generalizing s with
  | nil => simp [sendSegLoop]
  | cons segO rest ih =>
    unfold sendSegLoop
    split
    · simp
    · dsimp only
      split
      · simp
      · split
        · simp
        · simpa using ih

/-- The context as `send_seg` fills it. -/
def startCtx (s : TransTx) (p : SegSdu) (i : ℕ) : SegTx :=
  { s.ctx i with
    dst := p.dst, segN := p.segN, nackCount := p.segN + 1
    seqAuth := seqAuthOf s.node.net.iviTx.toNat s.node.net.seq, cb := true }

/-- With no free context `send_seg` changes nothing. -/
theorem sendSeg_none (h : s.ctxs.findIdx? (fun c => c.nackCount = 0) = none) :
    (sendSeg cfg s p env now).2.2 = s := by
  unfold sendSeg
  rw [h]
  split
  · rfl
  · split <;> rfl

/-- With an SDU of a wrong length it changes nothing. -/
theorem sendSeg_refused (h : p.sdu.length < 1 ∨ btMeshTxSduMax < p.sdu.length) :
    (sendSeg cfg s p env now).2.2 = s := by
  unfold sendSeg
  rcases h with h | h
  · rw [if_pos h]
  · rw [if_neg (by unfold btMeshTxSduMax btMeshTxSegCount at h; omega), if_pos h]

/-- Otherwise it starts the first free context and sends its segments. -/
theorem sendSeg_some (hlen : ¬ (p.sdu.length < 1 ∨ btMeshTxSduMax < p.sdu.length))
    (h : s.ctxs.findIdx? (fun c => c.nackCount = 0) = some i) :
    sendSeg cfg s p env now =
      sendSegLoop cfg p env now (seqAuthOf s.node.net.iviTx.toNat s.node.net.seq % 2 ^ 13) i
        (List.range (p.segN + 1)) (s.setCtx i (startCtx s p i)) := by
  rw [not_or] at hlen
  unfold sendSeg
  rw [if_neg hlen.1, if_neg hlen.2, h]
  rfl

/-! ### `trans_ack` -/

/-- The context that `seg_tx_lookup` finds has the number and the destination of the acknowledgement, or
takes its source for its destination with OBO. -/
theorem segTxLookup_spec (seqZero addr : ℕ) (obo : Bool) (l : List SegTx) :
    (∀ i, (segTxLookup seqZero obo addr l).1 = some i → ∃ c, l[i]? = some c ∧
      c.seqAuth % 2 ^ 13 = seqZero ∧
      ((c.dst = addr ∧ (segTxLookup seqZero obo addr l).2 = l) ∨
        (obo = true ∧ c.nackCount = c.segN + 1 ∧
          (segTxLookup seqZero obo addr l).2 = l.set i { c with dst := addr }))) ∧
    ((segTxLookup seqZero obo addr l).1 = none → (segTxLookup seqZero obo addr l).2 = l) := by
  induction l with
  | nil => simp [segTxLookup]
  | cons c cs ih =>
    obtain ⟨hsome, hnone⟩ := ih
    have hnext : (∀ i, ((segTxLookup seqZero obo addr cs).1.map (· + 1)) = some i →
        ∃ d, (c :: cs)[i]? = some d ∧ d.seqAuth % 2 ^ 13 = seqZero ∧
          ((d.dst = addr ∧ c :: (segTxLookup seqZero obo addr cs).2 = c :: cs) ∨
            (obo = true ∧ d.nackCount = d.segN + 1 ∧
              c :: (segTxLookup seqZero obo addr cs).2 =
                (c :: cs).set i { d with dst := addr }))) ∧
        ((segTxLookup seqZero obo addr cs).1.map (· + 1) = none →
          c :: (segTxLookup seqZero obo addr cs).2 = c :: cs) := by
      constructor
      · intro i hi
        obtain ⟨j, hj, rfl⟩ := Option.map_eq_some_iff.1 hi
        obtain ⟨d, hd, hseq, h⟩ := hsome j hj
        refine ⟨d, hd, hseq, h.imp ?_ ?_⟩
        · rintro ⟨hdst, hl⟩
          exact ⟨hdst, by rw [hl]⟩
        · rintro ⟨hobo, hn, hl⟩
          exact ⟨hobo, hn, by rw [hl]; rfl⟩
      · intro h
        rw [hnone (Option.map_eq_none_iff.1 h)]
    unfold segTxLookup
    dsimp only
    split
    · exact hnext
    · next hseq =>
        have hseq : c.seqAuth % 2 ^ 13 = seqZero := not_not.1 hseq
        split
        · next hdst =>
            refine ⟨?_, by simp⟩
            rintro _ ⟨⟩
            exact ⟨c, rfl, hseq, Or.inl ⟨hdst, rfl⟩⟩
        · split
          · next hobo =>
              refine ⟨?_, by simp⟩
              rintro _ ⟨⟩
              exact ⟨c, rfl, hseq, Or.inr ⟨hobo.1, hobo.2, rfl⟩⟩
          · exact hnext

/-- What an acknowledgement from `src` leaves of the context that it finds. -/
def Acked (c c' : SegTx) (src : ℕ) : Prop :=
  CtxReset c' ∨
    (c'.cb = c.cb ∧ c'.seqAuth = c.seqAuth ∧ c'.segN = c.segN ∧ c'.dst = src ∧
      (c'.retransmit = true → c.retransmit = true ∨ addrIsUnicast c'.dst = true) ∧
      (c'.nackCount = 0 → c' = c))

/-- Acknowledged segments change nothing but `seg` and `nack_count`. -/
theorem foldl_ackSeg (ack : ℕ) (c : SegTx) (ks : List ℕ) :
    ∃ seg nackCount, ks.foldl (ackSeg ack) c = { c with seg := seg, nackCount := nackCount } := by
  induction ks generalizing c with
  | nil => exact ⟨c.seg, c.nackCount, rfl⟩
  | cons k ks ih =>
    rw [List.foldl_cons]
    unfold ackSeg
    split
    · obtain ⟨seg, n, h⟩ := ih { c with
        seg := c.seg.set k none, nackCount := (c.nackCount + 255) % 256 }
      exact ⟨seg, n, h⟩
    · exact ih c

/-- An acknowledgement that finds no context changes none. -/
theorem transAck_none {src : ℕ} {friendMatch : Bool} {buf : List UInt8} {renv : ℕ → ResendEnv}
    (h : ackCtx s src friendMatch buf = none) :
    (transAck cfg s src friendMatch buf renv now).ctxs = s.ctxs := by
  unfold ackCtx at h
  unfold transAck
  split
  · rfl
  · next hlen =>
      dsimp only
      split
      · rfl
      · next hfm =>
          rw [if_neg (by simp [hlen, hfm])] at h
          have hl := (segTxLookup_spec (ackSeqZero buf) src (ackObo buf) s.ctxs).2 h
          unfold ackSeqZero ackObo at h hl
          split
          · next hs =>
              rw [hs] at hl
              exact hl
          · next hs =>
              rw [hs] at h
              cases h

/-- One that finds a context changes no other, and that one by what it acknowledges. -/
theorem transAck_some {src : ℕ} {friendMatch : Bool} {buf : List UInt8} {renv : ℕ → ResendEnv}
    (h : ackCtx s src friendMatch buf = some i) :
    (s.ctx i).seqAuth % 2 ^ 13 = ackSeqZero buf ∧
      ((s.ctx i).dst = src ∨ ackObo buf = true) ∧
      (transAck cfg s src friendMatch buf renv now).ctxs.length = s.ctxs.length ∧
      (∀ j, j ≠ i → (transAck cfg s src friendMatch buf renv now).ctx j = s.ctx j) ∧
      Acked (s.ctx i) ((transAck cfg s src friendMatch buf renv now).ctx i) src := by
  unfold ackCtx at h
  split at h
  · cases h
  · next hcond =>
      rw [not_or] at hcond
      obtain ⟨c, hc, hseq, hl⟩ := (segTxLookup_spec _ _ _ s.ctxs).1 i h
      obtain ⟨hi, hget⟩ := List.getElem?_eq_some_iff.1 hc
      have hctx : s.ctx i = c := by
        unfold TransTx.ctx
        rw [List.getD_eq_getElem?_getD, hc]
        rfl
      rw [hctx]
      -- the contexts as `seg_tx_lookup` leaves them
      have hlookup : segTxLookup (ackSeqZero buf) (ackObo buf) src s.ctxs =
          (some i, s.ctxs.set i { c with dst := src }) := by
        refine Prod.ext h ?_
        rcases hl with ⟨hdst, hl⟩ | ⟨_, _, hl⟩
        · rw [hl, ← hdst]
          subst hget
          exact (List.set_getElem_self hi).symm
        · exact hl
      have hdst : c.dst = src ∨ ackObo buf = true := hl.imp And.left And.left
      have hnack : c.nackCount = 0 → { c with dst := src } = c := by
        intro hzero
        rcases hl with ⟨hdst, _⟩ | ⟨_, hn, _⟩
        · rw [← hdst]
        · omega
      unfold ackSeqZero ackObo at hlookup
      unfold transAck
      rw [if_neg hcond.1]
      dsimp only
      rw [if_neg hcond.2, hlookup]
      dsimp only
      have h₁ : ({ s with ctxs := s.ctxs.set i { c with dst := src } } : TransTx).ctxs =
        s.ctxs.set i { c with dst := src } := rfl
      generalize ({ s with ctxs := s.ctxs.set i { c with dst := src } } : TransTx) = s₁ at h₁ ⊢
      have hlen₁ : s₁.ctxs.length = s.ctxs.length := by rw [h₁, List.length_set]
      have hothers₁ : ∀ j, j ≠ i → s₁.ctx j = s.ctx j := fun j hj => ctx_set_ne h₁ hj
      have hself₁ : s₁.ctx i = { c with dst := src } := ctx_set h₁ hi
      refine ⟨hseq, hdst, ?_⟩
      split_ifs with hack hseg hleft
      · refine ⟨touches_segTxReset.length.trans hlen₁, fun j hj =>
          (touches_segTxReset.others j hj).trans (hothers₁ j hj), Or.inl ?_⟩
        exact segTxReset_reset (hlen₁ ▸ hi)
      · refine ⟨hlen₁, hothers₁, Or.inr ?_⟩
        rw [hself₁]
        exact ⟨rfl, rfl, rfl, rfl, Or.inl, hnack⟩
      all_goals
        have h₂ : ∀ d, (s₁.setCtx i d).ctxs = s₁.ctxs.set i d := fun _ => rfl
        have hlen₂ : ∀ d, (s₁.setCtx i d).ctxs.length = s.ctxs.length := fun d => by
          rw [h₂, List.length_set, hlen₁]
        have hothers₂ : ∀ d j, j ≠ i → (s₁.setCtx i d).ctx j = s.ctx j := fun d j hj =>
          (ctx_set_ne (h₂ d) hj).trans (hothers₁ j hj)
      · obtain ⟨seg, nackCount, hfold⟩ := foldl_ackSeg
          (leVal ((buf.drop 2).take 4).reverse) { s₁.ctx i with retransmit := false } (List.range 32)
        rw [hfold] at hleft ⊢
        generalize hd : ({ s₁.ctx i with
          retransmit := false, seg := seg, nackCount := nackCount } : SegTx) = d at hleft ⊢
        have hself₂ : (s₁.setCtx i d).ctx i = d := ctx_set (h₂ d) (hlen₁ ▸ hi)
        have htouch : Touches (s₁.setCtx i d) (segTxSendUnacked cfg (s₁.setCtx i d) renv now i) i :=
          touches_sendUnackedLoop _
        refine ⟨htouch.length.trans (hlen₂ d), fun j hj =>
          (htouch.others j hj).trans (hothers₂ d j hj), ?_⟩
        rcases htouch.self with hreset | hsame
        · exact Or.inl hreset
        · rw [hself₂] at hsame hleft
          rw [hself₁] at hd
          subst hd
          refine Or.inr ⟨hsame.cb, hsame.seqAuth, hsame.segN, hsame.dst, ?_, ?_⟩
          · exact fun ht => (hsame.timer ht).elim (fun h => by cases h)
              fun hu => Or.inr (hsame.dst ▸ hu)
          · exact fun h0 => absurd (hsame.nackCount.symm.trans h0) hleft
      · refine ⟨touches_segTxReset.length.trans (hlen₂ _), fun j hj =>
          (touches_segTxReset.others j hj).trans (hothers₂ _ j hj), Or.inl ?_⟩
        exact segTxReset_reset (by rw [hlen₂]; exact hi)

end Touches

/-! ## The history -/

section Log

variable {log new : List SegEvent} {m : ℕ} {msg : SentMsg} {cause : SegCause} {msgs : List SentMsg}

/-- Segments that are out stay out. -/
theorem AllOut.append (h : AllOut log m msg) (new : List SegEvent) : AllOut (log ++ new) m msg :=
  h.imp_right fun h o ho => List.mem_append_left _ (h o ho)

/-- Every end callback so far was right. -/
def LogOk (msgs : List SentMsg) (log : List SegEvent) : Prop :=
  ∀ k m cause, log[k]? = some (.ended m cause) → EndOk msgs (log.take k) m cause

/-- An end callback stays right when messages are added. -/
theorem EndOk.msgs_append (h : EndOk msgs log m cause) (more : List SentMsg) :
    EndOk (msgs ++ more) log m cause := by
  obtain ⟨honce, msg, hmsg, h⟩ := h
  refine ⟨honce, msg, ?_, h⟩
  rw [List.getElem?_append_left (List.getElem?_eq_some_iff.1 hmsg).1]
  exact hmsg

/-- Events that are no end callbacks. -/
theorem LogOk.append (h : LogOk msgs log) (new : List SegEvent)
    (hnew : ∀ m cause, .ended m cause ∉ new) :
    LogOk msgs (log ++ new) := by
  intro k m cause hk
  by_cases hlt : k < log.length
  · rw [List.getElem?_append_left hlt] at hk
    rw [List.take_append_of_le_length hlt.le]
    exact h k m cause hk
  · rw [List.getElem?_append_right (not_lt.1 hlt)] at hk
    exact absurd (List.mem_of_getElem? hk) (hnew m cause)

/-- A right end callback keeps the log right. -/
theorem LogOk.ended (h : LogOk msgs log) (hend : EndOk msgs log m cause) :
    LogOk msgs (log ++ [.ended m cause]) := by
  intro k m' cause' hk
  by_cases hlt : k < log.length
  · rw [List.getElem?_append_left hlt] at hk
    rw [List.take_append_of_le_length hlt.le]
    exact h k m' cause' hk
  · rw [List.getElem?_append_right (not_lt.1 hlt)] at hk
    have hzero : k - log.length = 0 := by
      by_contra hne
      rw [List.getElem?_eq_none (by simp; omega)] at hk
      cases hk
    rw [hzero] at hk
    cases hk
    rw [show k = log.length by omega, List.take_left]
    exact hend

end Log

/-- The message in a context, and what the context says about it. -/
structure HoldsMsg (log : List SegEvent) (m : ℕ) (msg : SentMsg) (c : SegTx) : Prop where
  seqAuth : c.seqAuth = msg.seqAuth
  segN : c.segN = msg.segN
  dst : c.dst = msg.dst ∨ (.ack m true c.dst ∈ log ∧ AllOut log m msg)
  timer : c.retransmit = true → AllOut log m msg

/-- A context with a message to a group: the message has one segment, and whatever is at the
advertiser for the context is that segment. -/
structure GroupAlone (adv : List AdvSeg) (m i : ℕ) (c : SegTx) : Prop where
  segN : c.segN = 0
  timer : c.retransmit = false
  adv : ∀ e ∈ adv, e.ctx = i → e.msg = m ∧ e.segO = 0

/-- The invariant. -/
structure SegHistInv (h : SegHistory) : Prop where
  owners : h.owner.length = h.tx.ctxs.length
  free : ∀ i, (h.tx.ctx i).nackCount = 0 → CtxReset (h.tx.ctx i)
  waiting : ∀ i, (h.tx.ctx i).cb = true →
    ∃ msg, h.msgs[h.ownerOf i]? = some msg ∧ HoldsMsg h.log (h.ownerOf i) msg (h.tx.ctx i)
  fresh : ∀ i, (h.tx.ctx i).cb = true → ∀ cause, .ended (h.ownerOf i) cause ∉ h.log
  distinct : ∀ i j, (h.tx.ctx i).cb = true → (h.tx.ctx j).cb = true →
    h.ownerOf i = h.ownerOf j → i = j
  groups : ∀ i, (h.tx.ctx i).cb = true → addrIsUnicast (h.tx.ctx i).dst = false →
    GroupAlone h.adv (h.ownerOf i) i (h.tx.ctx i)
  ended : ∀ m cause, .ended m cause ∈ h.log → m < h.msgs.length
  log : LogOk h.msgs h.log

section HoldsMsg

variable {log : List SegEvent} {m : ℕ} {msg : SentMsg} {c c' : SegTx}

/-- A context holds its message on while the log grows. -/
theorem HoldsMsg.append (h : HoldsMsg log m msg c) (new : List SegEvent) :
    HoldsMsg (log ++ new) m msg c :=
  ⟨h.seqAuth, h.segN, h.dst.imp_right fun h => ⟨List.mem_append_left _ h.1, h.2.append new⟩,
    fun ht => (h.timer ht).append new⟩

/-- A message to a group gets a unicast address in its context only when all its segments
are out. -/
theorem HoldsMsg.allOut (h : HoldsMsg log m msg c) (hu : addrIsUnicast c.dst = true) :
    AllOut log m msg := by
  rcases h.dst with hdst | ⟨_, hall⟩
  · exact Or.inl (hdst ▸ hu)
  · exact hall

/-- A context that keeps its message holds it on. -/
theorem HoldsMsg.same (h : HoldsMsg log m msg c) (hc : SameMsg c c') : HoldsMsg log m msg c' := by
  refine ⟨hc.seqAuth.trans h.seqAuth, hc.segN.trans h.segN, ?_, fun ht => ?_⟩
  · rw [hc.dst]
    exact h.dst
  · exact (hc.timer ht).elim h.timer h.allOut

end HoldsMsg

/-- The context keeps its message, and nothing is added for it at the advertiser. -/
theorem GroupAlone.same {adv adv' : List AdvSeg} {m i : ℕ} {c c' : SegTx} (h : GroupAlone adv m i c)
    (hc : SameMsg c c') (hgroup : addrIsUnicast c'.dst = false)
    (hadv : ∀ e ∈ adv', e.ctx = i → e ∈ adv) : GroupAlone adv' m i c' := by
  refine ⟨hc.segN.trans h.segN, ?_, fun e he hei => h.adv e (hadv e he hei) hei⟩
  rw [← Bool.not_eq_true]
  intro ht
  rcases hc.timer ht with ht | hu
  · simp [h.timer] at ht
  · rw [← hc.dst, hgroup] at hu
    cases hu

/-- A context is without a message at the start. -/
theorem ctxReset_zero : CtxReset SegTx.zero := ⟨rfl, rfl, rfl, rfl⟩

/-- The invariant holds at the start. -/
theorem SegHistInv.init (node : MeshNode) (count : ℕ) : SegHistInv (segHistoryInit node count) := by
  have hctx : ∀ i, (segHistoryInit node count).tx.ctx i = SegTx.zero := by
    intro i
    unfold segHistoryInit txInit TransTx.ctx
    rw [List.getD_eq_getElem?_getD, List.getElem?_replicate]
    split <;> rfl
  have hcb : ∀ i, ¬ ((segHistoryInit node count).tx.ctx i).cb = true := by
    intro i hi
    rw [hctx] at hi
    cases hi
  refine
    { owners := by simp [segHistoryInit, txInit]
      free := fun i _ => hctx i ▸ ctxReset_zero
      waiting := fun i hi => absurd hi (hcb i)
      fresh := fun i hi => absurd hi (hcb i)
      distinct := fun i _ hi => absurd hi (hcb i)
      groups := fun i hi => absurd hi (hcb i)
      ended := fun m cause h => by cases h
      log := fun k m cause h => by simp [segHistoryInit] at h }

/-! ### Events -/

section Events

variable {cfg : TxCfg} {h : SegHistory} {now : ℤ}

/-- What an event that changes one context has to show: the context keeps its message, or
its end callback is called and right. -/
theorem SegHistInv.event {tx : TransTx} {adv : List AdvSeg} {new : List SegEvent} {i : ℕ}
    {cause : SegCause} (hinv : SegHistInv h) (hlen : tx.ctxs.length = h.tx.ctxs.length)
    (hothers : ∀ j, j ≠ i → tx.ctx j = h.tx.ctx j) (hnew : ∀ m cause, .ended m cause ∉ new)
    (hself : CtxReset (tx.ctx i) ∨ ((tx.ctx i).cb = (h.tx.ctx i).cb ∧
      ((tx.ctx i).nackCount = 0 → (h.tx.ctx i).nackCount = 0 ∧ SameMsg (h.tx.ctx i) (tx.ctx i)) ∧
      ((h.tx.ctx i).cb = true → ∀ msg, HoldsMsg h.log (h.ownerOf i) msg (h.tx.ctx i) →
        HoldsMsg (h.log ++ new) (h.ownerOf i) msg (tx.ctx i))))
    (hadv : ∀ e ∈ adv, e ∈ h.adv ∨ e.ctx = i)
    (hgroup : (tx.ctx i).cb = true → addrIsUnicast (tx.ctx i).dst = false →
      GroupAlone adv (h.ownerOf i) i (tx.ctx i))
    (hend : (h.tx.ctx i).cb = true → ¬ (tx.ctx i).cb = true →
      ∀ msg, HoldsMsg h.log (h.ownerOf i) msg (h.tx.ctx i) →
        EventOf (h.log ++ new) (h.ownerOf i) msg cause ∧ AllOut (h.log ++ new) (h.ownerOf i) msg) :
    SegHistInv { h with tx := tx, adv := adv, log := h.log ++ new ++ h.endedBy tx i cause } := by
  have hcb : ∀ j, (tx.ctx j).cb = true → (h.tx.ctx j).cb = true := by
    intro j hj
    by_cases hji : j = i
    · subst hji
      rcases hself with hreset | ⟨hcb, _⟩
      · simp [hreset.cb] at hj
      · rwa [← hcb]
    · rwa [← hothers j hji]
  have hended : ∀ m cause', .ended m cause' ∈ h.log ++ new ++ h.endedBy tx i cause →
      .ended m cause' ∈ h.log ∨
        (m = h.ownerOf i ∧ (h.tx.ctx i).cb = true ∧ ¬ (tx.ctx i).cb = true) := by
    intro m cause' hm
    unfold SegHistory.endedBy at hm
    split at hm
    · next hcond =>
        rcases List.mem_append.1 hm with hm | hm
        · exact Or.inl ((List.mem_append.1 hm).resolve_right (hnew m cause'))
        · cases List.mem_singleton.1 hm
          exact Or.inr ⟨rfl, hcond⟩
    · rw [List.append_nil] at hm
      exact Or.inl ((List.mem_append.1 hm).resolve_right (hnew m cause'))
  refine
    { owners := hinv.owners.trans hlen.symm
      free := ?_
      waiting := ?_
      fresh := ?_
      distinct := fun j k hj hk => hinv.distinct j k (hcb j hj) (hcb k hk)
      groups := ?_
      ended := ?_
      log := ?_ }
  · intro j hzero
    by_cases hji : j = i
    · subst hji
      rcases hself with hreset | ⟨_, hnack, _⟩
      · exact hreset
      · obtain ⟨hzero', hsame⟩ := hnack hzero
        exact (hinv.free j hzero').same hsame
    · change (tx.ctx j).nackCount = 0 at hzero
      change CtxReset (tx.ctx j)
      rw [hothers j hji] at hzero ⊢
      exact hinv.free j hzero
  · intro j hj
    obtain ⟨msg, hmsg, hw⟩ := hinv.waiting j (hcb j hj)
    refine ⟨msg, hmsg, ?_⟩
    by_cases hji : j = i
    · subst hji
      rcases hself with hreset | ⟨_, _, hwait⟩
      · rw [hreset.cb] at hj
        cases hj
      · exact (hwait (hcb j hj) msg hw).append _
    · change HoldsMsg _ _ _ (tx.ctx j)
      rw [hothers j hji]
      exact (hw.append new).append _
  · intro j hj cause' hm
    rcases hended _ _ hm with hm | ⟨howner, hi, hni⟩
    · exact hinv.fresh j (hcb j hj) cause' hm
    · obtain rfl := hinv.distinct j i (hcb j hj) hi howner
      exact hni hj
  · intro j hj hu
    by_cases hji : j = i
    · subst hji
      exact hgroup hj hu
    · change GroupAlone adv _ _ (tx.ctx j)
      have hu : addrIsUnicast (tx.ctx j).dst = false := hu
      rw [hothers j hji] at hu ⊢
      refine (hinv.groups j (hcb j hj) hu).same (.refl _) hu fun e he hej => ?_
      exact (hadv e he).resolve_right fun hei => hji (hej.symm.trans hei)
  · intro m cause' hm
    rcases hended m cause' hm with hm | ⟨rfl, hi, _⟩
    · exact hinv.ended m cause' hm
    · obtain ⟨msg, hmsg, _⟩ := hinv.waiting i hi
      exact (List.getElem?_eq_some_iff.1 hmsg).1
  · have hlog := hinv.log.append _ hnew
    unfold SegHistory.endedBy
    split
    · next hcond =>
        obtain ⟨msg, hmsg, hw⟩ := hinv.waiting i hcond.1
        refine hlog.ended ⟨?_, msg, hmsg, hend hcond.1 hcond.2 msg hw⟩
        intro cause' hm
        exact hinv.fresh i hcond.1 cause' ((List.mem_append.1 hm).resolve_right (hnew _ _))
    · rwa [List.append_nil]

/-- The case that the context is reset or keeps its message. -/
theorem SegHistInv.touched {tx : TransTx} {i : ℕ} (hinv : SegHistInv h) (adv : List AdvSeg)
    (new : List SegEvent) (cause : SegCause) (htouch : Touches h.tx tx i)
    (hnew : ∀ m cause, .ended m cause ∉ new)
    (hadv : ∀ e ∈ adv, e ∈ h.adv ∨ (e.ctx = i ∧ (h.tx.ctx i).retransmit = true))
    (hend : (h.tx.ctx i).cb = true → ¬ (tx.ctx i).cb = true →
      ∀ msg, HoldsMsg h.log (h.ownerOf i) msg (h.tx.ctx i) →
        EventOf (h.log ++ new) (h.ownerOf i) msg cause ∧ AllOut (h.log ++ new) (h.ownerOf i) msg) :
    SegHistInv { h with tx := tx, adv := adv, log := h.log ++ new ++ h.endedBy tx i cause } := by
  refine hinv.event htouch.length htouch.others hnew ?_ (fun e he => (hadv e he).imp_right And.left) ?_
    hend
  · refine htouch.self.imp_right fun hsame => ⟨hsame.cb, fun h0 => ?_, fun _ msg hw => ?_⟩
    · exact ⟨hsame.nackCount.symm.trans h0, hsame⟩
    · exact (hw.same hsame).append new
  · intro hcb hu
    rcases htouch.self with hreset | hsame
    · simp [hreset.cb] at hcb
    · have hold := hinv.groups i (hsame.cb ▸ hcb) (hsame.dst ▸ hu)
      refine hold.same hsame hu fun e he _ => (hadv e he).resolve_right fun hrun => ?_
      simp [hold.timer] at hrun

/-- The invariant holds on when a segment's callback comes. -/
theorem SegHistInv.sent {k : ℕ} {e : AdvSeg} (hinv : SegHistInv h) (he : h.adv[k]? = some e) :
    SegHistInv (h.sent cfg k e now) := by
  have htouch : Touches h.tx (segSent cfg h.tx e.ctx now) e.ctx := touches_segSent
  have hstep := hinv.touched (h.adv.eraseIdx k) [.out e.msg e.segO] (.sent e.msg e.segO) htouch
    (by simp) (fun e he => Or.inl (List.mem_of_mem_eraseIdx he)) ?_
  · simpa [SegHistory.sent] using hstep
  · intro hcb hncb msg hw
    have hgroup : addrIsUnicast (h.tx.ctx e.ctx).dst = false := by
      rw [← Bool.not_eq_true]
      exact fun hu => hncb ((segSent_same hu).cb.trans hcb)
    -- the segment is the only one of the message that waits
    have halone := hinv.groups e.ctx hcb hgroup
    obtain ⟨howner, hseg⟩ := halone.adv e (List.mem_of_getElem? he) rfl
    rw [← howner]
    refine ⟨rfl, Or.inr fun o ho => ?_⟩
    rw [← hw.segN, halone.segN] at ho
    rw [Nat.le_zero.1 ho, hseg]
    exact List.mem_append_right _ (List.mem_singleton_self _)

/-- The invariant holds on when the timer of a context fires. -/
theorem SegHistInv.retransmit {i : ℕ} {env : ℕ → ResendEnv} {again : List ℕ} (hinv : SegHistInv h)
    (hrun : (h.tx.ctx i).retransmit = true) :
    SegHistInv (h.retransmit cfg i env again now) := by
  have htimer : Touches h.tx (h.tx.setCtx i { h.tx.ctx i with retransmit := false }) i :=
    Touches.set rfl (Or.inr ⟨rfl, rfl, rfl, rfl, rfl, fun ht => by cases ht⟩)
  have htouch := htimer.trans (touches_sendUnackedLoop
    (List.range (((h.tx.setCtx i { h.tx.ctx i with retransmit := false }).ctx i).segN + 1)) :
      Touches _ (sendUnackedLoop cfg env now i _ _) i)
  have hstep := hinv.touched (h.adv ++ again.map (⟨i, h.ownerOf i, ·⟩)) []
    (.retransmit (h.ownerOf i)) htouch (by simp) ?_ ?_
  · rw [List.append_nil] at hstep
    exact hstep
  · intro e he
    refine (List.mem_append.1 he).imp_right fun he => ?_
    obtain ⟨o, -, rfl⟩ := List.mem_map.1 he
    exact ⟨rfl, hrun⟩
  · exact fun _ _ msg hw => ⟨rfl, (hw.timer hrun).append _⟩

/-- The invariant holds on when an acknowledgement comes from a unicast source, unless it finds a waiting
group message. -/
theorem SegHistInv.ack {src : ℕ} {friendMatch : Bool} {buf : List UInt8} {env : ℕ → ResendEnv}
    {again : List ℕ} (hinv : SegHistInv h)
    (hsource : addrIsUnicast src = true)
    (hok : ∀ i ∈ ackCtx h.tx src friendMatch buf,
      (h.tx.ctx i).cb = true → addrIsUnicast (h.tx.ctx i).dst = true) :
    SegHistInv (h.ack cfg src friendMatch buf env again now) := by
  unfold SegHistory.ack
  dsimp only
  split
  · next hnone =>
      have hctxs : (transAck cfg h.tx src friendMatch buf env now).ctxs = h.tx.ctxs :=
        transAck_none hnone
      have hctx := fun i => ctx_of_ctxs hctxs i
      exact
        { owners := hinv.owners.trans (by rw [hctxs])
          free := fun i => by rw [hctx]; exact hinv.free i
          waiting := fun i => by rw [hctx]; exact hinv.waiting i
          fresh := fun i => by rw [hctx]; exact hinv.fresh i
          distinct := fun i j => by rw [hctx, hctx]; exact hinv.distinct i j
          groups := fun i => by rw [hctx]; exact hinv.groups i
          ended := hinv.ended
          log := hinv.log }
  · next i hsome =>
      have hacked := hok i hsome
      have hack : _ ∧ _ ∧ (transAck cfg h.tx src friendMatch buf env now).ctxs.length = _ ∧ _ :=
        transAck_some hsome
      obtain ⟨hseq, hsrc, hlen, hothers, hself⟩ := hack
      -- the message of the context, as the acknowledgement finds it
      have hwait : (h.tx.ctx i).cb = true → ∀ msg,
          HoldsMsg h.log (h.ownerOf i) msg (h.tx.ctx i) → AllOut h.log (h.ownerOf i) msg :=
        fun hcb msg hw => hw.allOut (hacked hcb)
      refine hinv.event hlen hothers ?_ ?_ ?_ ?_ ?_
      · intro m cause hm
        split at hm
        · simp at hm
        · cases hm
      · refine hself.imp_right ?_
        rintro ⟨hcb, hseqAuth, hsegN, hdst, htimer, hnack⟩
        refine ⟨hcb, fun h0 => ?_, fun hcb' msg hw => ?_⟩
        · have hsame := hnack h0
          rw [hsame] at h0 ⊢
          exact ⟨h0, .refl _⟩
        · have hall := (hwait hcb' msg hw).append
            (if (h.tx.ctx i).cb = true then [SegEvent.ack (h.ownerOf i) (ackObo buf) src] else [])
          refine ⟨hseqAuth.trans hw.seqAuth, hsegN.trans hw.segN, ?_, fun _ => hall⟩
          rw [hdst]
          rcases hsrc with hsrc | hobo
          · rw [← hsrc]
            exact hw.dst.imp_right fun h => ⟨List.mem_append_left _ h.1, h.2.append _⟩
          · refine Or.inr ⟨?_, hall⟩
            rw [if_pos hcb', hobo]
            exact List.mem_append_right _ (by simp)
      · intro e he
        refine (List.mem_append.1 he).imp_right fun he => ?_
        obtain ⟨o, -, rfl⟩ := List.mem_map.1 he
        rfl
      · intro hcb hu
        rcases hself with hreset | ⟨-, -, -, hdst, -, -⟩
        · simp [hreset.cb] at hcb
        · rw [hdst, hsource] at hu
          cases hu
      · intro hcb _ msg hw
        refine ⟨⟨by rw [← hw.seqAuth]; exact hseq.symm, ?_⟩, (hwait hcb msg hw).append _⟩
        rcases hsrc with hsrc | hobo
        · rw [← hsrc]
          exact hw.dst.imp_right fun h => List.mem_append_left _ h.1
        · rw [if_pos hcb, hobo]
          exact Or.inr (List.mem_append_right _ (by simp))

end Events

/-! ### A new message -/

/-- An end callback of `send_seg` is that of its own message. -/
theorem ended_mem_sendLog {m m' : ℕ} {ended : Bool} {cause : SegCause} {l : List ℕ}
    (h : .ended m' cause ∈ sendLog m ended l) : m' = m ∧ ended = true := by
  cases l with
  | nil => cases h
  | cons o l =>
    cases ended with
    | false => simp [sendLog] at h
    | true =>
      simp only [sendLog, if_true, List.singleton_append, List.mem_cons, List.mem_map,
        reduceCtorEq, and_false, exists_false, or_false, false_or, SegEvent.ended.injEq] at h
      exact ⟨h.1, rfl⟩

/-- The end callback of a message that is complete at once. -/
theorem LogOk.send {msgs : List SentMsg} {log : List SegEvent} {msg : SentMsg} {ended : Bool}
    {l : List ℕ} (h : LogOk msgs log) (hbound : ∀ m cause, .ended m cause ∈ log → m < msgs.length)
    (hone : ended = true → msg.segN = 0 ∧ ∀ o ∈ l, o = 0) :
    LogOk (msgs ++ [msg]) (log ++ sendLog msgs.length ended l) := by
  have hold : LogOk (msgs ++ [msg]) log := fun k m cause hk => (h k m cause hk).msgs_append [msg]
  cases ended with
  | false => exact hold.append _ fun m cause hm => by simpa using (ended_mem_sendLog hm).2
  | true =>
    cases l with
    | nil => simpa [sendLog] using hold
    | cons o l =>
      obtain ⟨hsegN, hzero⟩ := hone rfl
      have hend : EndOk (msgs ++ [msg]) (log ++ [.out msgs.length o]) msgs.length
          (.sent msgs.length o) := by
        refine ⟨fun cause hm => ?_, msg, by simp, rfl, Or.inr fun o' ho' => ?_⟩
        · simp only [List.mem_append, List.mem_singleton, reduceCtorEq, or_false] at hm
          exact absurd (hbound _ _ hm) (lt_irrefl _)
        · rw [hzero o (by simp), show o' = 0 by omega]
          simp
      have hfirst := (hold.append [.out msgs.length o] (by simp)).ended hend
      have hall := hfirst.append (l.map (.out msgs.length)) (by simp)
      simpa [sendLog] using hall

/-- A new message takes a free context. -/
theorem SegHistInv.newMessage {h : SegHistory} {tx : TransTx} {i : ℕ} {p : SegSdu}
    {adv : List AdvSeg} {ended : Bool} {l : List ℕ} (hinv : SegHistInv h)
    (hi : i < h.tx.ctxs.length) (hfree : (h.tx.ctx i).retransmit = false)
    (hlen : tx.ctxs.length = h.tx.ctxs.length) (hothers : ∀ j, j ≠ i → tx.ctx j = h.tx.ctx j)
    (hself : CtxStep (startCtx h.tx p i) (tx.ctx i))
    (hended : ended = true → (tx.ctx i).cb = false)
    (hone : ended = true → p.segN = 0 ∧ ∀ o ∈ l, o = 0)
    (hadv : ∀ e ∈ adv, e ∈ h.adv ∨ e.ctx = i ∧ e.msg = h.msgs.length ∧ e.segO ≤ p.segN)
    (hgroup : addrIsUnicast p.dst = false → p.segN = 0 ∧ ∀ e ∈ h.adv, e.ctx ≠ i) :
    SegHistInv
      { tx := tx
        owner := h.owner.set i h.msgs.length
        msgs := h.msgs ++
          [⟨p.dst, p.segN, seqAuthOf h.tx.node.net.iviTx.toNat h.tx.node.net.seq⟩]
        adv := adv
        log := h.log ++ sendLog h.msgs.length ended l } := by
  have hnew : ∀ m cause, .ended m cause ∈ h.log ++ sendLog h.msgs.length ended l →
      .ended m cause ∈ h.log ∨ (m = h.msgs.length ∧ ended = true) := fun m cause hm =>
    (List.mem_append.1 hm).imp_right ended_mem_sendLog
  have howner : (h.owner.set i h.msgs.length).getD i 0 = h.msgs.length := by
    rw [List.getD_eq_getElem?_getD, List.getElem?_set_self (hinv.owners ▸ hi)]
    rfl
  have hotherOwner : ∀ j, j ≠ i → (h.owner.set i h.msgs.length).getD j 0 = h.ownerOf j := by
    intro j hj
    unfold SegHistory.ownerOf
    rw [List.getD_eq_getElem?_getD, List.getElem?_set_ne (Ne.symm hj),
      ← List.getD_eq_getElem?_getD]
  have hbound : ∀ j, (h.tx.ctx j).cb = true → h.ownerOf j < h.msgs.length := by
    intro j hj
    obtain ⟨msg, hmsg, _⟩ := hinv.waiting j hj
    exact (List.getElem?_eq_some_iff.1 hmsg).1
  refine
    { owners := by rw [List.length_set, hinv.owners, hlen]
      free := ?_
      waiting := ?_
      fresh := ?_
      distinct := ?_
      groups := ?_
      ended := ?_
      log := hinv.log.send hinv.ended hone }
  all_goals simp only [SegHistory.ownerOf]
  · intro j h0
    by_cases hji : j = i
    · subst hji
      refine hself.resolve_right fun hsame => ?_
      have := hsame.nackCount.symm.trans h0
      simp [startCtx] at this
    · rw [hothers j hji] at h0 ⊢
      exact hinv.free j h0
  · intro j hj
    by_cases hji : j = i
    · subst hji
      rw [howner]
      refine ⟨⟨p.dst, p.segN, seqAuthOf h.tx.node.net.iviTx.toNat h.tx.node.net.seq⟩, by simp, ?_⟩
      rcases hself with hreset | hsame
      · simp [hreset.cb] at hj
      · refine ⟨hsame.seqAuth, hsame.segN, Or.inl hsame.dst, fun ht => ?_⟩
        rcases hsame.timer ht with ht | hu
        · simp [startCtx, hfree] at ht
        · exact Or.inl hu
    · rw [hothers j hji] at hj ⊢
      rw [hotherOwner j hji]
      obtain ⟨msg, hmsg, hw⟩ := hinv.waiting j hj
      refine ⟨msg, ?_, hw.append _⟩
      rw [List.getElem?_append_left (hbound j hj)]
      exact hmsg
  · intro j hj cause hm
    by_cases hji : j = i
    · subst hji
      rw [howner] at hm
      rcases hnew _ _ hm with hm | ⟨_, he⟩
      · exact absurd (hinv.ended _ _ hm) (lt_irrefl _)
      · simp [hended he] at hj
    · rw [hothers j hji] at hj
      rw [hotherOwner j hji] at hm
      rcases hnew _ _ hm with hm | ⟨hm, _⟩
      · exact hinv.fresh j hj cause hm
      · exact absurd (hbound j hj) (by omega)
  · intro j k hj hk hjk
    by_cases hji : j = i
    · by_cases hki : k = i
      · exact hji.trans hki.symm
      · rw [hothers k hki] at hk
        rw [hji, howner, hotherOwner k hki] at hjk
        exact absurd (hbound k hk) (by omega)
    · rw [hothers j hji] at hj
      by_cases hki : k = i
      · rw [hki, howner, hotherOwner j hji] at hjk
        exact absurd (hbound j hj) (by omega)
      · rw [hothers k hki] at hk
        rw [hotherOwner j hji, hotherOwner k hki] at hjk
        exact hinv.distinct j k hj hk hjk
  · intro j hj hu
    by_cases hji : j = i
    · subst hji
      rw [howner]
      rcases hself with hreset | hsame
      · simp [hreset.cb] at hj
      · have hdst : (tx.ctx j).dst = p.dst := hsame.dst
        obtain ⟨hsegN, halone⟩ := hgroup (hdst ▸ hu)
        refine ⟨hsame.segN.trans hsegN, ?_, fun e he hej => ?_⟩
        · rw [← Bool.not_eq_true]
          intro ht
          rcases hsame.timer ht with ht | hu'
          · simp [startCtx, hfree] at ht
          · rw [show (startCtx h.tx p j).dst = (tx.ctx j).dst from hdst.symm, hu] at hu'
            cases hu'
        · rcases hadv e he with he | ⟨-, hmsg, hseg⟩
          · exact absurd hej (halone e he)
          · rw [hsegN] at hseg
            exact ⟨hmsg, Nat.le_zero.1 hseg⟩
    · rw [hothers j hji] at hj hu ⊢
      rw [hotherOwner j hji]
      refine (hinv.groups j hj hu).same (.refl _) hu fun e he hej => ?_
      exact (hadv e he).resolve_right fun hnew => hji (hej.symm.trans hnew.1)
  · intro m cause hm
    rw [List.length_append, List.length_singleton]
    rcases hnew m cause hm with hm | ⟨rfl, _⟩
    · exact (hinv.ended m cause hm).trans (Nat.lt_succ_self _)
    · exact Nat.lt_succ_self _

/-- The invariant holds on when a message is sent, if a group message has one segment and takes a context
with none at the advertiser. -/
theorem SegHistInv.send {cfg : TxCfg} {h : SegHistory} {p : SegSdu} {env : ℕ → SegEnv} {now : ℤ}
    (hinv : SegHistInv h)
    (hok : addrIsUnicast p.dst = false →
      p.segN = 0 ∧ ∀ i ∈ freeCtx h.tx, ∀ e ∈ h.adv, e.ctx ≠ i) :
    SegHistInv (h.send cfg p env now) := by
  unfold SegHistory.send
  dsimp only
  split
  · next href => simpa [sendSeg_refused href] using hinv
  · next hlen =>
      split
      · next hnone => simpa [sendSeg_none hnone] using hinv
      · next i hsome =>
          rw [sendSeg_some hlen hsome]
          obtain ⟨hi, hzero, -⟩ := List.findIdx?_eq_some_iff_getElem.1 hsome
          have hctx : h.tx.ctx i = h.tx.ctxs[i] := by
            unfold TransTx.ctx
            rw [List.getD_eq_getElem _ _ hi]
          have hfree : CtxReset (h.tx.ctx i) := hinv.free i (by rw [hctx]; simpa using hzero)
          have hset : (h.tx.setCtx i (startCtx h.tx p i)).ctxs =
            h.tx.ctxs.set i (startCtx h.tx p i) := rfl
          generalize h.tx.setCtx i (startCtx h.tx p i) = s at hset ⊢
          have hstart : s.ctx i = startCtx h.tx p i := ctx_set hset hi
          generalize seqAuthOf h.tx.node.net.iviTx.toNat h.tx.node.net.seq % 2 ^ 13 = seqZero
          have htouch : Touches s (sendSegLoop cfg p env now seqZero i (List.range (p.segN + 1))
            s).2.2 i := touches_sendSegLoop _
          have hhanded : (sendSegLoop cfg p env now seqZero i (List.range (p.segN + 1)) s).2.1.length ≤
              (List.range (p.segN + 1)).length := handed_length _
          rw [List.length_range] at hhanded
          have hsame : NotAtOnce cfg p → (sendSegLoop cfg p env now seqZero i
              (List.range (p.segN + 1)) s).1 = .ok → SameMsg (s.ctx i) ((sendSegLoop cfg p env now
                seqZero i (List.range (p.segN + 1)) s).2.2.ctx i) := fun hp hr =>
            sendSegLoop_same hp _ (by rw [hstart]; rfl) hr
          generalize sendSegLoop cfg p env now seqZero i (List.range (p.segN + 1)) s = r
            at htouch hhanded hsame ⊢
          have haccepted {o : ℕ} (ho : o ∈ List.range (if r.1 = .netErr then r.2.1.length - 1 else
              r.2.1.length)) : o ≤ p.segN := by
            have := List.mem_range.1 ho
            split at this <;> omega
          refine hinv.newMessage hi hfree.retransmit ?_ ?_ (hstart ▸ htouch.self) ?_ ?_ ?_ ?_
          · rw [htouch.length, hset, List.length_set]
          · exact fun j hj => (htouch.others j hj).trans (ctx_set_ne hset hj)
          · intro he
            simpa using (of_decide_eq_true he).2
          · intro he
            obtain ⟨hr, hcb⟩ := of_decide_eq_true he
            have hsegN : p.segN = 0 := by
              by_contra hne
              refine hcb ((hsame (fun hlocal => ?_) hr).cb.trans (by rw [hstart]; rfl))
              by_contra hu
              exact hne (hok (by simpa using hu)).1
            refine ⟨hsegN, fun o ho => ?_⟩
            have hle := haccepted (List.mem_filter.1 ho).1
            omega
          · intro e he
            refine (List.mem_append.1 he).imp_right fun he => ?_
            obtain ⟨o, ho, rfl⟩ := List.mem_map.1 he
            exact ⟨rfl, rfl, haccepted (List.mem_filter.1 ho).1⟩
          · exact fun hu => (hok hu).imp_right fun halone => halone i hsome

/-- Every step that meets the condition keeps the invariant. -/
theorem SegHistInv.step {cfg : TxCfg} {h h' : SegHistory} {a : SegAct} (hinv : SegHistInv h)
    (hok : SegsOk h a) (hs : segHistoryStep cfg h a = some h') : SegHistInv h' := by
  cases a with
  | send p env now =>
    cases hs
    exact hinv.send hok
  | sent k now =>
    simp only [segHistoryStep] at hs
    split at hs
    · cases hs
    · next e he =>
        cases hs
        exact hinv.sent he
  | ack src friendMatch buf env again now =>
    cases hs
    exact hinv.ack hok.1 hok.2
  | retransmit i env again now =>
    simp only [segHistoryStep] at hs
    split at hs
    · next hrun =>
        cases hs
        exact hinv.retransmit hrun
    · cases hs

/-- **Completions are right.** In a run every step of which meets the condition, the end callback of
a message is called at most once, by an event of this message, and for a group or virtual address
only after all its segments are out. -/
theorem completions_right {cfg : TxCfg} {node : MeshNode} {count : ℕ} {as : List SegAct}
    {h : SegHistory} (hmeet : StepsMeet (segHistoryStep cfg) SegsOk (segHistoryInit node count) as)
    (hrun : runSteps (segHistoryStep cfg) (segHistoryInit node count) as = some h) (k m : ℕ)
    (cause : SegCause) (hk : h.log[k]? = some (.ended m cause)) :
    EndOk h.msgs (h.log.take k) m cause :=
  (runSteps_inv (fun _ _ _ hinv hok hs => hinv.step hok hs) (SegHistInv.init node count) hmeet
    hrun).log k m cause hk

/-- A context for one message, of a node that is in no group. -/
def oneContext : TxCfg := ⟨false, fun _ => false⟩

/-- Two segments to a unicast address, both of them acknowledged, and a message of one segment to a
group. -/
theorem completions_right_unicast_and_group : ∃ h,
    runSteps (segHistoryStep oneContext) (segHistoryInit (meshProvisioned 1 0 0 0) 1)
      [.send twoSegments goodEnv 0, .sent 0 0, .sent 0 0,
        .ack 2 false [0, 0, 0, 0, 0, 3] (fun _ => ⟨false, true, true⟩) [] 0,
        .send { twoSegments with dst := 0xC000, sdu := [1, 2, 3] } goodEnv 0, .sent 0 0] = some h ∧
    h.log[3]? = some (.ended 0 (.ack 0 2)) ∧
    EndOk h.msgs (h.log.take 3) 0 (.ack 0 2) ∧
    h.log[5]? = some (.ended 1 (.sent 1 0)) ∧ EndOk h.msgs (h.log.take 5) 1 (.sent 1 0) := by
  have hmeet : StepsMeet (segHistoryStep oneContext) SegsOk
      (segHistoryInit (meshProvisioned 1 0 0 0) 1)
      [.send twoSegments goodEnv 0, .sent 0 0, .sent 0 0,
        .ack 2 false [0, 0, 0, 0, 0, 3] (fun _ => ⟨false, true, true⟩) [] 0,
        .send { twoSegments with dst := 0xC000, sdu := [1, 2, 3] } goodEnv 0, .sent 0 0] := by
    decide +kernel
  refine ⟨_, rfl, by decide +kernel, ?_, by decide +kernel, ?_⟩
  · exact completions_right hmeet rfl 3 0 _ (by decide +kernel)
  · exact completions_right hmeet rfl 5 1 _ (by decide +kernel)

/-- Two messages to groups, one after the other in the same context. The first one is complete when
its first segment is out; its second segment completes the second message, none of whose segments is
out. -/
theorem completions_wrong : ∃ h,
    runSteps (segHistoryStep oneContext) (segHistoryInit (meshProvisioned 1 0 0 0) 1)
      [.send { twoSegments with dst := 0xC000 } goodEnv 0, .sent 0 0,
        .send { twoSegments with dst := 0xC001 } goodEnv 0, .sent 0 0] = some h ∧
    h.log = [.out 0 0, .ended 0 (.sent 0 0), .out 0 1, .ended 1 (.sent 0 1)] ∧
    ¬ EndOk h.msgs (h.log.take 1) 0 (.sent 0 0) ∧ ¬ EndOk h.msgs (h.log.take 3) 1 (.sent 0 1) := by
  obtain ⟨h, hrun, hlog, hmsgs⟩ : ∃ h,
      runSteps (segHistoryStep oneContext) (segHistoryInit (meshProvisioned 1 0 0 0) 1)
        [.send { twoSegments with dst := 0xC000 } goodEnv 0, .sent 0 0,
          .send { twoSegments with dst := 0xC001 } goodEnv 0, .sent 0 0] = some h ∧
      h.log = [.out 0 0, .ended 0 (.sent 0 0), .out 0 1, .ended 1 (.sent 0 1)] ∧
      h.msgs = [⟨0xC000, 1, 0⟩, ⟨0xC001, 1, 2⟩] :=
    ⟨_, rfl, by decide +kernel, by decide +kernel⟩
  refine ⟨h, hrun, hlog, ?_, ?_⟩
  · rw [hlog, hmsgs]
    rintro ⟨_, msg, hmsg, _, hall⟩
    cases hmsg
    rcases hall with hu | hall
    · cases hu
    · simpa using hall 1 le_rfl
  · rintro ⟨_, msg, _, hevent, _⟩
    cases hevent

end GenieSdk.Analysis
