import GenieSdk.Analysis.SegRoundTrip

/-!
# Segments that wait for an acknowledgement

`nack_count` is set for all segments before the first one exists, so while `send_seg` fills a context
the count is ahead (`Filling`). It is right again afterwards (`CtxOk`) unless the loop is left early or
a callback resets the context in the middle of it: if the Friend queue takes a segment that is not the
last one, or if several segments go to an address of the node itself that is not unicast.
-/

set_option autoImplicit false

namespace GenieSdk.Analysis

open GenieSdk.Model
open GenieSdk.Lib

section Contexts

/-- The count of a context is right, and behind the last segment there is nothing. -/
structure CtxOk (c : SegTx) : Prop where
  length : c.seg.length = btMeshTxSegCount
  segN : c.segN < btMeshTxSegCount
  count : c.nackCount = c.seg.countP Option.isSome
  behind : ∀ k, c.segN < k → c.seg.getD k none = none

/-- The first `o` segments are there. -/
structure Filling (p : SegSdu) (o : ℕ) (c : SegTx) : Prop where
  length : c.seg.length = btMeshTxSegCount
  segN : c.segN = p.segN
  nackCount : c.nackCount = p.segN + 1
  dst : c.dst = p.dst
  count : c.seg.countP Option.isSome = o
  behind : ∀ k, o ≤ k → c.seg.getD k none = none

variable {p : SegSdu} {o : ℕ} {c : SegTx} {b : SegBuf}

/-- Nothing is there. -/
theorem countP_zero_iff {l : List (Option SegBuf)} :
    l.countP Option.isSome = 0 ↔ ∀ k, l.getD k none = none := by
  rw [List.countP_eq_zero]
  constructor
  · intro h k
    rw [List.getD_eq_getElem?_getD]
    cases hk : l[k]? with
    | none => rfl
    | some x =>
      have := h x (List.mem_of_getElem? hk)
      rw [Bool.not_eq_true, Option.isSome_eq_false_iff, Option.isNone_iff_eq_none] at this
      exact this
  · intro h x hx
    obtain ⟨k, hk⟩ := List.mem_iff_getElem?.1 hx
    have := h k
    rw [List.getD_eq_getElem?_getD, hk] at this
    rw [show x = none from this]
    simp

/-- One entry is changed. -/
theorem countP_set {l : List (Option SegBuf)} {k : ℕ} (x : Option SegBuf) (hk : k < l.length) :
    (l.set k x).countP Option.isSome + (if (l.getD k none).isSome then 1 else 0) =
      l.countP Option.isSome + (if x.isSome then 1 else 0) := by
  have hget : l[k]? = some (l.getD k none) := by
    rw [List.getD_eq_getElem _ _ hk]
    exact List.getElem?_eq_getElem hk
  exact countP_set_add x Option.isSome hget

/-- Setting one entry leaves the others. -/
theorem getD_set {l : List (Option SegBuf)} {k j : ℕ} (x : Option SegBuf) (h : k ≠ j) :
    (l.set k x).getD j none = l.getD j none := by
  rw [List.getD_eq_getElem?_getD, List.getD_eq_getElem?_getD, List.getElem?_set_ne h]

/-- What the count says about the segments of the message. -/
theorem CtxOk.nack (h : CtxOk c) :
    c.nackCount = (c.seg.take (c.segN + 1)).countP Option.isSome ∧
      (c.nackCount = 0 → ∀ x ∈ c.seg, x = none) := by
  have hrest : (c.seg.drop (c.segN + 1)).countP Option.isSome = 0 := by
    rw [countP_zero_iff]
    intro k
    rw [List.getD_eq_getElem?_getD, List.getElem?_drop, ← List.getD_eq_getElem?_getD]
    exact h.behind _ (by omega)
  constructor
  · rw [h.count]
    conv_lhs => rw [← List.take_append_drop (c.segN + 1) c.seg, List.countP_append, hrest]
    rfl
  · intro hzero x hx
    rw [h.count, List.countP_eq_zero] at hzero
    have := hzero x hx
    rw [Bool.not_eq_true, Option.isSome_eq_false_iff, Option.isNone_iff_eq_none] at this
    exact this

/-- A context with all its segments is right. -/
theorem Filling.ctxOk (h : Filling p (p.segN + 1) c) (hn : p.segN < btMeshTxSegCount) : CtxOk c := by
  refine ⟨h.length, h.segN ▸ hn, h.nackCount.trans h.count.symm, ?_⟩
  intro k hk
  rw [h.segN] at hk
  exact h.behind k hk

/-- The next segment is there. -/
theorem Filling.next (h : Filling p o c) (ho : o < btMeshTxSegCount) (b : SegBuf) :
    Filling p (o + 1) { c with seg := c.seg.set o (some b) } := by
  refine ⟨?_, h.segN, h.nackCount, h.dst, ?_, ?_⟩
  · rw [List.length_set]
    exact h.length
  · have hset := countP_set (some b) (show o < c.seg.length by rw [h.length]; exact ho)
    rw [h.behind o le_rfl, h.count] at hset
    exact hset
  · intro k hk
    show (c.seg.set o (some b)).getD k none = none
    rw [getD_set _ (by omega)]
    exact h.behind k (by omega)

/-- The context after a reset. -/
def resetCtx (c : SegTx) : SegTx :=
  if c.nackCount = 0 then { c with retransmit := false, cb := false, seqAuth := 0, dst := 0 }
  else
    { c with
      retransmit := false, cb := false, seqAuth := 0, dst := 0
      seg := c.seg.mapIdx fun o b => if o ≤ c.segN then none else b
      nackCount := 0 }

/-- A reset drops every segment. -/
theorem ctxOk_reset (hlen : c.seg.length = btMeshTxSegCount) (hn : c.segN < btMeshTxSegCount)
    (hnack : c.nackCount ≠ 0) (hbehind : ∀ k, c.segN < k → c.seg.getD k none = none) :
    CtxOk (resetCtx c) := by
  unfold resetCtx
  rw [if_neg hnack]
  have hnone : ∀ k, (c.seg.mapIdx fun o b => if o ≤ c.segN then none else b).getD k none = none := by
    intro k
    rw [List.getD_eq_getElem?_getD, List.getElem?_mapIdx]
    cases hk : c.seg[k]? with
    | none => rfl
    | some x =>
      show (if k ≤ c.segN then none else x) = none
      split
      case isTrue => rfl
      case isFalse hgt =>
        have := hbehind k (by omega)
        rw [List.getD_eq_getElem?_getD, hk] at this
        exact this
  refine ⟨?_, hn, (countP_zero_iff.2 hnone).symm, fun k _ => hnone k⟩
  rw [List.length_mapIdx]
  exact hlen

/-- A context that is reset is right. -/
theorem CtxOk.reset (h : CtxOk c) : CtxOk (resetCtx c) := by
  by_cases hzero : c.nackCount = 0
  · unfold resetCtx
    rw [if_pos hzero]
    exact ⟨h.length, h.segN, h.count, h.behind⟩
  · exact ctxOk_reset h.length h.segN hzero h.behind

/-- So is one that is reset while it is filled. -/
theorem Filling.reset (h : Filling p o c) (hn : p.segN < btMeshTxSegCount) (ho : o ≤ p.segN + 1) :
    CtxOk (resetCtx c) := by
  refine ctxOk_reset h.length (h.segN ▸ hn) (by rw [h.nackCount]; omega) ?_
  intro k hk
  rw [h.segN] at hk
  exact h.behind k (by omega)

/-- **One bit of an acknowledgement** takes one segment from the context. -/
theorem CtxOk.ackSeg (h : CtxOk c) (ack k : ℕ) : CtxOk (ackSeg ack c k) := by
  unfold Model.ackSeg
  split
  case isFalse => exact h
  case isTrue hbit =>
    have hk : k < c.seg.length := by
      by_contra hk
      apply hbit.2
      rw [List.getD_eq_getElem?_getD, List.getElem?_eq_none (not_lt.1 hk)]
      rfl
    have hsome : (c.seg.getD k none).isSome = true := by
      rw [Option.isSome_iff_ne_none]
      exact hbit.2
    have hset := countP_set none hk
    rw [hsome] at hset
    simp only [if_true, Option.isSome_none, Bool.false_eq_true, if_false] at hset
    have hle : c.seg.countP Option.isSome ≤ c.seg.length := List.countP_le_length
    have h8 : btMeshTxSegCount = 8 := rfl
    have hlen := h.length
    refine ⟨by rw [List.length_set]; exact h.length, h.segN, ?_, ?_⟩
    · show (c.nackCount + 255) % 256 = (c.seg.set k none).countP Option.isSome
      rw [h.count]
      omega
    · intro j hj
      by_cases hkj : k = j
      · subst hkj
        rw [List.getD_eq_getElem?_getD, List.getElem?_set_self hk]
        rfl
      · rw [getD_set _ hkj]
        exact h.behind j hj

/-- All bits. -/
theorem CtxOk.ack (h : CtxOk c) (ack : ℕ) (ks : List ℕ) : CtxOk (ks.foldl (Model.ackSeg ack) c) := by
  induction ks generalizing c with
  | nil => exact h
  | cons k ks ih => exact ih (h.ackSeg ack k)

/-- The callback, the address and the timer do not count. -/
theorem CtxOk.of_eq {c' : SegTx} (h : CtxOk c) (hseg : c'.seg = c.seg) (hn : c'.segN = c.segN)
    (hnack : c'.nackCount = c.nackCount) : CtxOk c' :=
  ⟨hseg ▸ h.length, hn ▸ h.segN, by rw [hnack, hseg]; exact h.count,
    by rw [hn, hseg]; exact h.behind⟩

/-- The timer does not matter. -/
theorem CtxOk.timer (h : CtxOk c) (running : Bool) : CtxOk { c with retransmit := running } :=
  h.of_eq rfl rfl rfl

end Contexts

section Steps

/-- The count of every context is right. -/
def TxOk (s : TransTx) : Prop := ∀ c ∈ s.ctxs, CtxOk c

/-- The count of every context but the `i`-th one is right. -/
def OthersOk (s : TransTx) (i : ℕ) : Prop := ∀ j c, j ≠ i → s.ctxs[j]? = some c → CtxOk c

variable {cfg : TxCfg} {s s' : TransTx} {i : ℕ} {c : SegTx} {now : ℤ} {p : SegSdu} {o : ℕ}

/-- A context is right at the start. -/
theorem ctxOk_zero : CtxOk SegTx.zero := by
  refine ⟨rfl, by decide, rfl, ?_⟩
  intro k _
  unfold SegTx.zero
  rw [List.getD_eq_getElem?_getD, List.getElem?_replicate]
  split <;> rfl

/-- Every context is right. -/
theorem TxOk.ctx (h : TxOk s) (i : ℕ) : CtxOk (s.ctx i) := by
  unfold TransTx.ctx
  rw [List.getD_eq_getElem?_getD]
  cases hi : s.ctxs[i]? with
  | none => exact ctxOk_zero
  | some c => exact h c (List.mem_of_getElem? hi)

/-- So are all but one. -/
theorem TxOk.others (h : TxOk s) (i : ℕ) : OthersOk s i :=
  fun _ c _ hc => h c (List.mem_of_getElem? hc)

/-- The `i`-th context is changed. -/
theorem OthersOk.set (h : OthersOk s i) (hs' : s'.ctxs = s.ctxs.set i c) : OthersOk s' i := by
  intro j d hj hd
  rw [hs', List.getElem?_set_ne (Ne.symm hj)] at hd
  exact h j d hj hd

/-- All are right when the one that is set is right. -/
theorem OthersOk.txOk_set (h : OthersOk s i) (hc : CtxOk c) (hs' : s'.ctxs = s.ctxs.set i c) :
    TxOk s' := by
  intro d hd
  rw [hs'] at hd
  obtain ⟨j, hj⟩ := List.mem_iff_getElem?.1 hd
  by_cases hji : i = j
  · subst hji
    rw [List.getElem?_set_self'] at hj
    obtain ⟨-, -, rfl⟩ := Option.map_eq_some_iff.1 hj
    exact hc
  · rw [List.getElem?_set_ne hji] at hj
    exact h j d (Ne.symm hji) hj

/-- All are right when the one is right. -/
theorem OthersOk.txOk (h : OthersOk s i) (hc : CtxOk (s.ctx i)) : TxOk s := by
  refine h.txOk_set hc ?_
  apply List.ext_getElem?
  intro j
  by_cases hji : i = j
  · subst hji
    rw [List.getElem?_set_self']
    unfold TransTx.ctx
    rw [List.getD_eq_getElem?_getD]
    cases s.ctxs[i]? with
    | none => rfl
    | some x => rfl
  · rw [List.getElem?_set_ne hji]

/-- The context that is set. -/
theorem ctx_set {l : List SegTx} (hs' : s'.ctxs = l.set i c) (hi : i < l.length) : s'.ctx i = c := by
  unfold TransTx.ctx
  rw [hs', List.getD_eq_getElem?_getD, List.getElem?_set_self hi]
  rfl

/-- A reset concerns one context. -/
theorem segTxReset_ctxs : (segTxReset cfg s i now).ctxs = s.ctxs.set i (resetCtx (s.ctx i)) := by
  unfold segTxReset resetCtx
  simp only
  split
  case isTrue => rfl
  case isFalse =>
    split
    · rfl
    · rfl

/-- The contexts stay right when one is reset. -/
theorem TxOk.reset (h : TxOk s) : TxOk (segTxReset cfg s i now) :=
  (h.others i).txOk_set (h.ctx i).reset segTxReset_ctxs

/-- The end callback of a segment. -/
theorem TxOk.sent (h : TxOk s) : TxOk (segSent cfg s i now) := by
  unfold segSent
  split
  case isTrue => exact h.reset
  case isFalse =>
    exact (h.others i).txOk_set ((h.ctx i).timer true) rfl

/-- A segment is sent once more. -/
theorem CtxOk.retry {k : ℕ} {b b' : SegBuf} (h : CtxOk c) (hb : c.seg.getD k none = some b) :
    CtxOk { c with seg := c.seg.set k (some b') } := by
  have hk : k < c.seg.length := by
    by_contra hk
    rw [List.getD_eq_getElem?_getD, List.getElem?_eq_none (not_lt.1 hk)] at hb
    cases hb
  have hset := countP_set (some b') hk
  rw [hb] at hset
  refine ⟨by rw [List.length_set]; exact h.length, h.segN, ?_, ?_⟩
  · show c.nackCount = (c.seg.set k (some b')).countP Option.isSome
    rw [h.count]
    exact (Nat.add_right_cancel hset).symm
  · intro j hj
    have hkj : k ≠ j := by
      rintro rfl
      rw [h.behind k hj] at hb
      cases hb
    show (c.seg.set k (some b')).getD j none = none
    rw [getD_set _ hkj]
    exact h.behind j hj

/-- **The loop over the segments that are not acknowledged.** -/
theorem sendUnackedLoop_ok {env : ℕ → ResendEnv} (ks : List ℕ) :
    ∀ s, TxOk s → TxOk (sendUnackedLoop cfg env now i ks s) := by
  induction ks with
  | nil =>
    intro s h
    exact h
  | cons k ks ih =>
    intro s h
    unfold sendUnackedLoop
    split
    case h_1 => exact ih s h
    case h_2 b hb =>
      split
      case isTrue => exact ih s h
      case isFalse =>
        split
        case isTrue => exact h.reset
        case isFalse =>
          simp only
          have h' : TxOk (s.setCtx i { s.ctx i with
              seg := (s.ctx i).seg.set k (some { b with attempts := b.attempts - 1 }) }) :=
            (h.others i).txOk_set ((h.ctx i).retry hb) rfl
          split
          case h_1 node _ => exact TxOk.reset (show TxOk { s.setCtx i _ with node := node } from h')
          case h_2 node _ => exact ih _ h'

/-- And when segments are sent again. -/
theorem TxOk.sendUnacked {env : ℕ → ResendEnv} (h : TxOk s) :
    TxOk (segTxSendUnacked cfg s env now i) := sendUnackedLoop_ok _ s h

/-- An acknowledgement by a Friend changes an address. -/
theorem segTxLookup_ok {seqZero addr : ℕ} {obo : Bool} {l : List SegTx} (h : ∀ c ∈ l, CtxOk c) :
    ∀ c ∈ (segTxLookup seqZero obo addr l).2, CtxOk c := by
  induction l with
  | nil => exact h
  | cons x l ih =>
    have hx := h x (by simp)
    have hnext : ∀ c ∈ x :: (segTxLookup seqZero obo addr l).2, CtxOk c := by
      intro c hc
      obtain rfl | hc := List.mem_cons.1 hc
      · exact hx
      · exact ih (fun d hd => h d (List.mem_cons_of_mem _ hd)) c hc
    unfold segTxLookup
    simp only
    split
    case isTrue => exact hnext
    case isFalse =>
      split
      case isTrue => exact h
      case isFalse =>
        split
        case isTrue =>
          intro c hc
          obtain rfl | hc := List.mem_cons.1 hc
          · exact hx.of_eq rfl rfl rfl
          · exact h c (List.mem_cons_of_mem _ hc)
        case isFalse => exact hnext

/-- **An acknowledgement.** -/
theorem TxOk.transAck {src : ℕ} {friendMatch : Bool} {buf : List UInt8} {env : ℕ → ResendEnv}
    (h : TxOk s) : TxOk (transAck cfg s src friendMatch buf env now) := by
  unfold Model.transAck
  split
  case isTrue => exact h
  case isFalse =>
    simp only
    split
    case isTrue => exact h
    case isFalse =>
      have hlook := fun seqZero obo => @segTxLookup_ok seqZero src obo s.ctxs h
      split
      case h_1 ctxs hfind =>
        intro c hc
        apply hlook
        rw [hfind]
        exact hc
      case h_2 i ctxs hfind =>
        have h₁ : TxOk { s with ctxs := ctxs } := by
          intro c hc
          apply hlook
          rw [hfind]
          exact hc
        split
        case isTrue => exact h₁.reset
        case isFalse =>
          split
          case isTrue => exact h₁
          case isFalse =>
            have h₂ : TxOk (({ s with ctxs := ctxs } : TransTx).setCtx i ((List.range 32).foldl
                (ackSeg (leVal ((buf.drop 2).take 4).reverse))
                { ({ s with ctxs := ctxs } : TransTx).ctx i with retransmit := false })) :=
              (h₁.others i).txOk_set (((h₁.ctx i).timer false).ack _ _) rfl
            split
            case isTrue => exact h₂.sendUnacked
            case isFalse => exact h₂.reset

end Steps

section Sending

variable {cfg : TxCfg} {s s' : TransTx} {i : ℕ} {now : ℤ} {p : SegSdu} {o : ℕ} {env : ℕ → SegEnv}

/-- No Friend queue takes a segment before the last one, and several segments do not go to a group
that the node itself listens to. -/
structure Whole (cfg : TxCfg) (p : SegSdu) (env : ℕ → SegEnv) : Prop where
  friend : ∀ o < p.segN, ¬ ((env o).friend = true ∧ addrIsUnicast p.dst = true)
  isLocal : p.segN = 0 ∨ addrIsUnicast p.dst = true ∨ cfg.isLocal p.dst = false

/-- While a context is filled. -/
structure Sending (p : SegSdu) (i o : ℕ) (s : TransTx) : Prop where
  lt : i < s.ctxs.length
  others : OthersOk s i
  filling : Filling p o (s.ctx i)

/-- The callback of a segment starts the timer, or the only segment is done. -/
theorem Sending.sent (h : Sending p i o s) (hn : p.segN < btMeshTxSegCount) (ho : o ≤ p.segN + 1)
    (hone : addrIsUnicast p.dst = true ∨ p.segN = 0) :
    Sending p i o (segSent cfg s i now) ∨ p.segN = 0 ∧ TxOk (segSent cfg s i now) := by
  unfold segSent
  rw [h.filling.dst]
  split
  case isTrue huni =>
    obtain hone | hone := hone
    · exact absurd hone huni
    · exact Or.inr ⟨hone, h.others.txOk_set (h.filling.reset hn ho) segTxReset_ctxs⟩
  case isFalse =>
    have hf := h.filling
    have hctxs : (s.setCtx i { s.ctx i with retransmit := true }).ctxs =
        s.ctxs.set i { s.ctx i with retransmit := true } := rfl
    refine Or.inl ⟨?_, h.others.set hctxs, ?_⟩
    · rw [hctxs, List.length_set]
      exact h.lt
    · rw [ctx_set hctxs h.lt]
      exact ⟨hf.length, hf.segN, hf.nackCount, hf.dst, hf.count, hf.behind⟩

/-- Only the contexts matter. -/
theorem Sending.of_ctxs (h : Sending p i o s) (hs : s'.ctxs = s.ctxs) : Sending p i o s' := by
  obtain ⟨h₁, h₂, h₃⟩ := h
  unfold OthersOk TransTx.ctx at *
  rw [← hs] at h₁ h₂ h₃
  exact ⟨h₁, h₂, h₃⟩

/-- **A segment is sent.** -/
theorem Sending.netSend (h : Sending p i o s) (hw : Whole cfg p env) (hn : p.segN < btMeshTxSegCount)
    (ho : o ≤ p.segN + 1) {e : SegEnv} {sent : Bool}
    (hc : btMeshNetSend cfg s i p.dst p.ttl e now = (sent, s')) :
    Sending p i o s' ∨ sent = true ∧ p.segN = 0 ∧ TxOk s' := by
  unfold btMeshNetSend at hc
  split at hc
  case h_1 =>
    cases hc
    exact Or.inl h
  case h_2 node _ =>
    have h' : Sending p i o { s with node := node } := h.of_ctxs rfl
    simp only at hc
    split at hc
    case isTrue =>
      cases hc
      exact Or.inl h'
    case isFalse =>
      split at hc
      case isTrue hproxy =>
        cases hc
        exact (h'.sent hn ho (Or.inl hproxy.2.2)).imp_right fun hr => ⟨rfl, hr⟩
      case isFalse =>
        split at hc
        case isTrue hloc =>
          cases hc
          refine (h'.sent hn ho ?_).imp_right fun hr => ⟨rfl, hr⟩
          obtain hone | huni | hno := hw.isLocal
          · exact Or.inr hone
          · exact Or.inl huni
          · rw [hno] at hloc
            cases hloc
        case isFalse =>
          cases hc
          exact Or.inl h'

/-- The next segment is put into the context. -/
theorem Sending.next (h : Sending p i o s) (ho : o < btMeshTxSegCount) (b : SegBuf) :
    Sending p i (o + 1) (s.setCtx i { s.ctx i with seg := (s.ctx i).seg.set o (some b) }) := by
  have hctxs : (s.setCtx i { s.ctx i with seg := (s.ctx i).seg.set o (some b) }).ctxs =
      s.ctxs.set i { s.ctx i with seg := (s.ctx i).seg.set o (some b) } := rfl
  refine ⟨?_, h.others.set hctxs, ?_⟩
  · rw [hctxs, List.length_set]
    exact h.lt
  · rw [ctx_set hctxs h.lt]
    exact h.filling.next ho b

/-- And when the context that is being filled is reset. -/
theorem Sending.reset (h : Sending p i o s) (hn : p.segN < btMeshTxSegCount) (ho : o ≤ p.segN + 1) :
    TxOk (segTxReset cfg s i now) :=
  h.others.txOk_set (h.filling.reset hn ho) segTxReset_ctxs

/-- **The sending loop** leaves every count right, however it ends. -/
theorem sendSegLoop_ok {seqZero : ℕ} (hw : Whole cfg p env) (hn : p.segN < btMeshTxSegCount) (m : ℕ) :
    ∀ o s, o + m = p.segN + 1 → Sending p i o s ∨ m = 0 ∧ TxOk s →
      TxOk (sendSegLoop cfg p env now seqZero i (List.range' o m) s).2.2 := by
  induction m with
  | zero =>
    intro o s hsum h
    obtain h | ⟨-, h⟩ := h
    · obtain rfl : o = p.segN + 1 := hsum
      exact h.others.txOk (h.filling.ctxOk hn)
    · exact h
  | succ m ih =>
    intro o s hsum h
    obtain h | ⟨hm, -⟩ := h
    case inr => cases hm
    rw [List.range'_succ]
    unfold sendSegLoop
    split
    case isTrue => exact h.reset hn (by omega)
    case isFalse =>
      simp only
      have h₁ : Sending p i (o + 1) (btMeshFriendEnqueueTx (s.setCtx i { s.ctx i with
          seg := (s.ctx i).seg.set o (some ⟨segRetransmitAttempts, p.segPdu seqZero o⟩) })
          (env o).lpns) :=
        (h.next (by omega) ⟨segRetransmitAttempts, p.segPdu seqZero o⟩).of_ctxs rfl
      split
      case isTrue hfr =>
        -- the Friend queue takes the last segment
        have hlast : o = p.segN := by
          by_contra hne
          exact hw.friend o (by omega) hfr
        subst hlast
        exact h₁.others.txOk (h₁.filling.ctxOk hn)
      case isFalse =>
        split
        case h_1 s' hsend =>
          obtain h₂ | ⟨hf, -⟩ := h₁.netSend hw hn (by omega) hsend
          · exact h₂.reset hn (by omega)
          · cases hf
        case h_2 s' hsend =>
          obtain h₂ | ⟨-, hone, h₂⟩ := h₁.netSend hw hn (by omega) hsend
          · exact ih (o + 1) s' (by omega) (Or.inl h₂)
          · exact ih (o + 1) s' (by omega) (Or.inr ⟨by omega, h₂⟩)

/-- Without an early exit every segment is handed on. -/
theorem sendSegLoop_all {seqZero : ℕ} (hw : Whole cfg p env) (m : ℕ) :
    ∀ o s, o + m = p.segN + 1 →
      (sendSegLoop cfg p env now seqZero i (List.range' o m) s).1 = .ok →
      (sendSegLoop cfg p env now seqZero i (List.range' o m) s).2.1.map Prod.snd =
        (List.range' o m).map (p.segPdu seqZero) := by
  induction m with
  | zero =>
    intro o s _ _
    rfl
  | succ m ih =>
    intro o s hsum hok
    rw [List.range'_succ] at hok ⊢
    unfold sendSegLoop at hok ⊢
    split at hok
    case isTrue => cases hok
    case isFalse hbuf =>
      rw [if_neg hbuf]
      simp only at hok ⊢
      split at hok
      case isTrue hfr =>
        rw [if_pos hfr]
        have hm : m = 0 := by
          by_contra hne
          exact hw.friend o (by omega) hfr
        subst hm
        rfl
      case isFalse hfr =>
        rw [if_neg hfr]
        split at hok
        case h_1 => cases hok
        case h_2 s' hsend =>
          simp only [List.map_cons]
          rw [ih (o + 1) s' (by omega) hok]

end Sending

section Runs

variable {cfg : TxCfg} {s s' : TransTx} {now : ℤ} {p : SegSdu} {env : ℕ → SegEnv}

/-- A free context holds nothing and can be filled. -/
theorem TxOk.start {i : ℕ} (h : TxOk s) (hi : i < s.ctxs.length) (hfree : (s.ctx i).nackCount = 0)
    (seqAuth : ℕ) : Sending p i 0 (s.setCtx i { s.ctx i with
      dst := p.dst, segN := p.segN, nackCount := p.segN + 1, seqAuth := seqAuth, cb := true }) := by
  have hctxs : (s.setCtx i { s.ctx i with
        dst := p.dst, segN := p.segN, nackCount := p.segN + 1, seqAuth := seqAuth, cb := true }).ctxs =
      s.ctxs.set i { s.ctx i with
        dst := p.dst, segN := p.segN, nackCount := p.segN + 1, seqAuth := seqAuth, cb := true } := rfl
  have hc := h.ctx i
  have hzero : (s.ctx i).seg.countP Option.isSome = 0 := hc.count.symm.trans hfree
  refine ⟨?_, (h.others i).set hctxs, ?_⟩
  · rw [hctxs, List.length_set]
    exact hi
  · rw [ctx_set hctxs hi]
    exact ⟨hc.length, rfl, rfl, rfl, hzero, fun k _ => countP_zero_iff.1 hzero k⟩

/-- `send_seg` as a whole: the state that it leaves, and what it handed on if it returns 0. -/
theorem sendSeg_ok (h : TxOk s) (hw : Whole cfg p env) :
    TxOk (sendSeg cfg s p env now).2.2 ∧
      ((sendSeg cfg s p env now).1 = .ok → (sendSeg cfg s p env now).2.1.map Prod.snd =
        (List.range (p.segN + 1)).map
          (p.segPdu (seqAuthOf s.node.net.iviTx.toNat s.node.net.seq % 2 ^ 13))) := by
  unfold sendSeg
  split
  case isTrue => exact ⟨h, fun hf => (by cases hf)⟩
  case isFalse =>
    split
    case isTrue => exact ⟨h, fun hf => (by cases hf)⟩
    case isFalse hmax =>
      have hn : p.segN < btMeshTxSegCount := segN_lt (not_lt.1 hmax)
      split
      case h_1 => exact ⟨h, fun hf => (by cases hf)⟩
      case h_2 i hi =>
        obtain ⟨hlt, hfree, -⟩ := List.findIdx?_eq_some_iff_getElem.1 hi
        have hfree : (s.ctx i).nackCount = 0 := by
          unfold TransTx.ctx
          rw [List.getD_eq_getElem _ _ hlt]
          exact of_decide_eq_true hfree
        have hstart := @TxOk.start s p i h hlt hfree
        simp only
        rw [List.range_eq_range']
        exact ⟨sendSegLoop_ok hw hn _ 0 _ (Nat.zero_add _) (Or.inl (hstart _)),
          sendSegLoop_all hw _ 0 _ (Nat.zero_add _)⟩

/-- The condition on a step. -/
def WholeSends (cfg : TxCfg) (_ : TransTx) : SegTxEvent → Prop
  | .sendSeg p env _ => Whole cfg p env
  | _ => True

/-- And over every step whose messages are sent as a whole. -/
theorem TxOk.step {e : SegTxEvent} (h : TxOk s) (hw : WholeSends cfg s e)
    (hc : segTxStep cfg s e = some s') : TxOk s' := by
  cases e with
  | sendSeg p env now =>
    cases hc
    exact (sendSeg_ok h hw).1
  | sent i now =>
    simp only [segTxStep] at hc
    split at hc
    case isTrue =>
      cases hc
      exact h.sent
    case isFalse => cases hc
  | ack src friendMatch buf env now =>
    cases hc
    exact h.transAck
  | retransmit i env now =>
    simp only [segTxStep] at hc
    split at hc
    case isTrue =>
      cases hc
      exact TxOk.sendUnacked ((h.others i).txOk_set ((h.ctx i).timer false) rfl)
    case isFalse => cases hc

/-- **No segment is lost count of.** In every state that is reached, the count of a context is the
number of its segments that are there, a context with count 0 holds none, and `send_seg` returns 0 only
after it handed every segment on. -/
theorem seg_tx_counts {node : MeshNode} {count : ℕ} {evs : List SegTxEvent}
    (hw : StepsMeet (segTxStep cfg) (WholeSends cfg) (txInit node count) evs)
    (hrun : runSteps (segTxStep cfg) (txInit node count) evs = some s) :
    (∀ c ∈ s.ctxs, c.nackCount = (c.seg.take (c.segN + 1)).countP Option.isSome ∧
      (c.nackCount = 0 → ∀ x ∈ c.seg, x = none)) ∧
    ∀ p env now, Whole cfg p env → (sendSeg cfg s p env now).1 = .ok →
      (sendSeg cfg s p env now).2.1.map Prod.snd = (List.range (p.segN + 1)).map
        (p.segPdu (seqAuthOf s.node.net.iviTx.toNat s.node.net.seq % 2 ^ 13)) := by
  have h₀ : TxOk (txInit node count) := by
    intro c hc
    rw [List.eq_of_mem_replicate hc]
    exact ctxOk_zero
  have h : TxOk s := runSteps_inv (fun _ _ _ h hw hc => h.step hw hc) h₀ hw hrun
  exact ⟨fun c hc => (h c hc).nack, fun p env now hw => (sendSeg_ok h hw).2⟩

/-- Two segments to a unicast address, and an acknowledgement of the first one. -/
theorem seg_tx_counts_acked : ∃ s,
    runSteps (segTxStep ⟨false, fun _ => false⟩) (txInit (meshProvisioned 1 0 0 0) 1)
      [.sendSeg twoSegments goodEnv 0,
        .ack 2 false [0, 0, 0, 0, 0, 1] (fun _ => ⟨false, true, true⟩) 0] = some s ∧
    s.ctxs.map SegTx.nackCount = [1] ∧ ∀ c ∈ s.ctxs,
      c.nackCount = (c.seg.take (c.segN + 1)).countP Option.isSome ∧
      (c.nackCount = 0 → ∀ x ∈ c.seg, x = none) := by
  obtain ⟨s, hrun, hnack⟩ : ∃ s,
      runSteps (segTxStep ⟨false, fun _ => false⟩) (txInit (meshProvisioned 1 0 0 0) 1)
        [.sendSeg twoSegments goodEnv 0,
          .ack 2 false [0, 0, 0, 0, 0, 1] (fun _ => ⟨false, true, true⟩) 0] = some s ∧
      s.ctxs.map SegTx.nackCount = [1] := ⟨_, rfl, by decide⟩
  have hwhole : Whole ⟨false, fun _ => false⟩ twoSegments goodEnv :=
    ⟨by simp [goodEnv, SegEnv.friend], Or.inr (Or.inl rfl)⟩
  refine ⟨s, hrun, hnack, (seg_tx_counts ?_ hrun).1⟩
  exact ⟨hwhole, fun _ _ => ⟨trivial, fun _ _ => trivial⟩⟩

/-- A stack whose Friend queue takes every PDU. -/
def friendEnv : ℕ → SegEnv := fun _ => ⟨true, 1, 4, true, false⟩

/-- Two segments to a group of the node itself: the callback of the first one resets the context, the
second one stays in it with count 0. And two segments to a Low Power node: only the first one gets to
the Friend queue, `send_seg` returns 0, and the count is 2. -/
theorem seg_tx_counts_wrong :
    (∃ s, runSteps (segTxStep ⟨false, fun a => a = 0xFFFF⟩) (txInit (meshProvisioned 1 0 0 0) 1)
        [.sendSeg { twoSegments with dst := 0xFFFF } goodEnv 0] = some s ∧
      (s.ctx 0).nackCount = 0 ∧ ¬ ∀ x ∈ (s.ctx 0).seg, x = none) ∧
    ∃ s, runSteps (segTxStep ⟨false, fun _ => false⟩) (txInit (meshProvisioned 1 0 0 0) 1)
        [.sendSeg twoSegments friendEnv 0] = some s ∧
      (s.ctx 0).nackCount = 2 ∧
      ((s.ctx 0).seg.take ((s.ctx 0).segN + 1)).countP Option.isSome = 1 ∧
      (sendSeg ⟨false, fun _ => false⟩ (txInit (meshProvisioned 1 0 0 0) 1) twoSegments friendEnv
        0).1 = .ok ∧
      (sendSeg ⟨false, fun _ => false⟩ (txInit (meshProvisioned 1 0 0 0) 1) twoSegments friendEnv
        0).2.1.map Prod.snd = [twoSegments.segPdu 0 0] :=
  ⟨⟨_, rfl, by decide, by decide⟩, _, rfl, by decide, by decide, by decide, by decide⟩

end Runs

end GenieSdk.Analysis
