import GenieSdk.Model.MeshTransport

/-!
# Segmentation round trip

The receiver rebuilds the SeqAuth of a message from the 13 bits in the header of a segment and the
upper bits of the sequence number of that very segment. So a message arrives exactly if its segments
do not cross a multiple of `2 ^ 13`: `Waiting` and `Done` follow its context through any order of
segments, and `Split` shows that a message that crosses one is never handed on under its own SeqAuth.
-/

set_option autoImplicit false

namespace GenieSdk.Analysis

open GenieSdk.Model
open GenieSdk.Lib

section Segments

variable {p : SegSdu}

/-- The SDU is as long as its segments allow. -/
theorem segN_mul_lt (hpos : 0 < p.sdu.length) :
    p.segN * 12 < p.sdu.length ∧ p.sdu.length ≤ p.segN * 12 + 12 := by
  unfold SegSdu.segN
  omega

/-- It has at most as many segments as there may be. -/
theorem segN_lt (hmax : p.sdu.length ≤ btMeshTxSduMax) : p.segN < btMeshTxSegCount := by
  unfold SegSdu.segN
  have h : btMeshTxSduMax = 96 := rfl
  have h' : btMeshTxSegCount = 8 := rfl
  omega

/-- A segment carries twelve bytes, the last one the rest. -/
theorem length_chunk (p : SegSdu) (o : ℕ) :
    (p.chunk o).length = min 12 (p.sdu.length - o * 12) := by
  unfold SegSdu.chunk
  rw [List.length_take, List.length_drop]

/-- The header of a segment is read back. -/
theorem segHdrOf_segPdu {seqZero o : ℕ} (hzero : seqZero < 2 ^ 13) (ho : o < 32) (hn : p.segN < 32) :
    segHdrOf (p.segPdu seqZero o) =
      ⟨UInt8.ofNat (segHdrByte p.devKey p.aid), p.aszmic, seqZero, o, p.segN⟩ := by
  have h1 : (UInt8.ofNat ((if p.aszmic then 128 else 0) + seqZero / 64)).toNat =
      (if p.aszmic then 128 else 0) + seqZero / 64 :=
    UInt8.toNat_ofNat_of_lt' (show _ < 256 by split <;> omega)
  have h2 : (UInt8.ofNat (seqZero % 64 * 4 + o / 8)).toNat = seqZero % 64 * 4 + o / 8 :=
    UInt8.toNat_ofNat_of_lt' (show _ < 256 by omega)
  have h3 : (UInt8.ofNat (o % 8 * 32 + p.segN)).toNat = o % 8 * 32 + p.segN :=
    UInt8.toNat_ofNat_of_lt' (show _ < 256 by omega)
  have hword : leVal (((p.segPdu seqZero o).drop 1).take 2).reverse =
      (seqZero % 64 * 4 + o / 8) + 256 * ((if p.aszmic then 128 else 0) + seqZero / 64) := by
    show (UInt8.ofNat (seqZero % 64 * 4 + o / 8)).toNat + 256 * ((UInt8.ofNat
      ((if p.aszmic then 128 else 0) + seqZero / 64)).toNat + 256 * 0) = _
    rw [h1, h2, Nat.mul_zero, Nat.add_zero]
  have hlast : ((p.segPdu seqZero o).getD 3 0).toNat = o % 8 * 32 + p.segN := h3
  have hfirst : ((p.segPdu seqZero o).getD 1 0).toNat =
      (if p.aszmic then 128 else 0) + seqZero / 64 := h1
  unfold segHdrOf
  simp only [hword, hlast, hfirst]
  congr 1
  · cases p.aszmic with
    | true => simp
    | false =>
      simp
      omega
  · split <;> omega
  · split <;> omega
  · omega

/-- The PDU of a segment has four bytes more. -/
theorem length_segPdu (p : SegSdu) (seqZero o : ℕ) :
    (p.segPdu seqZero o).length = 4 + (p.chunk o).length := by
  unfold SegSdu.segPdu
  rw [List.length_append]
  rfl

/-- Segments are recognised as such. -/
theorem segPdu_seg (p : SegSdu) (seqZero o : ℕ) :
    128 ≤ ((p.segPdu seqZero o).getD 0 0).toNat := by
  have h : (UInt8.ofNat (segHdrByte p.devKey p.aid)).toNat = segHdrByte p.devKey p.aid :=
    UInt8.toNat_ofNat_of_lt' (show _ < 256 by unfold segHdrByte; split <;> omega)
  show 128 ≤ (UInt8.ofNat (segHdrByte p.devKey p.aid)).toNat
  rw [h]
  unfold segHdrByte
  split <;> omega

end Segments

section Sending

variable {cfg : TxCfg} {p : SegSdu} {env : ℕ → SegEnv} {now : ℤ} {s : TransTx}

/-- Without a pending IV update a reset concerns only the context. -/
theorem segTxReset_node (hpend : s.node.net.pendingUpdate = false) (i : ℕ) :
    (segTxReset cfg s i now).node = s.node := by
  unfold segTxReset
  simp only
  split
  · rfl
  · split
    case isTrue h =>
      rw [show (s.setCtx i _).node = s.node from rfl, hpend] at h
      cases h
    case isFalse => rfl

/-- The callback of a segment leaves the node, if no IV Update waits. -/
theorem segSent_node (hpend : s.node.net.pendingUpdate = false) (i : ℕ) :
    (segSent cfg s i now).node = s.node := by
  unfold segSent segTxComplete
  split
  · exact segTxReset_node hpend i
  · rfl

/-- A segment that is sent takes one number. -/
theorem netSend_node {i dst ttl : ℕ} {e : SegEnv} {s' : TransTx}
    (hc : btMeshNetSend cfg s i dst ttl e now = (true, s'))
    (hpend : s.node.net.pendingUpdate = false) :
    s'.node.net = { s.node.net with seq := (s.node.net.seq + 1) % 2 ^ 24 } := by
  unfold btMeshNetSend at hc
  split at hc
  case h_1 => cases hc
  case h_2 node henc =>
    have hnode : node.net = { s.node.net with seq := (s.node.net.seq + 1) % 2 ^ 24 } := by
      unfold btMeshNetEncode at henc
      split at henc
      · cases henc
      · split at henc
        · cases henc
        · cases henc
          rfl
    have hpend' : ({ s with node := node } : TransTx).node.net.pendingUpdate = false := by
      show node.net.pendingUpdate = false
      rw [hnode]
      exact hpend
    simp only at hc
    split at hc
    · cases hc
    · split at hc
      · cases hc
        rw [segSent_node hpend']
        exact hnode
      · split at hc
        · cases hc
          rw [segSent_node hpend']
          exact hnode
        · cases hc
          exact hnode

/-- The copies in the Friend queues take one number each. -/
theorem friendEnqueue_node {n : ℕ} (h : s.node.net.seq + n < 2 ^ 24) :
    (btMeshFriendEnqueueTx s n).node.net = { s.node.net with seq := s.node.net.seq + n } := by
  unfold btMeshFriendEnqueueTx
  dsimp only
  induction n with
  | zero => rfl
  | succ n ih =>
    rw [Function.iterate_succ_apply']
    have hnext := ih (by omega)
    unfold nextSeq at hnext ⊢
    rw [hnext]
    dsimp only
    rw [Nat.mod_eq_of_lt (by omega)]
    rfl

/-- The numbers that are taken before the one of segment `o`: one by each segment before it, and one by
each copy of a segment in a Friend queue. -/
def numbersBefore (env : ℕ → SegEnv) : ℕ → ℕ
  | 0 => (env 0).lpns
  | o + 1 => numbersBefore env o + 1 + (env (o + 1)).lpns

/-- Each segment has a higher sequence number than those before it. -/
theorem numbersBefore_strictMono (env : ℕ → SegEnv) : StrictMono (numbersBefore env) := by
  refine strictMono_nat_of_lt_succ fun o => ?_
  show numbersBefore env o < numbersBefore env o + 1 + (env (o + 1)).lpns
  omega

/-- The loop hands the segments on, each under its own number. -/
theorem sendSegLoop_handed {seqZero i start : ℕ}
    (hfriend : ∀ o, ¬ ((env o).friend = true ∧ addrIsUnicast p.dst = true)) (m : ℕ) :
    ∀ o s, s.node.net.pendingUpdate = false →
      s.node.net.seq + (env o).lpns = start + numbersBefore env o →
      start + numbersBefore env (o + m) < 2 ^ 24 →
      (sendSegLoop cfg p env now seqZero i (List.range' o (m + 1)) s).1 = .ok →
      (sendSegLoop cfg p env now seqZero i (List.range' o (m + 1)) s).2.1 =
        (List.range' o (m + 1)).map fun k => (start + numbersBefore env k, p.segPdu seqZero k) := by
  induction m with
  | zero =>
    intro o s hpend hseq hroom hok
    have hqueued := @friendEnqueue_node (s.setCtx i { s.ctx i with
      seg := (s.ctx i).seg.set o (some ⟨segRetransmitAttempts, p.segPdu seqZero o⟩) }) (env o).lpns
      (by rw [show (s.setCtx i _).node = s.node from rfl, hseq]; exact hroom)
    rw [List.range'_succ, List.range'_zero] at hok ⊢
    unfold sendSegLoop at hok ⊢
    split at hok
    case isTrue => cases hok
    case isFalse hbuf =>
      rw [if_neg hbuf]
      simp only [if_neg (hfriend o), hqueued] at hok ⊢
      split at hok
      case h_1 => cases hok
      case h_2 =>
        show [(s.node.net.seq + (env o).lpns, p.segPdu seqZero o)] = _
        rw [hseq]
        rfl
  | succ m ih =>
    intro o s hpend hseq hroom hok
    have hlt : start + numbersBefore env o < start + numbersBefore env (o + (m + 1)) :=
      Nat.add_lt_add_left (numbersBefore_strictMono env (by omega)) start
    have hqueued := @friendEnqueue_node (s.setCtx i { s.ctx i with
      seg := (s.ctx i).seg.set o (some ⟨segRetransmitAttempts, p.segPdu seqZero o⟩) }) (env o).lpns
      (by rw [show (s.setCtx i _).node = s.node from rfl, hseq]; omega)
    rw [List.range'_succ] at hok ⊢
    unfold sendSegLoop at hok ⊢
    split at hok
    case isTrue => cases hok
    case isFalse hbuf =>
      rw [if_neg hbuf]
      simp only [if_neg (hfriend o)] at hok ⊢
      rw [List.map_cons]
      split at hok
      case h_1 => cases hok
      case h_2 s' hsend =>
        have hnode := netSend_node hsend (by rw [hqueued]; exact hpend)
        rw [hqueued] at hnode
        have hseq' : s'.node.net.seq = start + numbersBefore env o + 1 := by
          rw [hnode]
          show (s.node.net.seq + (env o).lpns + 1) % 2 ^ 24 = _
          rw [hseq, Nat.mod_eq_of_lt (by omega)]
        have hrest := ih (o + 1) s' (by rw [hnode]; exact hpend)
          (by
            rw [hseq']
            show _ = start + (numbersBefore env o + 1 + (env (o + 1)).lpns)
            omega)
          (by rwa [show o + 1 + m = o + (m + 1) by omega]) hok
        simp only
        rw [hrest, hqueued]
        show (s.node.net.seq + (env o).lpns, p.segPdu seqZero o) :: _ = _
        rw [hseq]

/-- **What `send_seg` makes** of an SDU. -/
theorem sendSeg_handed (hfriend : ∀ o, ¬ ((env o).friend = true ∧ addrIsUnicast p.dst = true))
    (hpend : s.node.net.pendingUpdate = false)
    (hroom : s.node.net.seq + numbersBefore env p.segN < 2 ^ 24)
    (hok : (sendSeg cfg s p env now).1 = .ok) :
    0 < p.sdu.length ∧ p.sdu.length ≤ btMeshTxSduMax ∧
      (sendSeg cfg s p env now).2.1 = (List.range (p.segN + 1)).map fun o =>
        (s.node.net.seq + numbersBefore env o, p.segPdu (s.node.net.seq % 2 ^ 13) o) := by
  unfold sendSeg at hok ⊢
  split at hok
  case isTrue => cases hok
  case isFalse hpos =>
    rw [if_neg hpos]
    split at hok
    case isTrue => cases hok
    case isFalse hmax =>
      rw [if_neg hmax]
      split at hok
      case h_1 => cases hok
      case h_2 i hi =>
        simp only at hok ⊢
        refine ⟨by omega, by omega, ?_⟩
        have hzero : seqAuthOf s.node.net.iviTx.toNat s.node.net.seq % 2 ^ 13 =
            s.node.net.seq % 2 ^ 13 := by
          unfold seqAuthOf
          omega
        rw [hzero, List.range_eq_range'] at hok ⊢
        exact sendSegLoop_handed hfriend p.segN 0 _ hpend rfl (by rwa [Nat.zero_add]) hok

end Sending

section Contexts

variable {net : NetRx} {a : ℕ}

/-- The context at a known place. -/
theorem rx_append {s : TransRx} {pre post : List SegRx} {c : SegRx} (h : s.segRx = pre ++ c :: post) :
    s.rx pre.length = c := by
  unfold TransRx.rx
  rw [h]
  simp

/-- Setting the context between others. -/
theorem setRx_append {s : TransRx} {pre post : List SegRx} {c : SegRx} (c' : SegRx)
    (h : s.segRx = pre ++ c :: post) : (s.setRx pre.length c').segRx = pre ++ c' :: post := by
  unfold TransRx.setRx
  rw [h]
  simp

/-- A context that is set has its value. -/
theorem rx_setRx {s : TransRx} {k : ℕ} (c : SegRx) (hk : k < s.segRx.length) :
    (s.setRx k c).rx k = c := by
  unfold TransRx.rx TransRx.setRx
  simp [hk]

/-- Contexts of other messages are passed over. -/
theorem segRxFind_append (pre l : List SegRx)
    (hpre : ∀ x ∈ pre, x.src = net.src ∧ x.dst = net.dst → x.inUse = false ∧ x.seqAuth ≠ a) :
    segRxFind net a (pre ++ l) =
      ((segRxFind net a l).1.map (· + pre.length), pre ++ (segRxFind net a l).2) := by
  induction pre with
  | nil => simp
  | cons x pre ih =>
    have hnext : ((segRxFind net a (pre ++ l)).1.map (· + 1), x :: (segRxFind net a (pre ++ l)).2) =
        ((segRxFind net a l).1.map (· + (x :: pre).length), x :: pre ++ (segRxFind net a l).2) := by
      rw [ih fun y hy => hpre y (List.mem_cons_of_mem _ hy)]
      cases (segRxFind net a l).1 with
      | none => rfl
      | some k => simp [Nat.add_assoc]
    rw [List.cons_append, segRxFind]
    simp only
    split
    case isTrue => exact hnext
    case isFalse hmatch =>
      rw [not_or, not_not, not_not] at hmatch
      obtain ⟨hfree, ha⟩ := hpre x (by simp) hmatch
      rw [if_neg ha, hfree, if_neg (by simp)]
      exact hnext

/-- No context for the message. -/
theorem segRxFind_none {l : List SegRx}
    (h : ∀ x ∈ l, x.src = net.src ∧ x.dst = net.dst → x.inUse = false ∧ x.seqAuth ≠ a) :
    segRxFind net a l = (none, l) := by
  have := @segRxFind_append net a l [] h
  simpa [segRxFind] using this

/-- The context of the message. -/
theorem segRxFind_found {pre post : List SegRx} {c : SegRx}
    (hpre : ∀ x ∈ pre, x.src = net.src ∧ x.dst = net.dst → x.inUse = false ∧ x.seqAuth ≠ a)
    (hsrc : c.src = net.src) (hdst : c.dst = net.dst) (ha : c.seqAuth = a) :
    segRxFind net a (pre ++ c :: post) = (some pre.length, pre ++ c :: post) := by
  rw [segRxFind_append pre _ hpre]
  simp [segRxFind, hsrc, hdst, ha]

/-- A context that is taken for a message. -/
def takenFor (net : NetRx) (h : SegHdr) (a : ℕ) (c : SegRx) : SegRx :=
  { c with
    inUse := true, bufLen := 0, ctl := net.ctl, seqAuth := a, segN := h.segN, hdr := h.hdr
    ttl := net.sendTtl, src := net.src, dst := net.dst, block := 0, obo := net.friendMatch }

/-- The first free context is taken. -/
theorem segRxAlloc_cases (h : SegHdr) (l : List SegRx) :
    (segRxAlloc net h a l = none ∧ ∀ c ∈ l, c.inUse = true) ∨
      ∃ pre c post, l = pre ++ c :: post ∧
        segRxAlloc net h a l = some (pre.length, pre ++ takenFor net h a c :: post) := by
  induction l with
  | nil => exact Or.inl ⟨rfl, by simp⟩
  | cons x l ih =>
    unfold segRxAlloc
    cases hx : x.inUse with
    | false => exact Or.inr ⟨[], x, l, rfl, rfl⟩
    | true =>
      obtain ⟨hnone, hall⟩ | ⟨pre, c, post, rfl, halloc⟩ := ih
      · rw [hnone]
        refine Or.inl ⟨rfl, ?_⟩
        intro c hc
        obtain rfl | hc := List.mem_cons.1 hc
        · exact hx
        · exact hall c hc
      · refine Or.inr ⟨x :: pre, c, post, rfl, ?_⟩
        rw [halloc]
        rfl

/-- A source without an entry is not a replay. -/
theorem rplScan_fresh {rpl : List Rpl} (h : ∀ x ∈ rpl, x.src ≠ net.src) :
    rplScan net rpl = none ∨ ∃ rpl', rplScan net rpl = some (false, rpl') := by
  induction rpl with
  | nil => exact Or.inl rfl
  | cons r rs ih =>
    unfold rplScan
    split
    · exact Or.inr ⟨_, rfl⟩
    · rw [if_neg (h r (by simp))]
      obtain hn | ⟨rs', hs⟩ := ih fun x hx => h x (List.mem_cons_of_mem _ hx)
      · rw [hn]
        exact Or.inl rfl
      · rw [hs]
        exact Or.inr ⟨_, rfl⟩

/-- A PDU of a source that is not in the list is no replay. -/
theorem isReplay_fresh {s : TransRx} (h : ∀ x ∈ s.rpl, x.src ≠ net.src) :
    ∃ rpl k, isReplay s net = (false, { s with rpl := rpl, rplIndex := k }) := by
  unfold isReplay
  obtain hn | ⟨rpl, hs⟩ := rplScan_fresh h
  · rw [hn]
    exact ⟨_, _, rfl⟩
  · rw [hs]
    exact ⟨rpl, s.rplIndex, rfl⟩

/-- An acknowledgement changes nothing else. -/
theorem sendAck_eq (cfg : RxCfg) (s : TransRx) (src dst ttl seqAuth : ℕ) (block : BitVec 32)
    (obo : Bool) :
    ∃ acks, sendAck cfg s src dst ttl seqAuth block obo = { s with acks := acks } := by
  unfold sendAck
  split
  · exact ⟨s.acks, rfl⟩
  · split
    · exact ⟨s.acks, rfl⟩
    · exact ⟨_, rfl⟩

end Contexts

section Blocks

/-- The bit of a segment. -/
theorem getLsbD_bit {o k : ℕ} (hk : k < 32) :
    (BitVec.ofNat 32 (2 ^ o)).getLsbD k = decide (o = k) := by
  rw [BitVec.getLsbD_ofNat, Nat.testBit_two_pow]
  simp [hk]

/-- A complete message has the bits of its segments. -/
theorem getLsbD_blockComplete {segN k : ℕ} (hk : k < 32) :
    (blockComplete segN).getLsbD k = decide (k ≤ segN) := by
  unfold blockComplete
  rw [BitVec.getLsbD_ofNat, Nat.testBit_two_pow_sub_one]
  simp [hk]

/-- Bits outside the message. -/
def BitsIn (segN : ℕ) (b : BitVec 32) : Prop := ∀ k < 32, b.getLsbD k = true → k ≤ segN

/-- One more segment of the message. -/
theorem BitsIn.set {segN o : ℕ} {b : BitVec 32} (h : BitsIn segN b) (ho : o ≤ segN) :
    BitsIn segN (b ||| BitVec.ofNat 32 (2 ^ o)) := by
  intro k hk hbit
  rw [BitVec.getLsbD_or, getLsbD_bit hk, Bool.or_eq_true, decide_eq_true_eq] at hbit
  obtain hbit | rfl := hbit
  · exact h k hk hbit
  · exact ho

/-- Complete means all bits. -/
theorem eq_blockComplete {segN : ℕ} {b : BitVec 32} (hin : BitsIn segN b)
    (hall : ∀ k ≤ segN, k < 32 → b.getLsbD k = true) : b = blockComplete segN := by
  apply BitVec.eq_of_getLsbD_eq
  intro k hk
  rw [getLsbD_blockComplete hk]
  by_cases hle : k ≤ segN
  · rw [hall k hle hk, decide_eq_true hle]
  · rw [decide_eq_false hle, Bool.eq_false_iff]
    exact fun hbit => hle (hin k hk hbit)

end Blocks

section Flow

/-- A message on its way: what was sent, from whom, with which SeqAuth and under which numbers, and how
the receiver sees it. -/
structure SegFlow where
  p : SegSdu
  src : ℕ
  start : ℕ
  num : ℕ → ℕ
  mono : StrictMono num
  start_le : start ≤ num 0
  ivIndex : UInt32
  oldIv : Bool
  localMatch : Bool
  friendMatch : Bool

namespace SegFlow

variable (f : SegFlow)

/-- The context of a PDU with a given number. -/
def netOf (seq ttl : ℕ) : NetRx :=
  ⟨f.src, f.p.dst, seq, f.oldIv, false, f.localMatch, f.friendMatch, ttl⟩

def pdu (o : ℕ) : List UInt8 := f.p.segPdu (f.start % 2 ^ 13) o

/-- The IV index under which it was sent. -/
def iv : ℕ := (f.ivIndex - (if f.oldIv then 1 else 0)).toNat

/-- The SeqAuth that the receiver computes from a segment. -/
def auth (o : ℕ) : ℕ := seqAuthOf f.iv (f.num o / 2 ^ 13 * 2 ^ 13 + f.start % 2 ^ 13)

/-- The SeqAuth of the message. -/
def msgAuth : ℕ := seqAuthOf f.iv f.start

def hdr : UInt8 := UInt8.ofNat (segHdrByte f.p.devKey f.p.aid)

def segHdr (o : ℕ) : SegHdr := ⟨f.hdr, f.p.aszmic, f.start % 2 ^ 13, o, f.p.segN⟩

/-- A segment arrives. -/
def event (o ttl now : ℕ) : RxEvent := .pdu (f.netOf (f.num o) ttl) (f.pdu o) now

/-- The context is for the source and destination of the message. -/
def Matches (c : SegRx) : Prop := c.src = f.src ∧ c.dst = f.p.dst

/-- A context that is no context of the message: another pair of addresses, or a message that was
closed before. -/
def Other (c : SegRx) : Prop := f.Matches c → c.inUse = false ∧ c.seqAuth ≠ f.msgAuth

/-- The SDU can be sent and received. -/
structure Fits (cfg : RxCfg) : Prop where
  pos : 0 < f.p.sdu.length
  tx : f.p.sdu.length ≤ btMeshTxSduMax
  rx : f.p.sdu.length ≤ cfg.rxSduMax
  matched : f.localMatch = true ∨ f.friendMatch = true
  room : f.start < 2 ^ 24

/-- No number is beyond the multiple of `2 ^ 13` that follows the first one. -/
def Aligned : Prop := ∀ o ≤ f.p.segN, f.num o / 2 ^ 13 = f.start / 2 ^ 13

/-- The context collects the message and has the segments in `b`. -/
structure Collecting (b : BitVec 32) (c : SegRx) : Prop where
  isFor : f.Matches c
  seqAuth : c.seqAuth = f.msgAuth
  inUse : c.inUse = true
  hdr : c.hdr = f.hdr
  segN : c.segN = f.p.segN
  ctl : c.ctl = false
  block : c.block = b
  bytes : ∀ o ≤ f.p.segN, b.getLsbD o = true →
    readBytes c.bufData (o * 12) (f.p.chunk o).length = f.p.chunk o
  len : b.getLsbD f.p.segN = true → c.bufLen = f.p.sdu.length

/-- The context has seen the whole message. -/
structure Closed (c : SegRx) : Prop where
  isFor : f.Matches c
  seqAuth : c.seqAuth = f.msgAuth
  inUse : c.inUse = false
  hdr : c.hdr = f.hdr
  segN : c.segN = f.p.segN
  ctl : c.ctl = false
  block : c.block = blockComplete f.p.segN

/-- What is handed on when segment `o` completes the message. -/
def handed (o ttl : ℕ) : Handed :=
  ⟨f.netOf (if f.friendMatch then f.num o else f.start) ttl, f.hdr, f.p.aszmic, f.p.sdu,
    f.msgAuth⟩

end SegFlow

variable {cfg : RxCfg} {f : SegFlow} {s : TransRx} {b : BitVec 32} {c : SegRx}
  {pre post : List SegRx} {o ttl now : ℕ}

/-- A message that fits has at most eight segments. -/
theorem SegFlow.Fits.segN_lt (h : f.Fits cfg) : f.p.segN < 8 := Analysis.segN_lt h.tx

/-- The segments of an aligned message have one SeqAuth. -/
theorem SegFlow.Aligned.auth (h : f.Aligned) (ho : o ≤ f.p.segN) : f.auth o = f.msgAuth := by
  have hsame := h o ho
  unfold SegFlow.auth SegFlow.msgAuth seqAuthOf
  omega

/-- Contexts of other messages are passed over by the lookup. -/
theorem SegFlow.Aligned.passed (h : f.Aligned) (ho : o ≤ f.p.segN) {l : List SegRx}
    (hl : ∀ x ∈ l, f.Other x) : ∀ x ∈ l, x.src = f.src ∧ x.dst = f.p.dst →
      x.inUse = false ∧ x.seqAuth ≠ f.auth o := by
  intro x hx hm
  rw [h.auth ho]
  exact hl x hx hm

/-- One number for each segment. -/
theorem SegFlow.start_le_num (f : SegFlow) (o : ℕ) : f.start ≤ f.num o :=
  f.start_le.trans (f.mono.monotone (Nat.zero_le o))

/-- A segment is looked up by the SeqAuth that is computed from it. -/
theorem transRecv_eq (hfit : f.Fits cfg) (hiv : s.ivIndex = f.ivIndex) (ho : o ≤ f.p.segN) :
    transRecv cfg s (f.netOf (f.num o) ttl) (f.pdu o) now =
      match segRxFind (f.netOf (f.num o) ttl) (f.auth o) s.segRx with
      | (some i, segRx) =>
        let s := { s with segRx := segRx }
        if ¬ segRxIsValid (s.rx i) (f.netOf (f.num o) ttl) (f.segHdr o) then (.inval, s)
        else if (s.rx i).inUse then
          segReceive cfg s (f.netOf (f.num o) ttl) (f.segHdr o) i (f.p.chunk o) now
        else if (s.rx i).block = blockComplete (s.rx i).segN then
          (.already, sendAck cfg s f.p.dst f.src ttl (f.auth o) (s.rx i).block (s.rx i).obo)
        else (.inval, s)
      | (none, segRx) =>
        match segRxAlloc (f.netOf (f.num o) ttl) (f.segHdr o) (f.auth o) segRx with
        | none => (.nomem, { s with segRx := segRx })
        | some (i, segRx) =>
          segReceive cfg { s with segRx := segRx } (f.netOf (f.num o) ttl) (f.segHdr o) i
            (f.p.chunk o) now := by
  have hn := hfit.segN_lt
  have hspan := segN_mul_lt hfit.pos
  have hlen : ¬ (f.pdu o).length < 5 := by
    unfold SegFlow.pdu
    rw [length_segPdu, length_chunk]
    omega
  have hhdr : segHdrOf (f.pdu o) = f.segHdr o :=
    segHdrOf_segPdu (Nat.mod_lt _ (by norm_num)) (by omega) (by omega)
  have hle : ¬ (f.segHdr o).segN < (f.segHdr o).segO := not_lt.2 ho
  have hauth : seqAuthOf (s.iviRx (f.netOf (f.num o) ttl)).toNat
      ((f.netOf (f.num o) ttl).seq / 2 ^ 13 * 2 ^ 13 + (f.segHdr o).seqZero) = f.auth o := by
    unfold TransRx.iviRx
    rw [hiv]
    rfl
  have hok : sduLenIsOk cfg false f.p.segN = true := by
    have := hfit.rx
    unfold sduLenIsOk segLen
    simp
    omega
  have hmatched : ¬ (¬ f.localMatch = true ∧ ¬ f.friendMatch = true) := by
    rw [not_and_or, not_not, not_not]
    exact hfit.matched
  have hseg : 128 ≤ ((f.pdu o).getD 0 0).toNat := segPdu_seg f.p _ o
  unfold transRecv
  rw [if_pos hseg]
  show (if ¬ f.localMatch = true ∧ ¬ f.friendMatch = true then (RecvRet.ignored, s) else _) = _
  rw [if_neg hmatched]
  unfold transSeg
  rw [if_neg hlen]
  simp only [hhdr, if_neg hle, hauth]
  rw [show (f.pdu o).drop 4 = f.p.chunk o from rfl]
  cases hfind : segRxFind (f.netOf (f.num o) ttl) (f.auth o) s.segRx with
  | mk found segRx =>
    cases found with
    | some i => rfl
    | none =>
      simp only
      refine (if_neg (show ¬ ¬ sduLenIsOk cfg false f.p.segN = true from not_not.2 hok)).trans ?_
      cases segRxAlloc (f.netOf (f.num o) ttl) (f.segHdr o) (f.auth o) segRx with
      | none => rfl
      | some x => rfl

/-- The bytes of a segment do not touch those of another one. -/
theorem chunk_stored (hfit : f.Fits cfg) (m : Mem) (ho : o ≤ f.p.segN)
    (hold : ∀ k ≤ f.p.segN, b.getLsbD k = true →
      readBytes m (k * 12) (f.p.chunk k).length = f.p.chunk k) :
    ∀ k ≤ f.p.segN, (b ||| BitVec.ofNat 32 (2 ^ o)).getLsbD k = true →
      readBytes (writeBytes m (o * 12) (f.p.chunk o)) (k * 12) (f.p.chunk k).length =
        f.p.chunk k := by
  intro k hk hbit
  have hn := hfit.segN_lt
  have hlen := length_chunk f.p
  by_cases hko : k = o
  · subst hko
    exact readBytes_writeBytes_same _ _ _
  · rw [BitVec.getLsbD_or, getLsbD_bit (by omega : k < 32), Bool.or_eq_true,
      decide_eq_true_eq] at hbit
    obtain hbit | heq := hbit
    · rw [readBytes_writeBytes_disjoint]
      · exact hold k hk hbit
      · rw [hlen, hlen]
        omega
    · exact absurd heq.symm hko

/-- All segments together are the SDU. -/
theorem readBytes_sdu (hfit : f.Fits cfg) {m : Mem}
    (h : ∀ k ≤ f.p.segN, readBytes m (k * 12) (f.p.chunk k).length = f.p.chunk k) :
    readBytes m 0 f.p.sdu.length = f.p.sdu := by
  apply readBytes_eq_of_getD 0
  intro j hj
  obtain ⟨-, hmax⟩ := segN_mul_lt hfit.pos
  have hk : j / 12 ≤ f.p.segN := by omega
  have hlen := length_chunk f.p (j / 12)
  have hread := getD_readBytes m (j / 12 * 12) (f.p.chunk (j / 12)).length (j % 12) 0 (by omega)
  rw [h (j / 12) hk] at hread
  rw [Nat.zero_add, show m j = m (j / 12 * 12 + j % 12) from congrArg m (Nat.div_add_mod' j 12).symm,
    ← hread]
  unfold SegSdu.chunk
  rw [List.getD_eq_getElem?_getD, List.getD_eq_getElem?_getD, List.getElem?_take, List.getElem?_drop,
    if_pos (Nat.mod_lt _ (by norm_num)), Nat.div_add_mod' j 12]

/-- A source without an entry passes. -/
theorem replayed_fresh {net : NetRx} (h : ∀ x ∈ s.rpl, x.src ≠ net.src) :
    ∃ rpl k, replayed s net = (false, { s with rpl := rpl, rplIndex := k }) := by
  unfold replayed
  split
  · exact isReplay_fresh h
  · exact ⟨s.rpl, s.rplIndex, rfl⟩

/-- What changes when a complete message is handed on. -/
theorem segHand_eq (s : TransRx) (net : NetRx) (h : SegHdr) (k : ℕ) (c' : SegRx) :
    ∃ acks, segHand cfg s net h k c' = { s with
      acks := acks, segRx := s.segRx.set k (segRxReset c')
      handed := s.handed ++ [⟨{ net with
          seq := if net.friendMatch then net.seq else c'.seqAuth % 2 ^ 24 }, h.hdr, h.aszmic,
        readBytes c'.bufData 0 c'.bufLen, c'.seqAuth⟩] } := by
  unfold segHand
  simp only
  obtain ⟨acks, hack⟩ := sendAck_eq cfg s net.dst net.src net.sendTtl c'.seqAuth c'.block c'.obo
  rw [hack]
  exact ⟨acks, rfl⟩

/-- A complete message is handed on and its context is closed. -/
theorem segHand_spec {net : NetRx} {h : SegHdr} (hs : s.segRx = pre ++ c :: post) (c' : SegRx) :
    (segHand cfg s net h pre.length c').segRx = pre ++ segRxReset c' :: post ∧
      (segHand cfg s net h pre.length c').ivIndex = s.ivIndex ∧
      (segHand cfg s net h pre.length c').handed = s.handed ++ [⟨{ net with
          seq := if net.friendMatch then net.seq else c'.seqAuth % 2 ^ 24 }, h.hdr, h.aszmic,
        readBytes c'.bufData 0 c'.bufLen, c'.seqAuth⟩] := by
  obtain ⟨acks, heq⟩ := @segHand_eq cfg s net h pre.length c'
  rw [heq]
  exact ⟨setRx_append (segRxReset c') hs, rfl, rfl⟩

/-- A segment is stored, and the last missing one completes the message. -/
theorem segStore_step (hfit : f.Fits cfg) (hs : s.segRx = pre ++ c :: post)
    (hc : f.Collecting b c) (ho : o ≤ f.p.segN)
    (hlen : (b ||| BitVec.ofNat 32 (2 ^ o)).getLsbD f.p.segN = true → c.bufLen = f.p.sdu.length)
    (hrpl : ∀ x ∈ s.rpl, x.src ≠ f.src) :
    (b ||| BitVec.ofNat 32 (2 ^ o) ≠ blockComplete f.p.segN ∧
      ∃ c', (segStore cfg s (f.netOf (f.num o) ttl) (f.segHdr o) pre.length (f.p.chunk o)
          now).2 = s.setRx pre.length c' ∧
        f.Collecting (b ||| BitVec.ofNat 32 (2 ^ o)) c') ∨
    (b ||| BitVec.ofNat 32 (2 ^ o) = blockComplete f.p.segN ∧
      ∃ c' s', (segStore cfg s (f.netOf (f.num o) ttl) (f.segHdr o) pre.length (f.p.chunk o)
          now).2 = s' ∧ s'.segRx = pre ++ c' :: post ∧ s'.ivIndex = s.ivIndex ∧
        s'.handed = s.handed ++ [f.handed o ttl] ∧ f.Closed c') := by
  have hn := hfit.segN_lt
  have hlen12 : segLen c.ctl = 12 := by
    rw [hc.ctl]
    rfl
  have hbytes := chunk_stored hfit c.bufData ho hc.bytes
  have hdata : (segStored cfg (f.segHdr o) (f.p.chunk o) now c).bufData =
      writeBytes c.bufData (o * 12) (f.p.chunk o) := by
    show writeBytes c.bufData (o * segLen c.ctl) _ = _
    rw [hlen12]
  have hblock : (segStored cfg (f.segHdr o) (f.p.chunk o) now c).block =
      b ||| BitVec.ofNat 32 (2 ^ o) := by
    show c.block ||| _ = _
    rw [hc.block]
    rfl
  have hset := setRx_append (segStored cfg (f.segHdr o) (f.p.chunk o) now c) hs
  unfold segStore
  rw [rx_append hs]
  simp only
  by_cases hfull : b ||| BitVec.ofNat 32 (2 ^ o) = blockComplete f.p.segN
  · right
    refine ⟨hfull, ?_⟩
    have hdone : (segStored cfg (f.segHdr o) (f.p.chunk o) now c).block =
        blockComplete (f.segHdr o).segN := hblock.trans hfull
    rw [if_neg (not_not.2 hdone)]
    obtain ⟨rpl, k, hreplay⟩ := @replayed_fresh
      (s.setRx pre.length (segStored cfg (f.segHdr o) (f.p.chunk o) now c))
      (f.netOf (f.num o) ttl) hrpl
    rw [hreplay]
    have hbitN : (b ||| BitVec.ofNat 32 (2 ^ o)).getLsbD f.p.segN = true := by
      rw [hfull, getLsbD_blockComplete (by omega : f.p.segN < 32)]
      simp
    have hsdu : readBytes (segStored cfg (f.segHdr o) (f.p.chunk o) now c).bufData 0 c.bufLen =
        f.p.sdu := by
      rw [hlen hbitN, hdata]
      apply readBytes_sdu hfit
      intro k hk
      apply hbytes k hk
      rw [hfull, getLsbD_blockComplete (by omega : k < 32)]
      exact decide_eq_true hk
    obtain ⟨hrx, hiv, hhanded⟩ := @segHand_spec cfg
      { s.setRx pre.length (segStored cfg (f.segHdr o) (f.p.chunk o) now c) with
        rpl := rpl, rplIndex := k }
      _ pre post (f.netOf (f.num o) ttl) (f.segHdr o) hset
      (segStored cfg (f.segHdr o) (f.p.chunk o) now c)
    refine ⟨_, _, rfl, hrx, hiv, ?_, ?_⟩
    · have hseq : c.seqAuth % 2 ^ 24 = f.start := by
        have := hfit.room
        rw [hc.seqAuth]
        unfold SegFlow.msgAuth seqAuthOf
        omega
      rw [hhanded]
      show s.handed ++ [Handed.mk { f.netOf (f.num o) ttl with
        seq := if f.friendMatch then f.num o else c.seqAuth % 2 ^ 24 } f.hdr f.p.aszmic
          (readBytes _ 0 c.bufLen) c.seqAuth] = _
      rw [hsdu, hseq, hc.seqAuth]
      rfl
    · exact ⟨hc.isFor, hc.seqAuth, rfl, hc.hdr, hc.segN, hc.ctl, hblock.trans hfull⟩
  · left
    refine ⟨hfull, ?_⟩
    have hopen : (segStored cfg (f.segHdr o) (f.p.chunk o) now c).block ≠
        blockComplete (f.segHdr o).segN := fun h => hfull (hblock.symm.trans h)
    rw [if_pos hopen]
    refine ⟨_, rfl, ?_⟩
    refine ⟨hc.isFor, hc.seqAuth, hc.inUse, hc.hdr, hc.segN, hc.ctl, hblock, ?_, hlen⟩
    rw [hdata]
    exact hbytes

/-- The message is not complete: there is no context for it, or one with the segments in `b`. -/
structure Waiting (f : SegFlow) (s₀ : TransRx) (b : BitVec 32) (s : TransRx) : Prop where
  iv : s.ivIndex = f.ivIndex
  handed : s.handed = s₀.handed
  rpl : ∀ x ∈ s.rpl, x.src ≠ f.src
  bits : BitsIn f.p.segN b
  open' : b ≠ blockComplete f.p.segN
  ctx : (b = 0 ∧ (∀ c ∈ s.segRx, f.Other c) ∧ ∃ c ∈ s.segRx, c.inUse = false) ∨
    ∃ pre c post, s.segRx = pre ++ c :: post ∧ (∀ x ∈ pre, f.Other x) ∧ f.Collecting b c

/-- The message was handed on when segment `o` arrived. -/
structure Done (f : SegFlow) (s₀ : TransRx) (o ttl : ℕ) (s : TransRx) : Prop where
  iv : s.ivIndex = f.ivIndex
  handed : s.handed = s₀.handed ++ [f.handed o ttl]
  ctx : ∃ pre c post, s.segRx = pre ++ c :: post ∧ (∀ x ∈ pre, f.Other x) ∧ f.Closed c

/-- A segment for a context that collects the message. -/
theorem segReceive_step {s₀ : TransRx} (hfit : f.Fits cfg) (hs : s.segRx = pre ++ c :: post)
    (hpre : ∀ x ∈ pre, f.Other x) (hc : f.Collecting b c) (ho : o ≤ f.p.segN)
    (hin : BitsIn f.p.segN b) (hopen : b ≠ blockComplete f.p.segN) (hiv : s.ivIndex = f.ivIndex)
    (hhanded : s.handed = s₀.handed) (hrpl : ∀ x ∈ s.rpl, x.src ≠ f.src) :
    (b ||| BitVec.ofNat 32 (2 ^ o) ≠ blockComplete f.p.segN ∧
      Waiting f s₀ (b ||| BitVec.ofNat 32 (2 ^ o)) (segReceive cfg s (f.netOf (f.num o) ttl)
        (f.segHdr o) pre.length (f.p.chunk o) now).2) ∨
    (b ||| BitVec.ofNat 32 (2 ^ o) = blockComplete f.p.segN ∧
      Done f s₀ o ttl (segReceive cfg s (f.netOf (f.num o) ttl) (f.segHdr o) pre.length
        (f.p.chunk o) now).2) := by
  have hn := hfit.segN_lt
  have hspan := segN_mul_lt hfit.pos
  have hrx := hfit.rx
  have hlen := length_chunk f.p o
  -- what follows once the segment is stored in a context with the right length
  have hstore : ∀ (s₁ : TransRx) (c₁ : SegRx), s₁.segRx = pre ++ c₁ :: post → f.Collecting b c₁ →
      ((b ||| BitVec.ofNat 32 (2 ^ o)).getLsbD f.p.segN = true → c₁.bufLen = f.p.sdu.length) →
      s₁.ivIndex = f.ivIndex → s₁.handed = s₀.handed → (∀ x ∈ s₁.rpl, x.src ≠ f.src) →
      (b ||| BitVec.ofNat 32 (2 ^ o) ≠ blockComplete f.p.segN ∧
        Waiting f s₀ (b ||| BitVec.ofNat 32 (2 ^ o)) (segStore cfg s₁ (f.netOf (f.num o) ttl)
          (f.segHdr o) pre.length (f.p.chunk o) now).2) ∨
      (b ||| BitVec.ofNat 32 (2 ^ o) = blockComplete f.p.segN ∧
        Done f s₀ o ttl (segStore cfg s₁ (f.netOf (f.num o) ttl) (f.segHdr o) pre.length
          (f.p.chunk o) now).2) := by
    intro s₁ c₁ hs₁ hc₁ hlen₁ hiv₁ hhanded₁ hrpl₁
    obtain ⟨hne, c', hres, hc'⟩ | ⟨heq, c', s', hres, hs', hiv', hhanded', hc'⟩ :=
      @segStore_step cfg f s₁ b c₁ pre post o ttl now hfit hs₁ hc₁ ho hlen₁ hrpl₁
    · refine Or.inl ⟨hne, ?_⟩
      rw [hres]
      exact ⟨hiv₁, hhanded₁, hrpl₁, hin.set ho, hne,
        Or.inr ⟨pre, c', post, setRx_append c' hs₁, hpre, hc'⟩⟩
    · refine Or.inr ⟨heq, ?_⟩
      rw [hres]
      exact ⟨hiv'.trans hiv₁, by rw [hhanded', hhanded₁], pre, c', post, hs', hpre, hc'⟩
  unfold segReceive
  rw [rx_append hs]
  simp only
  split
  case isTrue hbit =>
    -- a duplicate
    rw [hc.block] at hbit
    have hsame : b ||| BitVec.ofNat 32 (2 ^ o) = b := by
      apply BitVec.eq_of_getLsbD_eq
      intro k hk
      rw [BitVec.getLsbD_or, getLsbD_bit hk]
      by_cases hok : o = k
      · subst hok
        rw [show b.getLsbD o = true from hbit]
        rfl
      · rw [decide_eq_false hok, Bool.or_false]
    rw [hsame]
    exact Or.inl ⟨hopen, hiv, hhanded, hrpl, hin, hopen, Or.inr ⟨pre, c, post, hs, hpre, hc⟩⟩
  case isFalse hbit =>
    split
    case isTrue hlast =>
      have hlast : o = f.p.segN := hlast
      have hbuf : f.p.segN * segLen c.ctl + (f.p.chunk o).length = f.p.sdu.length := by
        rw [hc.ctl, hlen, hlast]
        show f.p.segN * 12 + _ = _
        omega
      have hroom : ¬ cfg.rxSduMax < (f.segHdr o).segN * segLen c.ctl + (f.p.chunk o).length := by
        show ¬ cfg.rxSduMax < f.p.segN * segLen c.ctl + (f.p.chunk o).length
        rw [hbuf]
        omega
      rw [if_neg hroom]
      exact hstore _ { c with bufLen := f.p.segN * segLen c.ctl + (f.p.chunk o).length }
        (setRx_append _ hs)
        ⟨hc.isFor, hc.seqAuth, hc.inUse, hc.hdr, hc.segN, hc.ctl, hc.block, hc.bytes, fun _ => hbuf⟩
        (fun _ => hbuf) hiv hhanded hrpl
    case isFalse hlast =>
      have hlast : o ≠ f.p.segN := hlast
      rw [if_neg (show ¬ (f.p.chunk o).length ≠ segLen c.ctl by
        rw [not_not, hc.ctl, hlen]
        show _ = 12
        omega)]
      refine hstore s c hs hc ?_ hiv hhanded hrpl
      intro hbitN
      rw [BitVec.getLsbD_or, getLsbD_bit (by omega : f.p.segN < 32), decide_eq_false hlast,
        Bool.or_false] at hbitN
      exact hc.len hbitN

/-- A context that was taken for the message has nothing of it. -/
theorem collecting_taken (f : SegFlow) (o ttl : ℕ) (c : SegRx) (h : f.auth o = f.msgAuth) :
    f.Collecting 0 (takenFor (f.netOf (f.num o) ttl) (f.segHdr o) (f.auth o) c) := by
  refine ⟨⟨rfl, rfl⟩, h, rfl, rfl, rfl, rfl, rfl, ?_, ?_⟩
  · intro k _ hbit
    simp at hbit
  · intro hbit
    simp at hbit

/-- **One segment** of an aligned message brings it one step further. -/
theorem Waiting.step {s₀ : TransRx} (h : Waiting f s₀ b s) (hfit : f.Fits cfg) (hal : f.Aligned)
    (ho : o ≤ f.p.segN) :
    (b ||| BitVec.ofNat 32 (2 ^ o) ≠ blockComplete f.p.segN ∧
      Waiting f s₀ (b ||| BitVec.ofNat 32 (2 ^ o))
        (transRecv cfg s (f.netOf (f.num o) ttl) (f.pdu o) now).2) ∨
    (b ||| BitVec.ofNat 32 (2 ^ o) = blockComplete f.p.segN ∧
      Done f s₀ o ttl (transRecv cfg s (f.netOf (f.num o) ttl) (f.pdu o) now).2) := by
  rw [transRecv_eq hfit h.iv ho]
  obtain ⟨hzero, hnone, hfree⟩ | ⟨pre, c, post, hs, hpre, hc⟩ := h.ctx
  · rw [@segRxFind_none (f.netOf (f.num o) ttl) (f.auth o) s.segRx (hal.passed ho hnone)]
    obtain ⟨pre, c, post, hs, halloc⟩ : ∃ pre c post, s.segRx = pre ++ c :: post ∧
        segRxAlloc (f.netOf (f.num o) ttl) (f.segHdr o) (f.auth o) s.segRx =
          some (pre.length, pre ++ takenFor (f.netOf (f.num o) ttl) (f.segHdr o) (f.auth o) c ::
            post) := by
      obtain ⟨-, hall⟩ | halloc := @segRxAlloc_cases (f.netOf (f.num o) ttl) (f.auth o)
        (f.segHdr o) s.segRx
      · obtain ⟨c, hc, hf⟩ := hfree
        rw [hall c hc] at hf
        cases hf
      · exact halloc
    simp only
    rw [halloc]
    subst hzero
    refine segReceive_step hfit rfl ?_ (collecting_taken f o ttl c (hal.auth ho)) ho h.bits h.open'
      h.iv h.handed h.rpl
    intro x hx
    apply hnone x
    rw [hs]
    exact List.mem_append_left _ hx
  · have hfound : segRxFind (f.netOf (f.num o) ttl) (f.auth o) s.segRx =
        (some pre.length, s.segRx) := by
      rw [hs]
      exact segRxFind_found (hal.passed ho hpre) hc.isFor.1 hc.isFor.2
          (hc.seqAuth.trans (hal.auth ho).symm)
    rw [hfound]
    have hrx : ({ s with segRx := s.segRx } : TransRx).rx pre.length = c := rx_append hs
    have hvalid : segRxIsValid c (f.netOf (f.num o) ttl) (f.segHdr o) = true := by
      unfold segRxIsValid
      rw [hc.hdr, hc.segN, hc.isFor.1, hc.isFor.2, hc.ctl]
      simp [SegFlow.netOf, SegFlow.segHdr]
    simp only [hrx, hvalid, hc.inUse, not_true, if_false, if_true]
    exact segReceive_step hfit hs hpre hc ho h.bits h.open' h.iv h.handed h.rpl

/-- A segment of a message that is complete is only acknowledged. -/
theorem Done.step {s₀ : TransRx} {o' ttl' : ℕ} (h : Done f s₀ o' ttl' s) (hfit : f.Fits cfg)
    (hal : f.Aligned) (ho : o ≤ f.p.segN) :
    Done f s₀ o' ttl' (transRecv cfg s (f.netOf (f.num o) ttl) (f.pdu o) now).2 := by
  rw [transRecv_eq hfit h.iv ho]
  obtain ⟨pre, c, post, hs, hpre, hc⟩ := h.ctx
  have hfound : segRxFind (f.netOf (f.num o) ttl) (f.auth o) s.segRx =
      (some pre.length, s.segRx) := by
    rw [hs]
    exact segRxFind_found (hal.passed ho hpre) hc.isFor.1 hc.isFor.2
      (hc.seqAuth.trans (hal.auth ho).symm)
  rw [hfound]
  have hrx : ({ s with segRx := s.segRx } : TransRx).rx pre.length = c := rx_append hs
  have hvalid : segRxIsValid c (f.netOf (f.num o) ttl) (f.segHdr o) = true := by
    unfold segRxIsValid
    rw [hc.hdr, hc.segN, hc.isFor.1, hc.isFor.2, hc.ctl]
    simp [SegFlow.netOf, SegFlow.segHdr]
  have hfull : c.block = blockComplete c.segN := by rw [hc.block, hc.segN]
  simp only [hrx, hvalid, hc.inUse, not_true, if_false, Bool.false_eq_true, hfull, if_true]
  obtain ⟨acks, hack⟩ := sendAck_eq cfg s f.p.dst f.src ttl (f.auth o) c.block c.obo
  rw [hfull] at hack
  rw [hack]
  exact ⟨h.iv, h.handed, pre, c, post, hs, hpre, hc⟩

/-- All events are segments of the message. -/
def OfMessage (f : SegFlow) (evs : List RxEvent) : Prop :=
  ∀ e ∈ evs, ∃ o ttl now, o ≤ f.p.segN ∧ e = f.event o ttl now

/-- Segment `o` is among the events. -/
def Has (f : SegFlow) (evs : List RxEvent) (o : ℕ) : Prop := ∃ ttl now, f.event o ttl now ∈ evs

/-- The PDUs of different segments are different. -/
theorem event_inj {o o' ttl ttl' now now' : ℕ} (h : f.event o ttl now = f.event o' ttl' now') :
    o = o' := by
  unfold SegFlow.event at h
  have hseq := congrArg (fun e => match e with
    | RxEvent.pdu net _ _ => net.seq
    | _ => 0) h
  exact f.mono.injective hseq

/-- One more segment that has come in. -/
theorem has_cons {evs : List RxEvent} {o k : ℕ} :
    Has f (f.event o ttl now :: evs) k ↔ k = o ∨ Has f evs k := by
  constructor
  · rintro ⟨ttl', now', hmem⟩
    obtain heq | hmem := List.mem_cons.1 hmem
    · exact Or.inl (event_inj heq)
    · exact Or.inr ⟨ttl', now', hmem⟩
  · rintro (rfl | ⟨ttl', now', hmem⟩)
    · exact ⟨ttl, now, by simp⟩
    · exact ⟨ttl', now', List.mem_cons_of_mem _ hmem⟩

/-- Nothing happens to a message that is done. -/
theorem Done.run {s₀ : TransRx} {o' ttl' : ℕ} (hfit : f.Fits cfg) (hal : f.Aligned)
    (evs : List RxEvent) : ∀ s, Done f s₀ o' ttl' s → OfMessage f evs →
      ∃ s', runSteps (rxStep cfg) s evs = some s' ∧ Done f s₀ o' ttl' s' := by
  induction evs with
  | nil =>
    intro s h _
    exact ⟨s, rfl, h⟩
  | cons e evs ih =>
    intro s h hof
    obtain ⟨o, ttl, now, ho, rfl⟩ := hof e (by simp)
    exact ih _ (h.step hfit hal ho) fun e he => hof e (List.mem_cons_of_mem _ he)

/-- **Any order of segments.** The message waits for the segments that did not arrive, or it was
handed on once. -/
theorem Waiting.run {s₀ : TransRx} (hfit : f.Fits cfg) (hal : f.Aligned) (evs : List RxEvent) :
    ∀ b s, Waiting f s₀ b s → OfMessage f evs →
      ∃ s', runSteps (rxStep cfg) s evs = some s' ∧
        ((∃ b', Waiting f s₀ b' s' ∧
            ∀ k < 32, b'.getLsbD k = true ↔ b.getLsbD k = true ∨ Has f evs k) ∨
          (∃ o ttl, o ≤ f.p.segN ∧ Done f s₀ o ttl s' ∧
            ∀ k ≤ f.p.segN, b.getLsbD k = true ∨ Has f evs k)) := by
  have hn := hfit.segN_lt
  induction evs with
  | nil =>
    intro b s h _
    refine ⟨s, rfl, Or.inl ⟨b, h, ?_⟩⟩
    intro k _
    simp [Has]
  | cons e evs ih =>
    intro b s h hof
    obtain ⟨o, ttl, now, ho, rfl⟩ := hof e (by simp)
    have hof' : OfMessage f evs := fun e he => hof e (List.mem_cons_of_mem _ he)
    have hbit : ∀ k < 32, (b ||| BitVec.ofNat 32 (2 ^ o)).getLsbD k = true ↔
        b.getLsbD k = true ∨ k = o := by
      intro k hk
      rw [BitVec.getLsbD_or, getLsbD_bit hk, Bool.or_eq_true, decide_eq_true_eq, @eq_comm _ o k]
    obtain ⟨-, hwait⟩ | ⟨hfull, hdone⟩ := @Waiting.step cfg f s b o ttl now s₀ h hfit hal ho
    · obtain ⟨s', hrun, ⟨b', hwait', hbits⟩ | ⟨o', ttl', ho', hdone', hall⟩⟩ := ih _ _ hwait hof'
      · refine ⟨s', hrun, Or.inl ⟨b', hwait', ?_⟩⟩
        intro k hk
        rw [hbits k hk, hbit k hk, has_cons, or_assoc]
      · refine ⟨s', hrun, Or.inr ⟨o', ttl', ho', hdone', ?_⟩⟩
        intro k hk
        rw [has_cons, ← or_assoc, ← hbit k (by omega)]
        exact hall k hk
    · obtain ⟨s', hrun, hdone'⟩ := hdone.run hfit hal evs _ hof'
      refine ⟨s', hrun, Or.inr ⟨o, ttl, ho, hdone', ?_⟩⟩
      intro k hk
      rw [has_cons, ← or_assoc, ← hbit k (by omega), hfull,
        getLsbD_blockComplete (by omega : k < 32)]
      exact Or.inl (decide_eq_true hk)

/-- An open context of the message has only segments from which its own SeqAuth is computed. -/
def OwnBits (f : SegFlow) (c : SegRx) : Prop :=
  f.Matches c → c.inUse = true → ∀ k < 32, c.block.getLsbD k = true → f.auth k = c.seqAuth

/-- Whatever was handed on since `before` has a SeqAuth that is not the message's. -/
def OnlyWrong (f : SegFlow) (before handed : List Handed) : Prop :=
  ∃ wrong, handed = before ++ wrong ∧ ∀ x ∈ wrong, x.seqAuth ≠ f.msgAuth

/-- One more of them. -/
theorem OnlyWrong.snoc {before handed : List Handed} {x : Handed} (h : OnlyWrong f before handed)
    (hx : x.seqAuth ≠ f.msgAuth) : OnlyWrong f before (handed ++ [x]) := by
  obtain ⟨wrong, rfl, hne⟩ := h
  refine ⟨wrong ++ [x], List.append_assoc .., ?_⟩
  intro y hy
  obtain hy | hy := List.mem_append.1 hy
  · exact hne y hy
  · rwa [List.mem_singleton.1 hy]

/-- The contexts of the message are split by SeqAuth, and nothing was handed on under the right one. -/
structure Split (f : SegFlow) (s₀ s : TransRx) : Prop where
  iv : s.ivIndex = f.ivIndex
  handed : OnlyWrong f s₀.handed s.handed
  ctx : ∀ c ∈ s.segRx, OwnBits f c

/-- A segment whose number is too far gets another SeqAuth. -/
theorem auth_ne (hal : ¬ f.Aligned) : ∃ o ≤ f.p.segN, f.auth o ≠ f.msgAuth := by
  unfold SegFlow.Aligned at hal
  push Not at hal
  obtain ⟨o, ho, hne⟩ := hal
  refine ⟨o, ho, ?_⟩
  unfold SegFlow.auth SegFlow.msgAuth seqAuthOf
  omega

/-- A lookup closes at most one context. -/
theorem segRxFind_mem {net : NetRx} {a : ℕ} {l : List SegRx} {P : SegRx → Prop}
    (hP : ∀ c ∈ l, P c) (hreset : ∀ c, P c → P (segRxReset c)) :
    (∀ c ∈ (segRxFind net a l).2, P c) ∧
      ∀ k, (segRxFind net a l).1 = some k → (segRxFind net a l).2 = l ∧ k < l.length ∧
        ∀ c, l[k]? = some c → c.src = net.src ∧ c.dst = net.dst ∧ c.seqAuth = a := by
  induction l with
  | nil => simp [segRxFind]
  | cons x l ih =>
    obtain ⟨ihmem, ihfound⟩ := ih fun c hc => hP c (List.mem_cons_of_mem _ hc)
    have hx := hP x (by simp)
    -- passing over `x`
    have hnext : (∀ c ∈ x :: (segRxFind net a l).2, P c) ∧
        ∀ k, (segRxFind net a l).1.map (· + 1) = some k →
          x :: (segRxFind net a l).2 = x :: l ∧ k < (x :: l).length ∧
            ∀ c, (x :: l)[k]? = some c → c.src = net.src ∧ c.dst = net.dst ∧ c.seqAuth = a := by
      constructor
      · intro c hc
        obtain rfl | hc := List.mem_cons.1 hc
        · exact hx
        · exact ihmem c hc
      · intro k hk
        obtain ⟨j, hj, rfl⟩ := Option.map_eq_some_iff.1 hk
        obtain ⟨hsame, hlt, hget⟩ := ihfound j hj
        refine ⟨by rw [hsame], Nat.succ_lt_succ hlt, ?_⟩
        intro c hc
        rw [List.getElem?_cons_succ] at hc
        exact hget c hc
    unfold segRxFind
    simp only
    split
    case isTrue => exact hnext
    case isFalse hmatch =>
      rw [not_or, not_not, not_not] at hmatch
      split
      case isTrue ha =>
        refine ⟨hP, ?_⟩
        intro k hk
        cases hk
        refine ⟨rfl, Nat.succ_pos _, ?_⟩
        intro c hc
        cases hc
        exact ⟨hmatch.1, hmatch.2, ha⟩
      case isFalse =>
        split
        case isTrue =>
          refine ⟨?_, fun k hk => (by cases hk)⟩
          intro c hc
          obtain rfl | hc := List.mem_cons.1 hc
          · exact hreset x hx
          · exact hP c (List.mem_cons_of_mem _ hc)
        case isFalse => exact hnext

/-- One context is changed. -/
theorem Split.setRx {s₀ s₁ : TransRx} {k : ℕ} {c' : SegRx} (h : Split f s₀ s) (hc : OwnBits f c')
    (hrx : s₁.segRx = s.segRx.set k c') (hiv : s₁.ivIndex = s.ivIndex)
    (hhanded : s₁.handed = s.handed) : Split f s₀ s₁ := by
  refine ⟨hiv.trans h.iv, by rw [hhanded]; exact h.handed, ?_⟩
  intro c hmem
  rw [hrx] at hmem
  obtain hmem | rfl := List.mem_or_eq_of_mem_set hmem
  · exact h.ctx c hmem
  · exact hc

/-- The question whether a PDU is a replay changes the replay list only. -/
theorem replayed_eq (s : TransRx) (net : NetRx) :
    ∃ b rpl k, replayed s net = (b, { s with rpl := rpl, rplIndex := k }) := by
  unfold replayed
  split
  · unfold isReplay
    split
    · exact ⟨_, _, _, rfl⟩
    · exact ⟨_, _, _, rfl⟩
  · exact ⟨_, _, _, rfl⟩

/-- A segment never completes a context of the message under the right SeqAuth. -/
theorem segReceive_split {s₀ : TransRx} {k : ℕ} (hfit : f.Fits cfg) (hal : ¬ f.Aligned)
    (h : Split f s₀ s) (hk : k < s.segRx.length) (hown : OwnBits f (s.rx k))
    (hfor : f.Matches (s.rx k)) (huse : (s.rx k).inUse = true)
    (hauth : (s.rx k).seqAuth = f.auth o) :
    Split f s₀ (segReceive cfg s (f.netOf (f.num o) ttl) (f.segHdr o) k (f.p.chunk o) now).2 := by
  have hn := hfit.segN_lt
  have hstored : ∀ c, OwnBits f c → f.Matches c → c.inUse = true → c.seqAuth = f.auth o →
      OwnBits f (segStored cfg (f.segHdr o) (f.p.chunk o) now c) := by
    intro c hc hm hu ha _ _ j hj hbit
    have hbit : (c.block ||| BitVec.ofNat 32 (2 ^ o)).getLsbD j = true := hbit
    rw [BitVec.getLsbD_or, getLsbD_bit hj, Bool.or_eq_true, decide_eq_true_eq] at hbit
    obtain hbit | rfl := hbit
    · exact hc hm hu j hj hbit
    · exact ha.symm
  have hwrong : ∀ c, OwnBits f c → f.Matches c → c.inUse = true → c.seqAuth = f.auth o →
      (segStored cfg (f.segHdr o) (f.p.chunk o) now c).block = blockComplete f.p.segN →
      c.seqAuth ≠ f.msgAuth := by
    intro c hc hm hu ha hfull
    have hbits := hstored c hc hm hu ha hm hu
    rw [hfull] at hbits
    obtain ⟨o', ho', hne⟩ := auth_ne hal
    have hsame : f.auth o' = c.seqAuth := hbits o' (by omega)
      (by rw [getLsbD_blockComplete (by omega)]; exact decide_eq_true ho')
    rwa [← hsame]
  -- storing the segment in the context `c`, which is the `k`-th one
  have hstore : ∀ s₁ : TransRx, Split f s₀ s₁ → OwnBits f (s₁.rx k) → f.Matches (s₁.rx k) →
      (s₁.rx k).inUse = true → (s₁.rx k).seqAuth = f.auth o → Split f s₀ (segStore cfg s₁ (f.netOf (f.num o) ttl)
        (f.segHdr o) k (f.p.chunk o) now).2 := by
    intro s₁ h₁ hc hm hu ha
    unfold segStore
    simp only
    split
    case isTrue => exact h₁.setRx (hstored _ hc hm hu ha) rfl rfl rfl
    case isFalse hfull =>
      rw [not_not] at hfull
      obtain ⟨b, rpl, j, hreplay⟩ := replayed_eq
        (s₁.setRx k (segStored cfg (f.segHdr o) (f.p.chunk o) now (s₁.rx k))) (f.netOf (f.num o) ttl)
      rw [hreplay]
      cases b with
      | true =>
        have hold : OwnBits f { segStored cfg (f.segHdr o) (f.p.chunk o) now (s₁.rx k) with
            block := (s₁.rx k).block } := fun hm hu => hc hm hu
        exact h₁.setRx hold (List.set_set ..) rfl rfl
      | false =>
        obtain ⟨acks, hhand⟩ := @segHand_eq cfg
          { s₁.setRx k (segStored cfg (f.segHdr o) (f.p.chunk o) now (s₁.rx k)) with
            rpl := rpl, rplIndex := j } (f.netOf (f.num o) ttl) (f.segHdr o) k
          (segStored cfg (f.segHdr o) (f.p.chunk o) now (s₁.rx k))
        rw [show (RecvRet.handed, segHand _ _ _ _ _ _).2 = _ from hhand]
        refine ⟨h₁.iv, h₁.handed.snoc (hwrong (s₁.rx k) hc hm hu ha hfull), ?_⟩
        intro c hmem
        obtain hmem | rfl := List.mem_or_eq_of_mem_set hmem
        · obtain hmem | rfl := List.mem_or_eq_of_mem_set hmem
          · exact h₁.ctx c hmem
          · exact hstored _ hc hm hu ha
        · exact fun _ hu' => (by cases hu')
  unfold segReceive
  simp only
  split
  case isTrue => exact h
  case isFalse =>
    split
    case isTrue =>
      have hown₁ : OwnBits f { s.rx k with
          bufLen := (f.segHdr o).segN * segLen (s.rx k).ctl + (f.p.chunk o).length } :=
        fun hm => hown hm
      have h₁ : Split f s₀ (s.setRx k { s.rx k with
          bufLen := (f.segHdr o).segN * segLen (s.rx k).ctl + (f.p.chunk o).length }) :=
        h.setRx hown₁ rfl rfl rfl
      split
      case isTrue =>
        obtain ⟨acks, hack⟩ := sendAck_eq cfg (s.setRx k { s.rx k with
          bufLen := (f.segHdr o).segN * segLen (s.rx k).ctl + (f.p.chunk o).length })
          (f.netOf (f.num o) ttl).dst (f.netOf (f.num o) ttl).src
          (f.netOf (f.num o) ttl).sendTtl (s.rx k).seqAuth 0 (s.rx k).obo
        rw [hack]
        have hclosed : OwnBits f (segRxReset { s.rx k with
            bufLen := (f.segHdr o).segN * segLen (s.rx k).ctl + (f.p.chunk o).length }) :=
          fun _ hu => (by cases hu)
        exact h₁.setRx hclosed rfl rfl rfl
      case isFalse =>
        have hrx := rx_setRx { s.rx k with
          bufLen := (f.segHdr o).segN * segLen (s.rx k).ctl + (f.p.chunk o).length } hk
        refine hstore _ h₁ ?_ ?_ ?_ ?_
        · rw [hrx]
          exact hown₁
        · rw [hrx]
          exact hfor
        · rw [hrx]
          exact huse
        · rw [hrx]
          exact hauth
    case isFalse =>
      split
      case isTrue => exact h
      case isFalse => exact hstore s h hown hfor huse hauth

/-- **A message that crosses a multiple of `2 ^ 13`** is not handed on by any of its segments. -/
theorem Split.step {s₀ : TransRx} (h : Split f s₀ s) (hfit : f.Fits cfg) (hal : ¬ f.Aligned)
    (ho : o ≤ f.p.segN) :
    Split f s₀ (transRecv cfg s (f.netOf (f.num o) ttl) (f.pdu o) now).2 := by
  rw [transRecv_eq hfit h.iv ho]
  obtain ⟨hmem, hfound⟩ := @segRxFind_mem (f.netOf (f.num o) ttl) (f.auth o) s.segRx
    (OwnBits f) h.ctx (fun c _ _ hu => (by cases hu))
  cases hfind : segRxFind (f.netOf (f.num o) ttl) (f.auth o) s.segRx with
  | mk found segRx =>
    rw [hfind] at hmem hfound
    have h₁ : Split f s₀ { s with segRx := segRx } := ⟨h.iv, h.handed, hmem⟩
    cases found with
    | some k =>
      obtain ⟨hsame, hk, hget⟩ := hfound k rfl
      have hsame : segRx = s.segRx := hsame
      subst hsame
      have hrx : ({ s with segRx := s.segRx } : TransRx).rx k = s.segRx[k] := by
        unfold TransRx.rx
        exact List.getD_eq_getElem _ _ hk
      have hin : s.segRx[k] ∈ s.segRx := List.getElem_mem hk
      obtain ⟨hsrc, hdst, hauth⟩ := hget s.segRx[k] (List.getElem?_eq_getElem hk)
      simp only
      split
      case isTrue => exact h₁
      case isFalse =>
        split
        case isTrue huse =>
          refine segReceive_split hfit hal h₁ hk ?_ ?_ huse ?_
          · rw [hrx]
            exact h.ctx _ hin
          · rw [hrx]
            exact ⟨hsrc, hdst⟩
          · rw [hrx]
            exact hauth
        case isFalse =>
          split
          case isTrue =>
            obtain ⟨acks, hack⟩ := sendAck_eq cfg s f.p.dst f.src ttl (f.auth o)
              (s.rx k).block (s.rx k).obo
            exact ⟨by rw [show sendAck _ _ _ _ _ _ _ _ = _ from hack]; exact h.iv,
              by rw [show sendAck _ _ _ _ _ _ _ _ = _ from hack]; exact h.handed,
              by rw [show sendAck _ _ _ _ _ _ _ _ = _ from hack]; exact h.ctx⟩
          case isFalse => exact h₁
    | none =>
      simp only
      obtain ⟨hnone, -⟩ | ⟨pre, c, post, hs, halloc⟩ := @segRxAlloc_cases
        (f.netOf (f.num o) ttl) (f.auth o) (f.segHdr o) segRx
      · rw [hnone]
        exact h₁
      · obtain ⟨c₁, hc₁⟩ : ∃ c₁,
            c₁ = takenFor (f.netOf (f.num o) ttl) (f.segHdr o) (f.auth o) c := ⟨_, rfl⟩
        rw [← hc₁] at halloc
        rw [halloc]
        have hown : OwnBits f c₁ := by
          intro _ _ j _ hbit
          simp [hc₁, takenFor] at hbit
        have hrx : ({ s with segRx := pre ++ c₁ :: post } : TransRx).rx pre.length = c₁ :=
          rx_append rfl
        refine segReceive_split hfit hal ⟨h.iv, h.handed, ?_⟩ (by simp) ?_ ?_ ?_ ?_
        · intro c' hc'
          obtain hc' | hc' := List.mem_append.1 hc'
          · exact hmem c' (by rw [hs]; exact List.mem_append_left _ hc')
          · obtain rfl | hc' := List.mem_cons.1 hc'
            · exact hown
            · exact hmem c' (by
                rw [hs]
                exact List.mem_append_right _ (List.mem_cons_of_mem _ hc'))
        · rw [hrx]
          exact hown
        · rw [hrx, hc₁]
          exact ⟨rfl, rfl⟩
        · rw [hrx, hc₁]
          rfl
        · rw [hrx, hc₁]
          rfl

/-- Nothing is handed on by any number of segments. -/
theorem Split.run {s₀ : TransRx} (hfit : f.Fits cfg) (hal : ¬ f.Aligned) (evs : List RxEvent) :
    ∀ s s', Split f s₀ s → OfMessage f evs → runSteps (rxStep cfg) s evs = some s' →
      Split f s₀ s' := by
  induction evs with
  | nil =>
    intro s s' h _ hrun
    cases hrun
    exact h
  | cons e evs ih =>
    intro s s' h hof hrun
    obtain ⟨o, ttl, now, ho, rfl⟩ := hof e (by simp)
    exact ih _ s' (h.step hfit hal ho) (fun e he => hof e (List.mem_cons_of_mem _ he)) hrun

/-- The first `n` segments in order. -/
def inOrder (f : SegFlow) (n : ℕ) : List RxEvent := (List.range n).map fun o => f.event o 0 0

/-- The segments in their order are segments of the message. -/
theorem ofMessage_inOrder {n : ℕ} (hn : n ≤ f.p.segN + 1) : OfMessage f (inOrder f n) := by
  intro e he
  obtain ⟨o, ho, rfl⟩ := List.mem_map.1 he
  have := List.mem_range.1 ho
  exact ⟨o, 0, 0, by omega, rfl⟩

/-- The first segments have come in, and no others. -/
theorem has_inOrder {n k : ℕ} : Has f (inOrder f n) k ↔ k < n := by
  constructor
  · rintro ⟨ttl, now, hmem⟩
    obtain ⟨o, ho, heq⟩ := List.mem_map.1 hmem
    rw [← event_inj heq]
    exact List.mem_range.1 ho
  · intro hk
    exact ⟨0, 0, List.mem_map.2 ⟨k, List.mem_range.2 hk, rfl⟩⟩

/-- A message in order is completed by its last segment. -/
theorem Waiting.inOrder {s₀ : TransRx} (h : Waiting f s₀ 0 s) (hfit : f.Fits cfg)
    (hal : f.Aligned) :
    ∃ s', runSteps (rxStep cfg) s (Analysis.inOrder f (f.p.segN + 1)) = some s' ∧
      Done f s₀ f.p.segN 0 s' := by
  have hn := hfit.segN_lt
  obtain ⟨s₁, hrun, hres⟩ := Waiting.run hfit hal (Analysis.inOrder f f.p.segN) 0 s h
    (ofMessage_inOrder (Nat.le_succ _))
  have happ : Analysis.inOrder f (f.p.segN + 1) =
      Analysis.inOrder f f.p.segN ++ [f.event f.p.segN 0 0] := by
    unfold Analysis.inOrder
    rw [List.range_succ, List.map_append]
    rfl
  rw [happ, runSteps_append, hrun]
  obtain ⟨b, hwait, hbits⟩ | ⟨o, ttl, -, -, hall⟩ := hres
  · have hfull : b ||| BitVec.ofNat 32 (2 ^ f.p.segN) = blockComplete f.p.segN := by
      apply eq_blockComplete (hwait.bits.set le_rfl)
      intro k hk hlt
      rw [BitVec.getLsbD_or, getLsbD_bit hlt, Bool.or_eq_true, decide_eq_true_eq, hbits k hlt,
        has_inOrder]
      omega
    obtain ⟨hne, -⟩ | ⟨-, hdone⟩ := @Waiting.step cfg f s₁ b f.p.segN 0 0 s₀ hwait hfit hal le_rfl
    · exact absurd hfull hne
    · exact ⟨_, rfl, hdone⟩
  · have hlast := hall f.p.segN le_rfl
    rw [has_inOrder] at hlast
    simp at hlast

/-- **Exactly the aligned messages arrive**, and a message that is also for a Low Power node keeps its
number only if that is the number of its last segment. -/
theorem SegFlow.arrives_iff (hfit : f.Fits cfg) (hiv : s.ivIndex = f.ivIndex)
    (hrpl : ∀ x ∈ s.rpl, x.src ≠ f.src) (hother : ∀ c ∈ s.segRx, f.Other c)
    (hfree : ∃ c ∈ s.segRx, c.inUse = false) :
    (∀ evs, OfMessage f evs → (∀ o ≤ f.p.segN, Has f evs o) →
      ∃ s' ttl, runSteps (rxStep cfg) s evs = some s' ∧ s'.handed = s.handed ++
        [⟨f.netOf f.start ttl, f.hdr, f.p.aszmic, f.p.sdu, f.msgAuth⟩]) ↔
      f.Aligned ∧ (f.friendMatch = true → f.num f.p.segN = f.start) := by
  have hn := hfit.segN_lt
  have hopen : (0 : BitVec 32) ≠ blockComplete f.p.segN := by
    intro hzero
    have hbit := @getLsbD_blockComplete f.p.segN 0 (by norm_num)
    rw [← hzero] at hbit
    simp at hbit
  have hwait : Waiting f s 0 s :=
    ⟨hiv, rfl, hrpl, fun k _ hbit => by simp at hbit, hopen, Or.inl ⟨rfl, hother, hfree⟩⟩
  have hof := @ofMessage_inOrder f (f.p.segN + 1) le_rfl
  have hhas : ∀ o ≤ f.p.segN, Has f (Analysis.inOrder f (f.p.segN + 1)) o :=
    fun o ho => has_inOrder.2 (Nat.lt_succ_of_le ho)
  constructor
  · intro hall
    obtain ⟨s', ttl, hrun, hhanded⟩ := hall _ hof hhas
    have hal : f.Aligned := by
      by_contra hal
      have hsplit : Split f s s := by
        refine ⟨hiv, ⟨[], by rw [List.append_nil], fun x hx => (by cases hx)⟩, ?_⟩
        intro c hc hm hu
        rw [(hother c hc hm).1] at hu
        cases hu
      obtain ⟨wrong, heq, hne⟩ := (Split.run hfit hal _ s s' hsplit hof hrun).handed
      rw [hhanded] at heq
      exact hne _ (by rw [← List.append_cancel_left heq]; exact List.mem_singleton_self _) rfl
    refine ⟨hal, ?_⟩
    intro hfm
    obtain ⟨s₁, hrun₁, hdone⟩ := hwait.inOrder hfit hal
    rw [hrun] at hrun₁
    cases hrun₁
    have hsame := hdone.handed
    rw [hhanded] at hsame
    have hseq := congrArg (fun l => l.map fun x => x.net.seq) (List.append_cancel_left hsame)
    simp [SegFlow.handed, SegFlow.netOf, hfm] at hseq
    exact hseq.symm
  · rintro ⟨hal, hfm⟩ evs hof' hhas'
    obtain ⟨s', hrun, ⟨b, hw, hbits⟩ | ⟨o, ttl, ho, hdone, -⟩⟩ := Waiting.run hfit hal evs 0 s hwait hof'
    · apply absurd _ hw.open'
      apply eq_blockComplete hw.bits
      intro k hk hlt
      exact (hbits k hlt).2 (Or.inr (hhas' k hk))
    · refine ⟨s', ttl, hrun, ?_⟩
      rw [hdone.handed]
      have hseq : (if f.friendMatch = true then f.num o else f.start) = f.start := by
        split
        case isTrue h =>
          have hle := f.mono.monotone ho
          rw [hfm h] at hle
          exact le_antisymm hle (f.start_le_num o)
        case isFalse => rfl
      unfold SegFlow.handed
      rw [hseq]

end Flow

section RoundTrip

/-- The PDUs in `sent` arrive, in some order and each any number of times. `net` is what the network
layer says of a PDU with a given number and TTL. -/
structure Arrives (net : ℕ → ℕ → NetRx) (sent : List (ℕ × List UInt8)) (evs : List RxEvent) :
    Prop where
  only : ∀ e ∈ evs, ∃ x ∈ sent, ∃ ttl now, e = .pdu (net x.1 ttl) x.2 now
  all : ∀ x ∈ sent, ∃ ttl now, RxEvent.pdu (net x.1 ttl) x.2 now ∈ evs

/-- Each PDU arrives once, in the order of sending. -/
theorem arrives_map (net : ℕ → ℕ → NetRx) (sent : List (ℕ × List UInt8)) :
    Arrives net sent (sent.map fun x => .pdu (net x.1 0) x.2 0) := by
  constructor
  · intro e he
    obtain ⟨x, hx, rfl⟩ := List.mem_map.1 he
    exact ⟨x, hx, 0, 0, rfl⟩
  · intro x hx
    exact ⟨0, 0, List.mem_map.2 ⟨x, hx, rfl⟩⟩

/-- What `send_seg` made arrives if and only if the segments of the message do. -/
theorem arrives_segments {f : SegFlow} {evs : List RxEvent} :
    Arrives f.netOf ((List.range (f.p.segN + 1)).map fun o => (f.num o, f.pdu o)) evs ↔
      OfMessage f evs ∧ ∀ o ≤ f.p.segN, Has f evs o := by
  constructor
  · rintro ⟨honly, hall⟩
    constructor
    · intro e he
      obtain ⟨x, hx, ttl, now, rfl⟩ := honly e he
      obtain ⟨o, ho, rfl⟩ := List.mem_map.1 hx
      exact ⟨o, ttl, now, Nat.lt_succ_iff.1 (List.mem_range.1 ho), rfl⟩
    · intro o ho
      exact hall _ (List.mem_map.2 ⟨o, List.mem_range.2 (Nat.lt_succ_of_le ho), rfl⟩)
  · rintro ⟨hof, hhas⟩
    constructor
    · intro e he
      obtain ⟨o, ttl, now, ho, rfl⟩ := hof e he
      exact ⟨_, List.mem_map.2 ⟨o, List.mem_range.2 (Nat.lt_succ_of_le ho), rfl⟩, ttl, now, rfl⟩
    · intro x hx
      obtain ⟨o, ho, rfl⟩ := List.mem_map.1 hx
      exact hhas o (Nat.lt_succ_iff.1 (List.mem_range.1 ho))

/-- **Segmentation round trip.** The segments of a message are put together again in every order of
arrival, once and with the number and the SeqAuth of the message, if and only if their numbers do not
cross a multiple of `2 ^ 13` and, where the receiver is a Friend that keeps the message for an LPN, the
last segment goes out under the number of the message. -/
theorem seg_round_trip {txCfg : TxCfg} {tx : TransTx} {p : SegSdu} {env : ℕ → SegEnv} {now : ℤ}
    {cfg : RxCfg} {rx : TransRx} {src : ℕ} {oldIv localMatch friendMatch : Bool}
    (hok : (sendSeg txCfg tx p env now).1 = .ok)
    (hfriend : ∀ o, ¬ ((env o).friend = true ∧ addrIsUnicast p.dst = true))
    (hpend : tx.node.net.pendingUpdate = false)
    (hroom : tx.node.net.seq + numbersBefore env p.segN < 2 ^ 24)
    (hiv : rx.ivIndex - (if oldIv then 1 else 0) = tx.node.net.iviTx)
    (hmax : p.sdu.length ≤ cfg.rxSduMax) (hmatch : localMatch = true ∨ friendMatch = true)
    (hfree : ∃ c ∈ rx.segRx, c.inUse = false)
    (hother : ∀ c ∈ rx.segRx, c.src = src ∧ c.dst = p.dst →
      c.inUse = false ∧ c.seqAuth ≠ seqAuthOf tx.node.net.iviTx.toNat tx.node.net.seq)
    (hrpl : ∀ x ∈ rx.rpl, x.src ≠ src) :
    (∀ evs, Arrives (fun seq ttl => ⟨src, p.dst, seq, oldIv, false, localMatch, friendMatch, ttl⟩)
        (sendSeg txCfg tx p env now).2.1 evs →
      ∃ rx' ttl, runSteps (rxStep cfg) rx evs = some rx' ∧ rx'.handed = rx.handed ++
        [⟨⟨src, p.dst, tx.node.net.seq, oldIv, false, localMatch, friendMatch, ttl⟩,
          UInt8.ofNat (segHdrByte p.devKey p.aid), p.aszmic, p.sdu,
          seqAuthOf tx.node.net.iviTx.toNat tx.node.net.seq⟩]) ↔
      tx.node.net.seq % 2 ^ 13 + numbersBefore env p.segN < 2 ^ 13 ∧
        (friendMatch = true → numbersBefore env p.segN = 0) := by
  obtain ⟨hpos, htx, hsent⟩ := sendSeg_handed hfriend hpend hroom hok
  have hmono := numbersBefore_strictMono env
  obtain ⟨f, hf⟩ : ∃ f : SegFlow,
      f = ⟨p, src, tx.node.net.seq, fun o => tx.node.net.seq + numbersBefore env o,
        fun _ _ h => Nat.add_lt_add_left (hmono h) _, Nat.le_add_right _ _, rx.ivIndex, oldIv,
        localMatch, friendMatch⟩ := ⟨_, rfl⟩
  have hfit : f.Fits cfg := by
    subst hf
    exact ⟨hpos, htx, hmax, hmatch, show tx.node.net.seq < 2 ^ 24 by omega⟩
  have hauth : f.msgAuth = seqAuthOf tx.node.net.iviTx.toNat tx.node.net.seq := by
    subst hf
    unfold SegFlow.msgAuth SegFlow.iv
    rw [hiv]
  have hiff := @SegFlow.arrives_iff cfg f rx hfit (by rw [hf]) (by rw [hf]; exact hrpl)
    (by
      intro c hc hm
      rw [hauth]
      rw [hf] at hm
      exact hother c hc hm) hfree
  rw [hauth] at hiff
  have harr := @arrives_segments f
  have haligned : f.Aligned ↔ tx.node.net.seq % 2 ^ 13 + numbersBefore env p.segN < 2 ^ 13 := by
    subst hf
    constructor
    · intro hal
      have hlast : (tx.node.net.seq + numbersBefore env p.segN) / 2 ^ 13 = tx.node.net.seq / 2 ^ 13 :=
        hal p.segN le_rfl
      omega
    · intro hlt o ho
      have hle : numbersBefore env o ≤ numbersBefore env p.segN := hmono.monotone ho
      show (tx.node.net.seq + numbersBefore env o) / 2 ^ 13 = tx.node.net.seq / 2 ^ 13
      omega
  rw [haligned] at hiff
  subst hf
  rw [hsent]
  refine Iff.trans ?_ (hiff.trans ?_)
  · constructor
    · intro hall evs hof hhas
      exact hall evs (harr.2 ⟨hof, hhas⟩)
    · intro hall evs h
      obtain ⟨hof, hhas⟩ := harr.1 h
      exact hall evs hof hhas
  · refine and_congr_right fun _ => forall_congr' fun _ => ?_
    show tx.node.net.seq + numbersBefore env p.segN = tx.node.net.seq ↔ _
    omega

/-- A node that can send, with a given sequence number. -/
def txAt (seq : ℕ) : TransTx :=
  let node := meshProvisioned 1 0 0 0
  txInit { node with net := { node.net with seq := seq } } 1

/-- A stack in which everything succeeds. -/
def goodEnv : ℕ → SegEnv := fun _ => ⟨true, 0, 4, true, false⟩

/-- 13 bytes, so two segments. -/
def twoSegments : SegSdu := ⟨2, 5, true, 0, false, (List.range 13).map UInt8.ofNat⟩

/-- Number 5, two segments: any order works. -/
theorem seg_round_trip_two :
    (sendSeg ⟨false, fun _ => false⟩ (txAt 5) twoSegments goodEnv 0).1 = .ok ∧
    ∀ evs, Arrives (fun seq ttl => ⟨1, 2, seq, false, false, true, false, ttl⟩)
        (sendSeg ⟨false, fun _ => false⟩ (txAt 5) twoSegments goodEnv 0).2.1 evs →
      ∃ rx' ttl, runSteps (rxStep ⟨96, false⟩) (rxInit 0 2 1) evs = some rx' ∧ rx'.handed =
        [⟨⟨1, 2, 5, false, false, true, false, ttl⟩, 128, false, twoSegments.sdu, 5⟩] :=
  ⟨by decide, (@seg_round_trip ⟨false, fun _ => false⟩ (txAt 5) twoSegments goodEnv 0 ⟨96, false⟩
    (rxInit 0 2 1) 1 false true false (by decide) (by simp [goodEnv, SegEnv.friend]) (by decide)
    (by decide)
    (by decide) (by decide) (by decide) ⟨SegRx.zero, by simp [rxInit], rfl⟩
    (by simp [rxInit, SegRx.zero]) (by decide)).2 (by decide)⟩

/-- Number 8191, two segments: their numbers are 8191 and 8192, and the message is lost. -/
theorem seg_round_trip_crossing :
    (sendSeg ⟨false, fun _ => false⟩ (txAt 8191) twoSegments goodEnv 0).1 = .ok ∧
    ¬ ∀ evs, Arrives (fun seq ttl => ⟨1, 2, seq, false, false, true, false, ttl⟩)
        (sendSeg ⟨false, fun _ => false⟩ (txAt 8191) twoSegments goodEnv 0).2.1 evs →
      ∃ rx' ttl, runSteps (rxStep ⟨96, false⟩) (rxInit 0 2 1) evs = some rx' ∧ rx'.handed =
        [⟨⟨1, 2, 8191, false, false, true, false, ttl⟩, 128, false, twoSegments.sdu, 8191⟩] := by
  refine ⟨by decide, ?_⟩
  intro hall
  obtain ⟨rx', ttl, hrun, hhanded⟩ := hall _ (arrives_map _ _)
  obtain ⟨rx₁, hrun₁, hnone⟩ : ∃ rx₁, runSteps (rxStep ⟨96, false⟩) (rxInit 0 2 1)
      ((sendSeg ⟨false, fun _ => false⟩ (txAt 8191) twoSegments goodEnv 0).2.1.map fun x =>
        .pdu ⟨1, 2, x.1, false, false, true, false, 0⟩ x.2 0) = some rx₁ ∧ rx₁.handed = [] :=
    ⟨_, rfl, by decide⟩
  rw [hrun] at hrun₁
  cases hrun₁
  rw [hnone] at hhanded
  cases hhanded

end RoundTrip

end GenieSdk.Analysis
