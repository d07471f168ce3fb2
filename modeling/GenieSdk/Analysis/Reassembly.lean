import GenieSdk.Analysis.ReplayProtection
import GenieSdk.Lib.WriteLog

/-!
# What reassembly writes and what it delivers

Offset and length of a copy come from the segment, the final length from the last segment alone, and
a context is taken again without its buffer being cleared. To say where the bytes of an SDU came from,
a run is followed with a history: for each context, the copies of the session that has it
(`sessionStep`). `Gathers` is the invariant of an open session: the set bits of `block` are ranges that
were written, all of them by segments of this session, and `bufLen` fits once the last bit is set. It
outlives a replay check that puts a bit back, since it only claims something for set bits.
-/

set_option autoImplicit false

namespace GenieSdk.Analysis.Reassembly

open GenieSdk.Model
open GenieSdk.Lib

section History

/-- What names a session. -/
structure SegKey where
  src : ℕ
  dst : ℕ
  seqAuth : ℕ
  ctl : Bool
  deriving DecidableEq, Repr

def keyOf (rx : SegRx) : SegKey := ⟨rx.src, rx.dst, rx.seqAuth, rx.ctl⟩

/-- The session that a segment belongs to. -/
def segKey (s : TransRx) (net : NetRx) (buf : List UInt8) : SegKey :=
  ⟨net.src, net.dst, authOf s.ivIndex net buf, net.ctl⟩

/-- A segment passes the checks from `found_rx` to the copy. -/
def copied (cfg : RxCfg) (rx : SegRx) (h : SegHdr) (payload : List UInt8) : Prop :=
  rx.block.getLsbD h.segO = false ∧
    if h.segO = h.segN then h.segN * segLen rx.ctl + payload.length ≤ cfg.rxSduMax
    else payload.length = segLen rx.ctl

instance (cfg : RxCfg) (rx : SegRx) (h : SegHdr) (payload : List UInt8) :
    Decidable (copied cfg rx h payload) :=
  inferInstanceAs (Decidable (_ ∧ _))

/-- The copy of a segment. -/
def segWrite (s : TransRx) (net : NetRx) (buf : List UInt8) (rx : SegRx) : Write SegKey :=
  ⟨segKey s net buf, (segHdrOf buf).segO * segLen rx.ctl, buf.drop 4⟩

/-- The copy that a PDU leads to, and its context. -/
def copyOf (cfg : RxCfg) (s : TransRx) (net : NetRx) (buf : List UInt8) :
    Option (ℕ × Write SegKey) :=
  match foundRx cfg s net buf with
  | none => none
  | some (i, _, segRx) =>
    let rx := segRx.getD i SegRx.zero
    if copied cfg rx (segHdrOf buf) (buf.drop 4) then some (i, segWrite s net buf rx) else none

/-- The context in which a PDU begins a session. -/
def opened (cfg : RxCfg) (s : TransRx) (net : NetRx) (buf : List UInt8) : Option ℕ :=
  match foundRx cfg s net buf with
  | some (i, true, _) => some i
  | _ => none

/-- For each context, the copies of its session, the newest first. -/
abbrev Sessions := ℕ → List (Write SegKey)

/-- A session begins without copies, and each copy of a segment is added. -/
def sessionPdu (cfg : RxCfg) (s : TransRx) (net : NetRx) (buf : List UInt8) (ses : Sessions) :
    Sessions := fun i =>
  let old := if opened cfg s net buf = some i then [] else ses i
  match copyOf cfg s net buf with
  | some (j, w) => if j = i then w :: old else old
  | none => old

def sessionStep (cfg : RxCfg) (s : TransRx) : RxEvent → Sessions → Sessions
  | .pdu net buf _, ses => sessionPdu cfg s net buf ses
  | .ack _ _, ses => ses

end History

section Contexts

variable {cfg : RxCfg} {s : TransRx} {net : NetRx} {h : SegHdr} {i now : ℕ} {payload : List UInt8}

/-- The last segment sets the length. -/
def lengthSet (h : SegHdr) (payload : List UInt8) (rx : SegRx) : SegRx :=
  if h.segO = h.segN then { rx with bufLen := h.segN * segLen rx.ctl + payload.length } else rx

/-- The context with the segment. -/
def stored (cfg : RxCfg) (h : SegHdr) (payload : List UInt8) (now : ℕ) (rx : SegRx) : SegRx :=
  segStored cfg h payload now (lengthSet h payload rx)

/-- The SDU of a context was handed on. -/
def HandedOf (c : SegRx) (s s' : TransRx) : Prop :=
  ∃ sdu, s'.handed = s.handed ++ [sdu] ∧ sdu.buf = readBytes c.bufData 0 c.bufLen ∧
    sdu.seqAuth = c.seqAuth

/-- What a segment can do to its context, the `i`-th one. -/
inductive Received (cfg : RxCfg) (s : TransRx) (h : SegHdr) (i : ℕ) (payload : List UInt8)
    (now : ℕ) (r : RecvRet × TransRx) : Prop
  | ignored (hc : ¬ copied cfg (s.rx i) h payload) (hkept : r.2.handed = s.handed)
      (hrx : r.2.segRx = s.segRx)
  | tooLong (hc : ¬ copied cfg (s.rx i) h payload) (hkept : r.2.handed = s.handed)
      (hrx : r.2.segRx = s.segRx.set i (segRxReset (lengthSet h payload (s.rx i))))
  | collected (hc : copied cfg (s.rx i) h payload) (hkept : r.2.handed = s.handed)
      (hrx : r.2.segRx = s.segRx.set i (stored cfg h payload now (s.rx i)))
  | putBack (hc : copied cfg (s.rx i) h payload) (hkept : r.2.handed = s.handed)
      (hrx : r.2.segRx = s.segRx.set i
        { stored cfg h payload now (s.rx i) with block := (s.rx i).block })
  | complete (hc : copied cfg (s.rx i) h payload)
      (hfull : (stored cfg h payload now (s.rx i)).block = blockComplete h.segN)
      (hrx : r.2.segRx = s.segRx.set i (segRxReset (stored cfg h payload now (s.rx i))))
      (hsdu : HandedOf (stored cfg h payload now (s.rx i)) s r.2)

/-- The replay check leaves the contexts and what was handed on. -/
theorem replayed_rest (s : TransRx) (net : NetRx) :
    (replayed s net).2.segRx = s.segRx ∧ (replayed s net).2.handed = s.handed := by
  unfold replayed
  split
  · obtain ⟨-, hhanded, hrx⟩ := isReplay_rest s net
    exact ⟨hrx, hhanded⟩
  · exact ⟨rfl, rfl⟩

/-- A context that is set to itself. -/
theorem set_rx_self (hi : i < s.segRx.length) : s.segRx.set i (s.rx i) = s.segRx := by
  unfold TransRx.rx
  rw [List.getD_eq_getElem s.segRx SegRx.zero hi]
  exact List.set_getElem_self hi

/-- What is handed on is the buffer of the context. -/
theorem segHand_handedOf (c : SegRx) :
    (segHand cfg s net h i c).segRx = s.segRx.set i (segRxReset c) ∧
      HandedOf c s (segHand cfg s net h i c) := by
  unfold segHand
  simp only
  obtain ⟨acks, hack⟩ := sendAck_eq cfg s net.dst net.src net.sendTtl c.seqAuth c.block c.obo
  rw [hack]
  exact ⟨rfl, _, rfl, rfl, rfl⟩

/-- A segment that is copied, once the length is set. -/
theorem segStore_received {s₁ : TransRx} (hc : copied cfg (s.rx i) h payload)
    (hi : i < s.segRx.length)
    (hs₁ : s₁.segRx = s.segRx.set i (lengthSet h payload (s.rx i)))
    (hhanded : s₁.handed = s.handed) :
    Received cfg s h i payload now (segStore cfg s₁ net h i payload now) := by
  have hrx : s₁.rx i = lengthSet h payload (s.rx i) := by
    rw [rx_of_set hs₁ hi, if_pos rfl]
  have hblock : (lengthSet h payload (s.rx i)).block = (s.rx i).block := by
    unfold lengthSet
    split <;> rfl
  have hset : ∀ c, s₁.segRx.set i c = s.segRx.set i c := by
    intro c
    rw [hs₁, List.set_set]
  unfold segStore
  rw [hrx]
  simp only
  rw [show segStored cfg h payload now (lengthSet h payload (s.rx i)) =
    stored cfg h payload now (s.rx i) from rfl]
  split
  case isTrue => exact .collected hc hhanded (hset _)
  case isFalse hfull =>
    have hfull := not_not.1 hfull
    obtain ⟨hsame, hkept⟩ :=
      replayed_rest (s₁.setRx i (stored cfg h payload now (s.rx i))) net
    cases hrep : replayed (s₁.setRx i (stored cfg h payload now (s.rx i))) net with
    | mk b s₂ =>
      rw [hrep] at hsame hkept
      have hset₂ : ∀ c, s₂.segRx.set i c = s.segRx.set i c := by
        intro c
        rw [hsame]
        refine (List.set_set ..).trans ?_
        exact hset c
      cases b with
      | true =>
        refine .putBack hc (hkept.trans hhanded) ?_
        rw [← hblock]
        exact hset₂ _
      | false =>
        obtain ⟨hclosed, sdu, hsdu, hbuf, hauth⟩ :=
          @segHand_handedOf cfg s₂ net h i (stored cfg h payload now (s.rx i))
        refine .complete hc hfull (hclosed.trans (hset₂ _)) ⟨sdu, ?_, hbuf, hauth⟩
        rw [hsdu, hkept]
        exact congrArg (· ++ [sdu]) hhanded

/-- **What a segment can do.** -/
theorem segReceive_received (hi : i < s.segRx.length) :
    Received cfg s h i payload now (segReceive cfg s net h i payload now) := by
  unfold segReceive
  simp only
  split
  case isTrue hbit =>
    refine .ignored (fun hc => ?_) rfl rfl
    rw [hc.1] at hbit
    cases hbit
  case isFalse hbit =>
    have hbit : (s.rx i).block.getLsbD h.segO = false := Bool.eq_false_iff.2 hbit
    split
    case isTrue hlast =>
      have hset : lengthSet h payload (s.rx i) =
          { s.rx i with bufLen := h.segN * segLen (s.rx i).ctl + payload.length } := if_pos hlast
      split
      case isTrue hlong =>
        obtain ⟨acks, hack⟩ := sendAck_eq cfg (s.setRx i (lengthSet h payload (s.rx i))) net.dst
          net.src net.sendTtl (s.rx i).seqAuth 0 (s.rx i).obo
        rw [← hset, hack]
        refine .tooLong (fun hc => ?_) rfl (List.set_set ..)
        have hfits := hc.2
        rw [if_pos hlast] at hfits
        exact absurd hfits (not_le.2 hlong)
      case isFalse hfits =>
        have hc : copied cfg (s.rx i) h payload := by
          refine ⟨hbit, ?_⟩
          rw [if_pos hlast]
          exact not_lt.1 hfits
        rw [← hset]
        exact segStore_received hc hi rfl rfl
    case isFalse hlast =>
      split
      case isTrue hlen =>
        refine .ignored (fun hc => ?_) rfl rfl
        have hfits := hc.2
        rw [if_neg hlast] at hfits
        exact hlen hfits
      case isFalse hlen =>
        have hc : copied cfg (s.rx i) h payload := by
          refine ⟨hbit, ?_⟩
          rw [if_neg hlast]
          exact not_not.1 hlen
        refine segStore_received hc hi ?_ rfl
        rw [show lengthSet h payload (s.rx i) = s.rx i from if_neg hlast, set_rx_self hi]

/-- An unsegmented PDU leaves the contexts alone. -/
theorem transRecv_not_segmented {buf : List UInt8} (h : ¬ segmented net buf) :
    (transRecv cfg s net buf now).2.segRx = s.segRx := by
  unfold transRecv
  split
  case isTrue hfirst =>
    have hmatch : ¬ net.localMatch = true ∧ ¬ net.friendMatch = true := by
      by_contra hmatch
      exact h (segmented_iff.1 ⟨hmatch, hfirst⟩)
    rw [if_pos hmatch]
  case isFalse =>
    obtain ⟨hsame, -⟩ := replayed_rest s net
    unfold transUnseg
    split
    case isTrue => rfl
    case isFalse =>
      cases hrep : replayed s net with
      | mk b s₂ =>
        rw [hrep] at hsame
        cases b with
        | true => exact hsame
        | false =>
          simp only
          split
          · exact hsame
          · exact hsame

/-- Where `found_rx` is not reached, contexts are closed at most. -/
theorem freed_of_not_found {buf : List UInt8} (h : foundRx cfg s net buf = none) (j : ℕ) :
    Freed (s.rx j) ((transRecv cfg s net buf now).2.rx j) := by
  by_cases hseg : segmented net buf
  · exact (transRecv_not_found h hseg).rx j
  · refine Or.inl ?_
    unfold TransRx.rx
    rw [transRecv_not_segmented hseg]

end Contexts

section Sessions

/-- An open session: what its context has of the message. -/
structure Gathers (cfg : RxCfg) (rx : SegRx) (log : List (Write SegKey)) : Prop where
  segN : rx.segN < 32
  room : rx.segN * segLen rx.ctl < cfg.rxSduMax
  data : Shows rx.bufData log
  own : ∀ w ∈ log, w.tag = keyOf rx
  seg : ∀ k < rx.segN, rx.block.getLsbD k = true →
    Filled log (k * segLen rx.ctl) (k * segLen rx.ctl + segLen rx.ctl)
  last : rx.block.getLsbD rx.segN = true → rx.bufLen ≤ cfg.rxSduMax ∧
    Filled log (rx.segN * segLen rx.ctl) rx.bufLen

variable {cfg : RxCfg} {rx : SegRx} {log : List (Write SegKey)} {net : NetRx} {h : SegHdr}
  {payload : List UInt8} {now : ℕ} {w : Write SegKey}

/-- A session that begins. -/
theorem gathers_taken {a : ℕ} (hlen : sduLenIsOk cfg net.ctl h.segN = true) (hn : h.segN < 32)
    (c : SegRx) : Gathers cfg (takenFor net h a c) [] where
  segN := hn
  room := Nat.lt_of_succ_le (of_decide_eq_true hlen)
  data := shows_nil _
  own := by simp
  seg := by
    intro k _ hk
    simp [takenFor] at hk
  last := by
    intro hk
    simp [takenFor] at hk

/-- Where a copy ends. -/
theorem Gathers.fits (hg : Gathers cfg rx log) (hc : copied cfg rx h payload) (hN : rx.segN = h.segN)
    (ho : h.segO ≤ h.segN) : h.segO * segLen rx.ctl + payload.length ≤ cfg.rxSduMax := by
  obtain ⟨-, hlen⟩ := hc
  split at hlen
  case isTrue hlast =>
    rw [hlast]
    exact hlen
  case isFalse hlast =>
    have hroom := hg.room
    have hnext : (h.segO + 1) * segLen rx.ctl ≤ h.segN * segLen rx.ctl :=
      Nat.mul_le_mul_right (segLen rx.ctl) (by omega)
    rw [hN] at hroom
    rw [Nat.succ_mul] at hnext
    omega

/-- What setting the length and storing leave alone. -/
theorem stored_rest (cfg : RxCfg) (h : SegHdr) (payload : List UInt8) (now : ℕ) (rx : SegRx) :
    (stored cfg h payload now rx).segN = rx.segN ∧ (stored cfg h payload now rx).ctl = rx.ctl ∧
      keyOf (stored cfg h payload now rx) = keyOf rx ∧
      (stored cfg h payload now rx).inUse = rx.inUse ∧
      (stored cfg h payload now rx).block = rx.block ||| BitVec.ofNat 32 (2 ^ h.segO) ∧
      (stored cfg h payload now rx).bufData =
        writeBytes rx.bufData (h.segO * segLen rx.ctl) payload ∧
      (stored cfg h payload now rx).bufLen = (lengthSet h payload rx).bufLen := by
  unfold stored segStored lengthSet keyOf
  split <;> exact ⟨rfl, rfl, rfl, rfl, rfl, rfl, rfl⟩

/-- **a copy** keeps the session. -/
theorem Gathers.stored (hg : Gathers cfg rx log) (hc : copied cfg rx h payload)
    (hN : rx.segN = h.segN) (hkey : w.tag = keyOf rx)
    (hpos : w.pos = h.segO * segLen rx.ctl) (hbytes : w.bytes = payload) :
    Gathers cfg (stored cfg h payload now rx) (w :: log) := by
  obtain ⟨hsegN, hctl, hkeyOf, -, hblock, hdata, hlen⟩ := stored_rest cfg h payload now rx
  have hn := hg.segN
  have hbit : ∀ k < 32, (Reassembly.stored cfg h payload now rx).block.getLsbD k = true →
      rx.block.getLsbD k = true ∨ h.segO = k := by
    intro k hk hset
    rw [hblock, BitVec.getLsbD_or, getLsbD_bit hk, Bool.or_eq_true, decide_eq_true_eq] at hset
    exact hset
  have hwrite := filled_write w log
  rw [hpos, hbytes] at hwrite
  refine ⟨hsegN ▸ hn, ?_, ?_, ?_, ?_, ?_⟩
  · rw [hsegN, hctl]
    exact hg.room
  · rw [hdata, ← hpos, ← hbytes]
    exact hg.data.cons w
  · rw [hkeyOf]
    exact List.forall_mem_cons.2 ⟨hkey, hg.own⟩
  · intro k hk hset
    rw [hsegN] at hk
    rw [hctl]
    obtain hold | rfl := hbit k (by omega) hset
    · exact (hg.seg k hk hold).cons w
    · have hfull := hc.2
      rw [if_neg (by omega)] at hfull
      rwa [hfull] at hwrite
  · intro hset
    rw [hsegN] at hset ⊢
    rw [hctl, hlen]
    unfold lengthSet
    by_cases hlast : h.segO = h.segN
    · have hfits := hc.2
      rw [if_pos hlast] at hfits ⊢
      rw [hlast] at hwrite
      rw [hN]
      exact ⟨hfits, hwrite⟩
    · rw [if_neg hlast]
      obtain hold | heq := hbit rx.segN hn hset
      · obtain ⟨hmax, hfill⟩ := hg.last hold
        exact ⟨hmax, hfill.cons w⟩
      · exact absurd (heq.trans hN) hlast

/-- Bits that are put back. -/
theorem Gathers.putBack (hg : Gathers cfg rx log) {b : BitVec 32}
    (hb : ∀ k, b.getLsbD k = true → rx.block.getLsbD k = true) :
    Gathers cfg { rx with block := b } log where
  segN := hg.segN
  room := hg.room
  data := hg.data
  own := hg.own
  seg := fun k hk hset => hg.seg k hk (hb k hset)
  last := fun hset => hg.last (hb rx.segN hset)

/-- **a complete message**. -/
theorem Gathers.complete (hg : Gathers cfg rx log) (hfull : rx.block = blockComplete rx.segN) :
    rx.bufLen ≤ cfg.rxSduMax ∧ Filled log 0 rx.bufLen := by
  have hn := hg.segN
  have hall : ∀ k ≤ rx.segN, rx.block.getLsbD k = true := by
    intro k hk
    rw [hfull, getLsbD_blockComplete (by omega), decide_eq_true_eq]
    exact hk
  obtain ⟨hmax, hlast⟩ := hg.last (hall rx.segN le_rfl)
  have hfirst := filled_blocks fun k hk => hg.seg k hk (hall k hk.le)
  exact ⟨hmax, hfirst.append hlast⟩

/-- A context, whether its session is open or not. -/
structure CtxOk (cfg : RxCfg) (rx : SegRx) (log : List (Write SegKey)) : Prop where
  bits : BitsIn rx.segN rx.block
  gathers : rx.inUse = true → Gathers cfg rx log

/-- A context is right at the start. -/
theorem ctxOk_zero (cfg : RxCfg) (log : List (Write SegKey)) : CtxOk cfg SegRx.zero log where
  bits := by
    intro k _ hk
    simp [SegRx.zero] at hk
  gathers := fun huse => by cases huse

/-- A context that is closed keeps its bits. -/
theorem ctxOk_reset (hbits : BitsIn rx.segN rx.block) : CtxOk cfg (segRxReset rx) log :=
  ⟨hbits, fun huse => by cases huse⟩

/-- A context stays right when it is freed. -/
theorem CtxOk.freed (hok : CtxOk cfg rx log) {rx' : SegRx} (hf : Freed rx rx') : CtxOk cfg rx' log := by
  obtain rfl | rfl := hf
  · exact hok
  · exact ctxOk_reset hok.bits

end Sessions

section Runs

variable {cfg : RxCfg} {s : TransRx} {ses : Sessions} {net : NetRx} {buf : List UInt8} {i now : ℕ}
  {fresh : Bool} {segRx : List SegRx}

/-- Every context is as its session says. -/
def Good (cfg : RxCfg) (s : TransRx) (ses : Sessions) : Prop := ∀ i, CtxOk cfg (s.rx i) (ses i)

/-- The session at `found_rx`. -/
structure Found (cfg : RxCfg) (s : TransRx) (ses : Sessions) (net : NetRx) (buf : List UInt8) (i : ℕ)
    (fresh : Bool) (segRx : List SegRx) : Prop where
  context : FoundAt cfg s net buf i fresh segRx
  data : (segRx.getD i SegRx.zero).bufData = (s.rx i).bufData
  key : keyOf (segRx.getD i SegRx.zero) = segKey s net buf
  bits : BitsIn (segRx.getD i SegRx.zero).segN (segRx.getD i SegRx.zero).block
  gathers : Gathers cfg (segRx.getD i SegRx.zero) (if fresh then [] else ses i)

/-- A context that is freed keeps its buffer. -/
theorem freed_bufData {c c' : SegRx} (h : Freed c c') : c'.bufData = c.bufData := by
  obtain rfl | rfl := h <;> rfl

/-- A message has at most 32 segments. -/
theorem segHdrOf_segN_lt (buf : List UInt8) : (segHdrOf buf).segN < 32 :=
  Nat.mod_lt _ (by norm_num)

/-- A session goes on, or one begins. -/
theorem Good.found (hg : Good cfg s ses) (h : foundRx cfg s net buf = some (i, fresh, segRx)) :
    Found cfg s ses net buf i fresh segRx := by
  have hat := foundAt h
  have hkey : keyOf (segRx.getD i SegRx.zero) = segKey s net buf := by
    unfold keyOf segKey
    rw [hat.src, hat.dst, hat.seqAuth, hat.ctl]
  obtain ⟨rfl, rfl⟩ | ⟨rfl, hlen, c, hc, htaken⟩ := hat.origin
  · exact ⟨hat, rfl, hkey, (hg i).bits, (hg i).gathers hat.inUse⟩
  · have hdata : c.bufData = (s.rx i).bufData := freed_bufData hc
    refine ⟨hat, ?_, hkey, ?_, ?_⟩
    · rw [htaken]
      exact hdata
    · rw [htaken]
      intro k _ hk
      simp [takenFor] at hk
    · rw [htaken]
      exact gathers_taken hlen (segHdrOf_segN_lt buf) c

/-- Without a context nothing is copied. -/
theorem copyOf_not_found (h : foundRx cfg s net buf = none) : copyOf cfg s net buf = none := by
  unfold copyOf
  rw [h]

/-- The sessions when `found_rx` is not reached. -/
theorem sessionPdu_not_found (h : foundRx cfg s net buf = none) :
    sessionPdu cfg s net buf ses = ses := by
  funext j
  unfold sessionPdu opened
  rw [copyOf_not_found h, h]
  rfl

/-- Otherwise the segment is copied if it fits and is new. -/
theorem copyOf_found (h : foundRx cfg s net buf = some (i, fresh, segRx)) :
    copyOf cfg s net buf =
      if copied cfg (segRx.getD i SegRx.zero) (segHdrOf buf) (buf.drop 4) then
        some (i, segWrite s net buf (segRx.getD i SegRx.zero)) else none := by
  unfold copyOf
  rw [h]

/-- The sessions at `found_rx`. -/
theorem sessionPdu_found (h : foundRx cfg s net buf = some (i, fresh, segRx)) (j : ℕ) :
    sessionPdu cfg s net buf ses j =
      if j = i then
        (if copied cfg (segRx.getD i SegRx.zero) (segHdrOf buf) (buf.drop 4) then
          segWrite s net buf (segRx.getD i SegRx.zero) :: (if fresh then [] else ses i)
        else if fresh then [] else ses i)
      else ses j := by
  have hopen : opened cfg s net buf = if fresh then some i else none := by
    unfold opened
    rw [h]
    cases fresh <;> rfl
  have hcopy := copyOf_found h
  unfold sessionPdu
  simp only
  rw [hopen, hcopy]
  by_cases hc : copied cfg (segRx.getD i SegRx.zero) (segHdrOf buf) (buf.drop 4)
  · rw [if_pos hc, if_pos hc]
    by_cases hj : j = i
    · subst hj
      cases fresh <;> simp
    · cases fresh <;> simp [hj, Ne.symm hj]
  · rw [if_neg hc, if_neg hc]
    by_cases hj : j = i
    · subst hj
      cases fresh <;> simp
    · cases fresh <;> simp [hj, Ne.symm hj]

/-- The bits after a copy. -/
theorem Found.bitsStored (hf : Found cfg s ses net buf i fresh segRx) (payload : List UInt8) :
    BitsIn (stored cfg (segHdrOf buf) payload now (segRx.getD i SegRx.zero)).segN
      (stored cfg (segHdrOf buf) payload now (segRx.getD i SegRx.zero)).block := by
  obtain ⟨hsegN, -, -, -, hblock, -⟩ :=
    stored_rest cfg (segHdrOf buf) payload now (segRx.getD i SegRx.zero)
  rw [hsegN, hblock]
  refine hf.bits.set ?_
  rw [hf.context.segN]
  exact hf.context.le

/-- The session after a copy. -/
theorem Found.gathersStored (hf : Found cfg s ses net buf i fresh segRx)
    (hc : copied cfg (segRx.getD i SegRx.zero) (segHdrOf buf) (buf.drop 4)) :
    Gathers cfg (stored cfg (segHdrOf buf) (buf.drop 4) now (segRx.getD i SegRx.zero))
      (segWrite s net buf (segRx.getD i SegRx.zero) :: if fresh then [] else ses i) :=
  hf.gathers.stored hc hf.context.segN hf.key.symm rfl rfl

/-- One context is changed. -/
theorem good_set (hothers : ∀ j, j ≠ i → CtxOk cfg (s.rx j) (ses j)) (hi : i < s.segRx.length)
    (s' : TransRx) (c : SegRx) (hs' : s'.segRx = s.segRx.set i c) (hc : CtxOk cfg c (ses i)) :
    Good cfg s' ses := by
  intro j
  rw [rx_of_set hs' hi j]
  by_cases hj : j = i
  · rw [if_pos hj, hj]
    exact hc
  · rw [if_neg hj]
    exact hothers j hj

/-- **a PDU** keeps every session. -/
theorem Good.pdu (hg : Good cfg s ses) :
    Good cfg (transRecv cfg s net buf now).2 (sessionPdu cfg s net buf ses) := by
  cases hfound : foundRx cfg s net buf with
  | none =>
    rw [sessionPdu_not_found hfound]
    exact fun i => (hg i).freed (freed_of_not_found hfound i)
  | some x =>
    obtain ⟨i, fresh, segRx⟩ := x
    have hf := hg.found hfound
    have hses := @sessionPdu_found cfg s ses net buf i fresh segRx hfound
    rw [transRecv_found hfound]
    have hothers : ∀ j, j ≠ i →
        CtxOk cfg (segRx.getD j SegRx.zero) (sessionPdu cfg s net buf ses j) := by
      intro j hj
      rw [hses j, if_neg hj]
      exact (hg j).freed (hf.context.others j hj)
    have hset := @good_set cfg { s with segRx := segRx } (sessionPdu cfg s net buf ses) i hothers
      hf.context.lt
    have hsesi := hses i
    rw [if_pos rfl] at hsesi
    obtain ⟨hc, -, hrx⟩ | ⟨hc, -, hrx⟩ | ⟨hc, -, hrx⟩ | ⟨hc, -, hrx⟩ | ⟨hc, -, hrx, -⟩ :=
      @segReceive_received cfg { s with segRx := segRx } net (segHdrOf buf) i now (buf.drop 4) hf.context.lt
    · have hsame := hsesi.trans (if_neg hc)
      refine hset _ (segRx.getD i SegRx.zero) (hrx.trans ?_) ⟨hf.bits, fun _ => ?_⟩
      · exact (@set_rx_self { s with segRx := segRx } i hf.context.lt).symm
      · rw [hsame]
        exact hf.gathers
    · refine hset _ _ hrx (ctxOk_reset ?_)
      unfold lengthSet
      split
      · exact hf.bits
      · exact hf.bits
    · have hnew := hsesi.trans (if_pos hc)
      refine hset _ _ hrx ⟨hf.bitsStored (buf.drop 4), fun _ => ?_⟩
      rw [hnew]
      exact hf.gathersStored hc
    · have hnew := hsesi.trans (if_pos hc)
      obtain ⟨hsegN, -, -, -, hblock, -⟩ :=
        stored_rest cfg (segHdrOf buf) (buf.drop 4) now (segRx.getD i SegRx.zero)
      refine hset _ _ hrx ⟨?_, fun _ => ?_⟩
      · show BitsIn (stored cfg (segHdrOf buf) (buf.drop 4) now (segRx.getD i SegRx.zero)).segN _
        rw [hsegN]
        exact hf.bits
      · rw [hnew]
        apply (hf.gathersStored hc).putBack
        intro k hk
        rw [hblock, BitVec.getLsbD_or, show (segRx.getD i SegRx.zero).block.getLsbD k = true from hk]
        rfl
    · exact hset _ _ hrx (ctxOk_reset (hf.bitsStored (buf.drop 4)))

/-- The timer of a context. -/
theorem Good.ack (hg : Good cfg s ses) (i now : ℕ) : Good cfg (segAck cfg s i now) ses := by
  have hset : ∀ s' : TransRx, ∀ c, s'.segRx = s.segRx → CtxOk cfg c (ses i) →
      Good cfg (s'.setRx i c) ses := by
    intro s' c hs' hc
    have hsame : (s'.setRx i c).segRx = s.segRx.set i c := congrArg (·.set i c) hs'
    by_cases hi : i < s.segRx.length
    · exact good_set (fun j _ => hg j) hi _ c hsame hc
    · rw [List.set_eq_of_length_le (not_lt.1 hi)] at hsame
      intro j
      have hj := hg j
      unfold TransRx.rx at hj ⊢
      rwa [hsame]
  have hok := hg i
  unfold segAck
  simp only
  split
  · obtain ⟨acks, hack⟩ := sendAck_eq cfg s (s.rx i).dst (s.rx i).src (s.rx i).ttl (s.rx i).seqAuth 0
      (s.rx i).obo
    rw [hack]
    exact hset _ _ rfl (ctxOk_reset hok.bits)
  · obtain ⟨acks, hack⟩ := sendAck_eq cfg s (s.rx i).dst (s.rx i).src (s.rx i).ttl (s.rx i).seqAuth
      (s.rx i).block (s.rx i).obo
    rw [hack]
    refine hset _ _ rfl ⟨hok.bits, fun huse => ?_⟩
    have hgather := hok.gathers huse
    exact ⟨hgather.segN, hgather.room, hgather.data, hgather.own, hgather.seg, hgather.last⟩

/-- The invariant holds at the start. -/
theorem good_init (iv : UInt32) (crpl count : ℕ) : Good cfg (rxInit iv crpl count) fun _ => [] := by
  intro i
  have hzero : (rxInit iv crpl count).rx i = SegRx.zero := by
    unfold TransRx.rx rxInit
    simp [List.getD_eq_getElem?_getD, List.getElem?_replicate]
    split <;> rfl
  rw [hzero]
  exact ctxOk_zero cfg []

/-- Reassembly in one state, with what any PDU would do there. -/
structure InBounds (cfg : RxCfg) (s : TransRx) (ses : Sessions) : Prop where
  /-- No bit of `block` lies outside the message. -/
  block : ∀ i, (s.rx i).block &&& blockComplete (s.rx i).segN = (s.rx i).block
  /-- The copy of a PDU is the only change of a buffer. -/
  data : ∀ net buf now i, ((transRecv cfg s net buf now).2.rx i).bufData =
    match copyOf cfg s net buf with
    | some (j, w) => if i = j then w.run (s.rx i).bufData else (s.rx i).bufData
    | none => (s.rx i).bufData
  /-- The copy ends in the buffer. -/
  copy : ∀ net buf i w, copyOf cfg s net buf = some (i, w) → w.pos + w.bytes.length ≤ cfg.rxSduMax
  /-- An SDU fits, and the last write to each of its bytes was by a segment of its session. -/
  sdu : ∀ net buf now, segmented net buf →
    (transRecv cfg s net buf now).2.handed = s.handed ∨
      ∃ i w sdu, copyOf cfg s net buf = some (i, w) ∧
        (transRecv cfg s net buf now).2.handed = s.handed ++ [sdu] ∧
        sdu.seqAuth = authOf s.ivIndex net buf ∧ sdu.buf.length ≤ cfg.rxSduMax ∧
        ∀ k < sdu.buf.length, ∃ v ∈ sessionPdu cfg s net buf ses i, v.tag = segKey s net buf ∧
          writer (sessionPdu cfg s net buf ses i) k = some v ∧ sdu.buf.getD k 0 = v.byteAt k

/-- The bits of a message are among those of all its segments. -/
theorem and_blockComplete {segN : ℕ} {b : BitVec 32} (h : BitsIn segN b) :
    b &&& blockComplete segN = b := by
  apply BitVec.eq_of_getLsbD_eq
  intro k hk
  rw [BitVec.getLsbD_and, getLsbD_blockComplete hk]
  cases hbit : b.getLsbD k with
  | false => rfl
  | true =>
    rw [decide_eq_true (h k hk hbit)]
    rfl

/-- A segment changes a buffer by its copy. -/
theorem Received.bufData {h : SegHdr} {payload : List UInt8} {r : RecvRet × TransRx}
    (hr : Received cfg s h i payload now r) (hi : i < s.segRx.length) :
    ∃ c, r.2.segRx = s.segRx.set i c ∧ c.bufData =
      if copied cfg (s.rx i) h payload then
        writeBytes (s.rx i).bufData (h.segO * segLen (s.rx i).ctl) payload
      else (s.rx i).bufData := by
  obtain ⟨-, -, -, -, -, hdata, -⟩ := stored_rest cfg h payload now (s.rx i)
  obtain ⟨hc, -, hrx⟩ | ⟨hc, -, hrx⟩ | ⟨hc, -, hrx⟩ | ⟨hc, -, hrx⟩ | ⟨hc, -, hrx, -⟩ := hr
  · exact ⟨s.rx i, by rw [hrx, set_rx_self hi], (if_neg hc).symm⟩
  · refine ⟨_, hrx, ?_⟩
    rw [if_neg hc]
    unfold lengthSet
    split <;> rfl
  · exact ⟨_, hrx, hdata.trans (if_pos hc).symm⟩
  · exact ⟨_, hrx, hdata.trans (if_pos hc).symm⟩
  · exact ⟨_, hrx, hdata.trans (if_pos hc).symm⟩

/-- The copy of a PDU is the only change of a buffer. -/
theorem Good.data (hg : Good cfg s ses) (j : ℕ) :
    ((transRecv cfg s net buf now).2.rx j).bufData =
      match copyOf cfg s net buf with
      | some (i, w) => if j = i then w.run (s.rx j).bufData else (s.rx j).bufData
      | none => (s.rx j).bufData := by
  cases hfound : foundRx cfg s net buf with
  | none =>
    rw [copyOf_not_found hfound]
    exact freed_bufData (freed_of_not_found hfound j)
  | some x =>
    obtain ⟨i, fresh, segRx⟩ := x
    have hf := hg.found hfound
    obtain ⟨c, hset, hdata⟩ := Received.bufData
      (@segReceive_received cfg { s with segRx := segRx } net (segHdrOf buf) i now (buf.drop 4) hf.context.lt)
      hf.context.lt
    rw [transRecv_found hfound, rx_of_set hset hf.context.lt j, copyOf_found hfound]
    by_cases hj : j = i
    · subst hj
      rw [if_pos rfl, hdata, ← hf.data]
      by_cases hc : copied cfg (segRx.getD j SegRx.zero) (segHdrOf buf) (buf.drop 4)
      · rw [if_pos hc]
        refine (if_pos hc).trans ?_
        exact (if_pos rfl).symm
      · rw [if_neg hc]
        exact if_neg hc
    · rw [if_neg hj]
      have hother := freed_bufData (hf.context.others j hj)
      split
      case h_1 i' w hcopy =>
        split at hcopy
        case isTrue =>
          cases hcopy
          rw [if_neg hj]
          exact hother
        case isFalse => cases hcopy
      case h_2 => exact hother

/-- The copy ends in the buffer. -/
theorem Good.copy {w : Write SegKey} (hg : Good cfg s ses) (h : copyOf cfg s net buf = some (i, w)) :
    w.pos + w.bytes.length ≤ cfg.rxSduMax := by
  cases hfound : foundRx cfg s net buf with
  | none =>
    rw [copyOf_not_found hfound] at h
    cases h
  | some x =>
    obtain ⟨k, fresh, segRx⟩ := x
    have hf := hg.found hfound
    rw [copyOf_found hfound] at h
    split at h
    case isTrue hc =>
      cases h
      exact hf.gathers.fits hc hf.context.segN hf.context.le
    case isFalse => cases h

/-- The SDU that a PDU completes. -/
theorem Good.sdu (hg : Good cfg s ses) (hseg : segmented net buf) :
    (transRecv cfg s net buf now).2.handed = s.handed ∨
      ∃ i w sdu, copyOf cfg s net buf = some (i, w) ∧
        (transRecv cfg s net buf now).2.handed = s.handed ++ [sdu] ∧
        sdu.seqAuth = authOf s.ivIndex net buf ∧ sdu.buf.length ≤ cfg.rxSduMax ∧
        ∀ k < sdu.buf.length, ∃ v ∈ sessionPdu cfg s net buf ses i, v.tag = segKey s net buf ∧
          writer (sessionPdu cfg s net buf ses i) k = some v ∧ sdu.buf.getD k 0 = v.byteAt k := by
  cases hfound : foundRx cfg s net buf with
  | none => exact Or.inl (transRecv_not_found hfound hseg).handed
  | some x =>
    obtain ⟨i, fresh, segRx⟩ := x
    have hf := hg.found hfound
    have hses := @sessionPdu_found cfg s ses net buf i fresh segRx hfound i
    rw [if_pos rfl] at hses
    rw [transRecv_found hfound]
    obtain ⟨-, hkept, -⟩ | ⟨-, hkept, -⟩ | ⟨-, hkept, -⟩ | ⟨-, hkept, -⟩ |
      ⟨hc, hfull, -, sdu, hsdu, hbuf, hauth⟩ :=
      @segReceive_received cfg { s with segRx := segRx } net (segHdrOf buf) i now (buf.drop 4) hf.context.lt
    · exact Or.inl hkept
    · exact Or.inl hkept
    · exact Or.inl hkept
    · exact Or.inl hkept
    · have hnew := hses.trans (if_pos hc)
      have hcopy := (copyOf_found hfound).trans (if_pos hc)
      obtain ⟨hsegN, -, hkey, -⟩ :=
        stored_rest cfg (segHdrOf buf) (buf.drop 4) now (segRx.getD i SegRx.zero)
      obtain ⟨c, hstored⟩ : ∃ c,
          c = stored cfg (segHdrOf buf) (buf.drop 4) now (segRx.getD i SegRx.zero) := ⟨_, rfl⟩
      have hgather := @Found.gathersStored cfg s ses net buf i now fresh segRx hf hc
      rw [← hnew, ← hstored] at hgather
      rw [← hstored] at hsegN hkey
      have hfull : c.block = blockComplete c.segN := by
        rw [hsegN, hf.context.segN, hstored]
        exact hfull
      have hbuf : sdu.buf = readBytes c.bufData 0 c.bufLen := by
        rw [hstored]
        exact hbuf
      obtain ⟨hmax, hfill⟩ := hgather.complete hfull
      have hlen : sdu.buf.length = c.bufLen := by rw [hbuf, length_readBytes]
      refine Or.inr ⟨i, _, sdu, hcopy, hsdu, ?_, by rw [hlen]; exact hmax, ?_⟩
      · have hauth : sdu.seqAuth = c.seqAuth := by
          rw [hstored]
          exact hauth
        rw [hauth]
        exact congrArg SegKey.seqAuth (hkey.trans hf.key)
      · intro k hk
        rw [hlen] at hk
        obtain ⟨v, hv, hwriter, hbyte⟩ := hgather.data.read (by rwa [Nat.zero_add]) hk
        rw [Nat.zero_add] at hwriter hbyte
        refine ⟨v, hv, ?_, hwriter, by rw [hbuf, hbyte]⟩
        rw [hgather.own v hv, hkey, hf.key]

/-- **Sessions are kept in bounds.** -/
theorem Good.inBounds (hg : Good cfg s ses) : InBounds cfg s ses where
  block := fun i => and_blockComplete (hg i).bits
  data := fun _ _ _ i => hg.data i
  copy := fun _ _ _ _ h => hg.copy h
  sdu := fun _ _ _ hseg => hg.sdu hseg

/-- **every event** keeps every session. -/
theorem Good.step (hg : Good cfg s ses) {e : RxEvent} {s' : TransRx} {ses' : Sessions}
    (h : withHistory (rxStep cfg) (sessionStep cfg) (s, ses) e = some (s', ses')) :
    Good cfg s' ses' := by
  unfold withHistory at h
  obtain ⟨s₁, hstep, heq⟩ := Option.map_eq_some_iff.1 h
  obtain ⟨rfl, rfl⟩ := Prod.mk.inj heq
  cases e with
  | pdu net buf now =>
    cases hstep
    exact hg.pdu
  | ack i now =>
    simp only [rxStep] at hstep
    split at hstep
    case isFalse => cases hstep
    case isTrue =>
      cases hstep
      exact hg.ack i now

end Runs

section Bounds

variable {cfg : RxCfg} {iv : UInt32} {crpl count : ℕ} {es : List RxEvent} {s : TransRx}

/-- **Reassembly stays in bounds** along every run from start-up. The history says which segments
each session consists of. -/
theorem reassembly_in_bounds (hrun : runSteps (rxStep cfg) (rxInit iv crpl count) es = some s) :
    ∃ ses, runSteps (withHistory (rxStep cfg) (sessionStep cfg))
        (rxInit iv crpl count, fun _ => []) es = some (s, ses) ∧ InBounds cfg s ses := by
  obtain ⟨ses, hses⟩ := runSteps_withHistory (sessionStep cfg) hrun fun _ => []
  have hgood : Good cfg s ses :=
    runSteps_inv (P := fun _ _ => True) (I := fun p => Good cfg p.1 p.2)
      (fun p e p' hp _ hstep => hp.step hstep) (good_init iv crpl count)
      (stepsMeet_of_forall (fun _ _ _ => trivial) _) hses
  exact ⟨ses, hses, hgood.inBounds⟩

/-- The last of two segments is a replay, and is sent again longer. -/
def sentAgain : List RxEvent :=
  let net (seq : ℕ) : NetRx := ⟨1, 2, seq, false, false, true, false, 5⟩
  let sdu (n : ℕ) : SegSdu := ⟨2, 5, true, 0, false, (List.range n).map UInt8.ofNat⟩
  [.pdu (net 10) ((sdu 13).segPdu 0 0) 0, .pdu (net 20) [0, 1] 1, .pdu (net 11) ((sdu 13).segPdu 0 1) 2,
    .ack 0 400, .pdu (net 30) ((sdu 15).segPdu 0 1) 500]

/-- A message that is sent again after another one: both are put together, and all copies are in bounds. -/
theorem reassembly_in_bounds_again :
    ∃ s ses, runSteps (rxStep ⟨24, false⟩) (rxInit 0 2 1) sentAgain = some s ∧
      s.handed.map (fun sdu => sdu.buf.length) = [1, 15] ∧ InBounds ⟨24, false⟩ s ses := by
  have hlen : (runSteps (rxStep ⟨24, false⟩) (rxInit 0 2 1) sentAgain).map
      (fun s => s.handed.map fun sdu => sdu.buf.length) = some [1, 15] := by decide +kernel
  obtain ⟨s, hs, hlen⟩ := Option.map_eq_some_iff.1 hlen
  obtain ⟨ses, -, hbounds⟩ := reassembly_in_bounds hs
  exact ⟨s, ses, hs, hlen, hbounds⟩

end Bounds

end GenieSdk.Analysis.Reassembly
