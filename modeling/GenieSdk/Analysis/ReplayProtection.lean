import GenieSdk.Analysis.SegRoundTrip

/-!
# Replay protection

The replay list keeps for each source the number of the PDU that completed the last message. A message
is not handed on again if that was the highest number of its PDUs: then its entry covers all of them,
and entries only grow. `Protected` is this invariant, `Protected.step` shows it for one PDU. `foundRx`
says where `trans_seg` gets to with a segment, and what is known of the context there (`FoundAt`).
-/

set_option autoImplicit false

namespace GenieSdk.Analysis

open GenieSdk.Model
open GenieSdk.Lib

section List

/-- Empty slots are at the end, and no source has two. -/
def Packed (rpl : List Rpl) : Prop :=
  rpl.Pairwise fun a b => (a.src = 0 → b.src = 0) ∧ (a.src ≠ 0 → a.src ≠ b.src)

/-- The entry of its source rejects a PDU. -/
def Rejects (r : Rpl) (net : NetRx) : Prop :=
  (net.oldIv = true ∧ r.oldIv = false) ∨ (net.oldIv = r.oldIv ∧ net.seq ≤ r.seq)

/-- The entry of a PDU. -/
def entryOf (net : NetRx) : Rpl := ⟨net.src, net.oldIv, net.seq⟩

/-- Entries only grow. -/
theorem Rejects.of_newer {r : Rpl} {net q : NetRx} (h : Rejects r q) (hnew : ¬ Rejects r net) :
    Rejects (entryOf net) q := by
  unfold Rejects at *
  unfold entryOf
  cases hn : net.oldIv <;> cases hq : q.oldIv <;> cases hr : r.oldIv <;> simp_all <;> omega

/-- What the scan does if the PDU is not a replay. -/
structure Entered (net : NetRx) (rpl rpl' : List Rpl) : Prop where
  older : ∀ r ∈ rpl, r.src = net.src → ¬ Rejects r net
  mem : entryOf net ∈ rpl'
  others : ∀ r ∈ rpl, r.src ≠ 0 → r.src ≠ net.src → r ∈ rpl'
  only : ∀ r ∈ rpl', r ∈ rpl ∨ r = entryOf net
  length : rpl'.length = rpl.length

/-- The scan goes on behind an entry of another source. -/
theorem Entered.cons {net : NetRx} {r : Rpl} {rpl rpl' : List Rpl} (h : Entered net rpl rpl')
    (hr : r.src ≠ net.src) : Entered net (r :: rpl) (r :: rpl') := by
  constructor
  · intro x hx hsrc
    obtain rfl | hx := List.mem_cons.1 hx
    · exact absurd hsrc hr
    · exact h.older x hx hsrc
  · exact List.mem_cons_of_mem _ h.mem
  · intro x hx hpos hsrc
    obtain rfl | hx := List.mem_cons.1 hx
    · exact List.mem_cons_self
    · exact List.mem_cons_of_mem _ (h.others x hx hpos hsrc)
  · intro x hx
    obtain rfl | hx := List.mem_cons.1 hx
    · exact Or.inl List.mem_cons_self
    · exact (h.only x hx).imp_left (List.mem_cons_of_mem _)
  · rw [List.length_cons, List.length_cons, h.length]

/-- The first slot becomes the entry of the source. -/
theorem entered_head {net : NetRx} {r : Rpl} {rpl : List Rpl} (hold : r.src = net.src → ¬ Rejects r net)
    (hslot : r.src = 0 ∨ r.src = net.src) (hrest : ∀ x ∈ rpl, x.src ≠ net.src) :
    Entered net (r :: rpl) (entryOf net :: rpl) := by
  constructor
  · intro x hx hsrc
    obtain rfl | hx := List.mem_cons.1 hx
    · exact hold hsrc
    · exact absurd hsrc (hrest x hx)
  · exact List.mem_cons_self
  · intro x hx hpos hsrc
    obtain rfl | hx := List.mem_cons.1 hx
    · obtain h | h := hslot
      · exact absurd h hpos
      · exact absurd h hsrc
    · exact List.mem_cons_of_mem _ hx
  · intro x hx
    obtain rfl | hx := List.mem_cons.1 hx
    · exact Or.inr rfl
    · exact Or.inl (List.mem_cons_of_mem _ hx)
  · rfl

/-- **The scan**: no slot for the source, a replay, or the PDU is entered. -/
theorem rplScan_cases {net : NetRx} (hsrc : net.src ≠ 0) (rpl : List Rpl) (hp : Packed rpl) :
    (rplScan net rpl = none ∧ ∀ r ∈ rpl, r.src ≠ 0 ∧ r.src ≠ net.src) ∨
      rplScan net rpl = some (true, rpl) ∨
      ∃ rpl', rplScan net rpl = some (false, rpl') ∧ Packed rpl' ∧ Entered net rpl rpl' := by
  induction rpl with
  | nil => exact Or.inl ⟨rfl, by simp⟩
  | cons r rs ih =>
    obtain ⟨hhead, htail⟩ := List.pairwise_cons.1 hp
    unfold rplScan
    by_cases hzero : r.src = 0
    · rw [if_pos hzero]
      have hrest : ∀ x ∈ rs, x.src = 0 := fun x hx => (hhead x hx).1 hzero
      refine Or.inr (Or.inr ⟨_, rfl, ?_, ?_⟩)
      · refine List.pairwise_cons.2 ⟨?_, htail⟩
        intro x hx
        rw [hrest x hx]
        exact ⟨fun h => absurd h hsrc, fun h => h⟩
      · apply entered_head
        · intro h
          exact absurd (h.symm.trans hzero) hsrc
        · exact Or.inl hzero
        · intro x hx h
          exact hsrc (h.symm.trans (hrest x hx))
    · rw [if_neg hzero]
      by_cases heq : r.src = net.src
      · rw [if_pos heq]
        have hrest : ∀ x ∈ rs, x.src ≠ net.src := by
          intro x hx h
          exact (hhead x hx).2 hzero (heq.trans h.symm)
        -- the entry of the source
        have henter : ¬ Rejects r net → ∃ rpl', some (false, { r with
              seq := net.seq, oldIv := net.oldIv } :: rs) = some (false, rpl') ∧ Packed rpl' ∧
            Entered net (r :: rs) rpl' := by
          intro hnew
          have hentry : ({ r with seq := net.seq, oldIv := net.oldIv } : Rpl) = entryOf net := by
            unfold entryOf
            rw [heq]
          rw [hentry]
          refine ⟨_, rfl, List.pairwise_cons.2 ⟨?_, htail⟩, ?_⟩
          · intro x hx
            exact ⟨fun h => absurd h hsrc, fun _ h => hrest x hx h.symm⟩
          · exact entered_head (fun _ => hnew) (Or.inr heq) hrest
        split
        case isTrue => exact Or.inr (Or.inl rfl)
        case isFalse hold =>
          split
          case isTrue hnew =>
            refine Or.inr (Or.inr (henter ?_))
            unfold Rejects
            cases hn : net.oldIv <;> cases hr : r.oldIv <;> simp_all
          case isFalse => exact Or.inr (Or.inl rfl)
      · rw [if_neg heq]
        obtain ⟨hnone, hall⟩ | hrep | ⟨rs', hsome, hp', hent⟩ := ih htail
        · rw [hnone]
          refine Or.inl ⟨rfl, ?_⟩
          intro x hx
          obtain rfl | hx := List.mem_cons.1 hx
          · exact ⟨hzero, heq⟩
          · exact hall x hx
        · rw [hrep]
          exact Or.inr (Or.inl rfl)
        · rw [hsome]
          refine Or.inr (Or.inr ⟨r :: rs', rfl, List.pairwise_cons.2 ⟨?_, hp'⟩, hent.cons heq⟩)
          intro x hx
          obtain hx | rfl := hent.only x hx
          · exact hhead x hx
          · exact ⟨fun h => absurd h hzero, fun _ => heq⟩

/-- With few sources there is always a slot. -/
theorem rplScan_ne_none {net : NetRx} {srcs : Finset ℕ} {rpl : List Rpl} (hp : Packed rpl)
    (hknown : ∀ r ∈ rpl, r.src ≠ 0 → r.src ∈ srcs) (hmem : net.src ∈ srcs)
    (hcard : srcs.card ≤ rpl.length) : ¬ ∀ r ∈ rpl, r.src ≠ 0 ∧ r.src ≠ net.src := by
  intro hall
  have hnodup : (net.src :: rpl.map Rpl.src).Nodup := by
    refine List.nodup_cons.2 ⟨?_, ?_⟩
    · intro hin
      obtain ⟨r, hr, heq⟩ := List.mem_map.1 hin
      exact (hall r hr).2 heq
    · refine List.pairwise_map.2 (hp.imp_of_mem ?_)
      intro a b ha _ hab
      exact hab.2 (hall a ha).1
  have hsub : (net.src :: rpl.map Rpl.src).toFinset ⊆ srcs := by
    intro x hx
    obtain rfl | hx := List.mem_cons.1 (List.mem_toFinset.1 hx)
    · exact hmem
    · obtain ⟨r, hr, rfl⟩ := List.mem_map.1 hx
      exact hknown r hr (hall r hr).1
  have hle := Finset.card_le_card hsub
  rw [List.toFinset_card_of_nodup hnodup, List.length_cons, List.length_map] at hle
  omega

end List

section Found

/-- The SeqAuth that is computed from a PDU. -/
def authOf (iv : UInt32) (net : NetRx) (buf : List UInt8) : ℕ :=
  seqAuthOf (iv - (if net.oldIv then 1 else 0)).toNat
    (if 128 ≤ (buf.getD 0 0).toNat then net.seq / 2 ^ 13 * 2 ^ 13 + (segHdrOf buf).seqZero
      else net.seq)

variable {cfg : RxCfg} {s : TransRx} {net : NetRx} {buf : List UInt8} {i now : ℕ} {fresh : Bool}
  {segRx : List SegRx}

/-- The PDU is handed to `trans_seg`. -/
def segmented (net : NetRx) (buf : List UInt8) : Prop :=
  128 ≤ (buf.getD 0 0).toNat ∧ (net.localMatch = true ∨ net.friendMatch = true)

instance (net : NetRx) (buf : List UInt8) : Decidable (segmented net buf) :=
  inferInstanceAs (Decidable (_ ∧ _))

/-- How a segment gets to `found_rx`: the context, whether its session begins, and the contexts. -/
def foundRx (cfg : RxCfg) (s : TransRx) (net : NetRx) (buf : List UInt8) :
    Option (ℕ × Bool × List SegRx) :=
  let h := segHdrOf buf
  if ¬ segmented net buf ∨ buf.length < 5 ∨ h.segN < h.segO then none
  else
    match segRxFind net (authOf s.ivIndex net buf) s.segRx with
    | (some i, segRx) =>
      let rx := segRx.getD i SegRx.zero
      if segRxIsValid rx net h ∧ rx.inUse then some (i, false, segRx) else none
    | (none, segRx) =>
      if sduLenIsOk cfg net.ctl h.segN then
        (segRxAlloc net h (authOf s.ivIndex net buf) segRx).map fun (i, segRx) => (i, true, segRx)
      else none

/-- The context is as it was, or closed. -/
def Freed (c c' : SegRx) : Prop := c' = c ∨ c' = segRxReset c

/-- A lookup opens no context and changes no data. -/
theorem segRxFind_freed (a : ℕ) (l : List SegRx) (j : ℕ) :
    Freed (l.getD j SegRx.zero) ((segRxFind net a l).2.getD j SegRx.zero) := by
  induction l generalizing j with
  | nil => exact Or.inl rfl
  | cons x l ih =>
    have hnext : Freed ((x :: l).getD j SegRx.zero)
        ((x :: (segRxFind net a l).2).getD j SegRx.zero) := by
      cases j with
      | zero => exact Or.inl rfl
      | succ j => exact ih j
    unfold segRxFind
    simp only
    split
    case isTrue => exact hnext
    case isFalse =>
      split
      case isTrue => exact Or.inl rfl
      case isFalse =>
        split
        case isTrue =>
          cases j with
          | zero => exact Or.inr rfl
          | succ j => exact Or.inl rfl
        case isFalse => exact hnext

/-- One context is changed. -/
theorem rx_of_set {s' : TransRx} {c : SegRx} (h : s'.segRx = s.segRx.set i c)
    (hi : i < s.segRx.length) (j : ℕ) : s'.rx j = if j = i then c else s.rx j := by
  unfold TransRx.rx
  rw [h, List.getD_eq_getElem?_getD, List.getElem?_set]
  by_cases hj : j = i
  · subst hj
    rw [if_pos rfl, if_pos hi, if_pos rfl]
    rfl
  · rw [if_neg (Ne.symm hj), if_neg hj, List.getD_eq_getElem?_getD]

/-- The PDUs that `bt_mesh_trans_recv` takes for segments. -/
theorem segmented_iff :
    ¬ (¬ net.localMatch = true ∧ ¬ net.friendMatch = true) ∧ 128 ≤ (buf.getD 0 0).toNat ↔
      segmented net buf := by
  unfold segmented
  tauto

/-- The number of a segmented message. -/
theorem authOf_segmented (h : 128 ≤ (buf.getD 0 0).toNat) :
    seqAuthOf (s.iviRx net).toNat (net.seq / 2 ^ 13 * 2 ^ 13 + (segHdrOf buf).seqZero) =
      authOf s.ivIndex net buf := by
  unfold authOf
  rw [if_pos h]
  rfl

/-- What is known where `trans_seg` gets to `found_rx`. -/
theorem foundRx_some (h : foundRx cfg s net buf = some (i, fresh, segRx)) :
    segmented net buf ∧ ¬ buf.length < 5 ∧ ¬ (segHdrOf buf).segN < (segHdrOf buf).segO ∧
      ((fresh = false ∧ segRxFind net (authOf s.ivIndex net buf) s.segRx = (some i, segRx) ∧
          segRxIsValid (segRx.getD i SegRx.zero) net (segHdrOf buf) = true ∧
          (segRx.getD i SegRx.zero).inUse = true) ∨
        (fresh = true ∧ ∃ segRx₀,
          segRxFind net (authOf s.ivIndex net buf) s.segRx = (none, segRx₀) ∧
          sduLenIsOk cfg net.ctl (segHdrOf buf).segN = true ∧
          segRxAlloc net (segHdrOf buf) (authOf s.ivIndex net buf) segRx₀ = some (i, segRx))) := by
  unfold foundRx at h
  simp only at h
  split at h
  case isTrue => cases h
  case isFalse hok =>
    rw [not_or, not_or, not_not] at hok
    refine ⟨hok.1, hok.2.1, hok.2.2, ?_⟩
    split at h
    case h_1 k l hfind =>
      split at h
      case isFalse => cases h
      case isTrue hvalid =>
        cases h
        exact Or.inl ⟨rfl, hfind, hvalid.1, hvalid.2⟩
    case h_2 l hfind =>
      split at h
      case isFalse => cases h
      case isTrue hlen =>
        obtain ⟨x, halloc, heq⟩ := Option.map_eq_some_iff.1 h
        cases heq
        exact Or.inr ⟨rfl, l, hfind, hlen, halloc⟩

/-- At `found_rx`. -/
theorem transRecv_found (h : foundRx cfg s net buf = some (i, fresh, segRx)) :
    transRecv cfg s net buf now =
      segReceive cfg { s with segRx := segRx } net (segHdrOf buf) i (buf.drop 4) now := by
  obtain ⟨hseg, hlong, hle, hcase⟩ := foundRx_some h
  unfold transRecv
  rw [if_pos hseg.1, if_neg (segmented_iff.2 hseg).1]
  unfold transSeg
  rw [if_neg hlong]
  simp only
  rw [if_neg hle, authOf_segmented hseg.1]
  obtain ⟨-, hfind, hvalid, huse⟩ | ⟨-, segRx₀, hfind, hlen, halloc⟩ := hcase
  · rw [hfind]
    simp only
    refine (if_neg (not_not.2 hvalid)).trans ?_
    exact if_pos huse
  · rw [hfind]
    simp only
    rw [if_neg (not_not.2 hlen), halloc]

/-- The context at `found_rx`: one that is open, or one that was free. -/
structure FoundAt (cfg : RxCfg) (s : TransRx) (net : NetRx) (buf : List UInt8) (i : ℕ) (fresh : Bool)
    (segRx : List SegRx) : Prop where
  le : (segHdrOf buf).segO ≤ (segHdrOf buf).segN
  lt : i < segRx.length
  others : ∀ j, j ≠ i → Freed (s.rx j) (segRx.getD j SegRx.zero)
  src : (segRx.getD i SegRx.zero).src = net.src
  dst : (segRx.getD i SegRx.zero).dst = net.dst
  seqAuth : (segRx.getD i SegRx.zero).seqAuth = authOf s.ivIndex net buf
  ctl : (segRx.getD i SegRx.zero).ctl = net.ctl
  segN : (segRx.getD i SegRx.zero).segN = (segHdrOf buf).segN
  inUse : (segRx.getD i SegRx.zero).inUse = true
  origin : (fresh = false ∧ segRx = s.segRx) ∨
    (fresh = true ∧ sduLenIsOk cfg net.ctl (segHdrOf buf).segN = true ∧ ∃ c, Freed (s.rx i) c ∧
      segRx.getD i SegRx.zero = takenFor net (segHdrOf buf) (authOf s.ivIndex net buf) c)

/-- A session goes on, or one begins in a context that is free. -/
theorem foundAt (h : foundRx cfg s net buf = some (i, fresh, segRx)) :
    FoundAt cfg s net buf i fresh segRx := by
  obtain ⟨-, -, hle, ⟨rfl, hfind, hvalid, huse⟩ | ⟨rfl, segRx₀, hfind, hlen, halloc⟩⟩ := foundRx_some h
  · obtain ⟨-, hfound⟩ := @segRxFind_mem net (authOf s.ivIndex net buf) s.segRx
      (fun _ => True) (fun _ _ => trivial) (fun _ _ => trivial)
    rw [hfind] at hfound
    obtain ⟨hsame, hi, hget⟩ := hfound i rfl
    obtain rfl : segRx = s.segRx := hsame
    obtain ⟨hsrc, hdst, hauth⟩ := hget (s.segRx.getD i SegRx.zero) (by
      rw [List.getD_eq_getElem _ _ hi, List.getElem?_eq_getElem hi])
    unfold segRxIsValid at hvalid
    simp only [Bool.and_eq_true, Bool.not_eq_true', decide_eq_false_iff_not, not_or,
      not_not] at hvalid
    obtain ⟨⟨⟨-, hsegN⟩, -⟩, hctl⟩ := hvalid
    exact ⟨not_lt.1 hle, hi, fun j _ => Or.inl rfl, hsrc, hdst, hauth, hctl, hsegN, huse,
      Or.inl ⟨rfl, rfl⟩⟩
  · have hfreed := @segRxFind_freed net (authOf s.ivIndex net buf) s.segRx
    rw [hfind] at hfreed
    obtain ⟨hnone, -⟩ | ⟨pre, c, post, rfl, hsome⟩ :=
      @segRxAlloc_cases net (authOf s.ivIndex net buf) (segHdrOf buf) segRx₀
    · rw [hnone] at halloc
      cases halloc
    · rw [hsome] at halloc
      obtain ⟨rfl, rfl⟩ := Prod.mk.inj (Option.some.inj halloc)
      have hset := @rx_of_set { s with segRx := pre ++ c :: post } pre.length
        { s with segRx := pre ++ takenFor net (segHdrOf buf) (authOf s.ivIndex net buf) c :: post }
        (takenFor net (segHdrOf buf) (authOf s.ivIndex net buf) c) (by simp) (by simp)
      have hself := (hset pre.length).trans (if_pos rfl)
      have hc : Freed (s.rx pre.length) c := by
        have := hfreed pre.length
        rwa [show (pre ++ c :: post).getD pre.length SegRx.zero = c by simp] at this
      refine ⟨not_lt.1 hle, by simp, ?_, congrArg SegRx.src hself, congrArg SegRx.dst hself,
        congrArg SegRx.seqAuth hself, congrArg SegRx.ctl hself, congrArg SegRx.segN hself,
        congrArg SegRx.inUse hself, Or.inr ⟨rfl, hlen, c, hc, hself⟩⟩
      intro j hj
      have hsame := (hset j).trans (if_neg hj)
      rw [show (pre ++ takenFor net (segHdrOf buf) (authOf s.ivIndex net buf) c :: post).getD j
        SegRx.zero = (pre ++ c :: post).getD j SegRx.zero from hsame]
      exact hfreed j

/-- Contexts were closed at most. -/
structure OnlyClosed (s s' : TransRx) : Prop where
  ivIndex : s'.ivIndex = s.ivIndex
  rpl : s'.rpl = s.rpl
  handed : s'.handed = s.handed
  rx : ∀ j, Freed (s.rx j) (s'.rx j)

/-- Nothing is done. -/
theorem OnlyClosed.refl (s : TransRx) : OnlyClosed s s := ⟨rfl, rfl, rfl, fun _ => Or.inl rfl⟩

/-- A lookup, and an acknowledgement after it. -/
theorem onlyClosed_find (a : ℕ) :
    OnlyClosed s { s with segRx := (segRxFind net a s.segRx).2 } ∧
      ∀ src dst ttl seqAuth block obo, OnlyClosed s
        (sendAck cfg { s with segRx := (segRxFind net a s.segRx).2 } src dst ttl seqAuth block obo) := by
  have hclosed : OnlyClosed s { s with segRx := (segRxFind net a s.segRx).2 } :=
    ⟨rfl, rfl, rfl, segRxFind_freed a s.segRx⟩
  refine ⟨hclosed, ?_⟩
  intro src dst ttl seqAuth block obo
  obtain ⟨acks, hack⟩ := sendAck_eq cfg { s with segRx := (segRxFind net a s.segRx).2 } src dst ttl
    seqAuth block obo
  rw [hack]
  exact ⟨rfl, rfl, rfl, hclosed.rx⟩

/-- `found_rx` is not reached. -/
theorem transRecv_not_found (h : foundRx cfg s net buf = none) (hseg : segmented net buf) :
    OnlyClosed s (transRecv cfg s net buf now).2 := by
  unfold foundRx at h
  simp only at h
  unfold transRecv transSeg
  rw [if_pos hseg.1, if_neg (segmented_iff.2 hseg).1]
  split
  case isTrue => exact .refl s
  case isFalse hlong =>
    simp only
    split
    case isTrue => exact .refl s
    case isFalse hle =>
      rw [authOf_segmented hseg.1]
      rw [if_neg (not_or.2 ⟨not_not.2 hseg, not_or.2 ⟨hlong, hle⟩⟩)] at h
      obtain ⟨hclosed, hacked⟩ := @onlyClosed_find cfg s net (authOf s.ivIndex net buf)
      cases hfind : segRxFind net (authOf s.ivIndex net buf) s.segRx with
      | mk found segRx =>
        rw [hfind] at h hclosed hacked
        cases found with
        | some k =>
          simp only at h ⊢
          split
          case isTrue => exact hclosed
          case isFalse hvalid =>
            split
            case isTrue huse =>
              rw [if_pos ⟨not_not.1 hvalid, huse⟩] at h
              cases h
            case isFalse =>
              split
              case isTrue => exact hacked _ _ _ _ _ _
              case isFalse => exact hclosed
        | none =>
          simp only at h ⊢
          split
          case isTrue => exact hacked _ _ _ _ _ _
          case isFalse hlen =>
            rw [if_pos (not_not.1 hlen)] at h
            rw [Option.map_eq_none_iff.1 h]
            exact hclosed

end Found

section Steps

/-- The bit of a segment makes a block complete. -/
def Completes (block : BitVec 32) (buf : List UInt8) : Prop :=
  block ||| BitVec.ofNat 32 (2 ^ (segHdrOf buf).segO) = blockComplete (segHdrOf buf).segN

/-- No other PDU of the message is missing: it is unsegmented, it is the only segment, or its context
has the other ones. -/
def NoneMissing (s : TransRx) (net : NetRx) (buf : List UInt8) : Prop :=
  (buf.getD 0 0).toNat < 128 ∨ Completes 0 buf ∨
    ∃ c ∈ s.segRx, c.inUse = true ∧ c.src = net.src ∧ c.dst = net.dst ∧
      c.seqAuth = authOf s.ivIndex net buf ∧ Completes c.block buf

/-- What a PDU can do to the replay list and to what was handed on. The list is that of `s` when
`is_replay` is asked. -/
inductive Effect (net : NetRx) (a : ℕ) (last : Prop) (s s' : TransRx) : Prop
  | quiet (iv : s'.ivIndex = s.ivIndex) (rpl : s'.rpl = s.rpl) (handed : s'.handed = s.handed)
  | asked (b : Bool) (s₁ s₂ : TransRx) (h₁ : s₁.rpl = s.rpl) (replay : isReplay s₁ net = (b, s₂))
      (iv : s'.ivIndex = s.ivIndex) (rpl : s'.rpl = s₂.rpl)
      (handed : b = true ∧ s'.handed = s.handed ∨ b = false ∧ last ∧
        ∃ h, s'.handed = s.handed ++ [h] ∧ h.net.src = net.src ∧ h.seqAuth = a)

variable {cfg : RxCfg} {s : TransRx} {net : NetRx} {h : SegHdr} {k now : ℕ} {payload : List UInt8}

/-- An acknowledgement leaves the replay list and what was handed on. -/
theorem sendAck_effect (src dst ttl seqAuth : ℕ) (block : BitVec 32) (obo : Bool) :
    (sendAck cfg s src dst ttl seqAuth block obo).ivIndex = s.ivIndex ∧
      (sendAck cfg s src dst ttl seqAuth block obo).rpl = s.rpl ∧
      (sendAck cfg s src dst ttl seqAuth block obo).handed = s.handed := by
  obtain ⟨acks, hack⟩ := sendAck_eq cfg s src dst ttl seqAuth block obo
  rw [hack]
  exact ⟨rfl, rfl, rfl⟩

/-- The rest of the state stays as it is. -/
theorem isReplay_rest (s : TransRx) (net : NetRx) :
    (isReplay s net).2.ivIndex = s.ivIndex ∧ (isReplay s net).2.handed = s.handed ∧
      (isReplay s net).2.segRx = s.segRx := by
  unfold isReplay
  split <;> exact ⟨rfl, rfl, rfl⟩

/-- A complete message is handed on. -/
theorem segHand_effect (rx : SegRx) :
    (segHand cfg s net h k rx).ivIndex = s.ivIndex ∧ (segHand cfg s net h k rx).rpl = s.rpl ∧
      ∃ x, (segHand cfg s net h k rx).handed = s.handed ++ [x] ∧ x.net.src = net.src ∧
        x.seqAuth = rx.seqAuth := by
  unfold segHand
  simp only
  obtain ⟨acks, hack⟩ := sendAck_eq cfg s net.dst net.src net.sendTtl rx.seqAuth rx.block rx.obo
  rw [hack]
  exact ⟨rfl, rfl, _, rfl, rfl, rfl⟩

/-- A segment is stored in its context. -/
theorem segStore_effect (hlocal : net.localMatch = true) :
    Effect net (s.rx k).seqAuth
      ((s.rx k).block ||| BitVec.ofNat 32 (2 ^ h.segO) = blockComplete h.segN) s
      (segStore cfg s net h k payload now).2 := by
  unfold segStore
  simp only
  split
  case isTrue => exact .quiet rfl rfl rfl
  case isFalse hfull =>
    have hfull := not_not.1 hfull
    unfold replayed
    rw [if_pos hlocal]
    obtain ⟨rx, hrx⟩ : ∃ rx, rx = segStored cfg h payload now (s.rx k) := ⟨_, rfl⟩
    rw [← hrx]
    have hauth : rx.seqAuth = (s.rx k).seqAuth := by
      rw [hrx]
      rfl
    cases hrep : isReplay (s.setRx k rx) net with
    | mk b s₂ =>
      obtain ⟨hiv, hhanded, -⟩ := isReplay_rest (s.setRx k rx) net
      rw [hrep] at hiv hhanded
      cases b with
      | true => exact .asked true (s.setRx k rx) s₂ rfl hrep hiv rfl (Or.inl ⟨rfl, hhanded⟩)
      | false =>
        obtain ⟨hiv', hrpl', x, hx, hsrc, hseq⟩ := @segHand_effect cfg s₂ net h k rx
        exact .asked false (s.setRx k rx) s₂ rfl hrep (hiv'.trans hiv) hrpl' (Or.inr ⟨rfl, hfull,
          x, by rw [hx, hhanded]; rfl, hsrc, hseq.trans hauth⟩)

/-- The state may differ in what `is_replay` does not read. -/
theorem Effect.of_eq {a : ℕ} {last last' : Prop} {s₀ s s' : TransRx} (h : Effect net a last s s')
    (hiv : s.ivIndex = s₀.ivIndex) (hrpl : s.rpl = s₀.rpl) (hhanded : s.handed = s₀.handed)
    (hlast : last → last') : Effect net a last' s₀ s' := by
  cases h with
  | quiet hiv' hrpl' hhanded' =>
    exact .quiet (hiv'.trans hiv) (hrpl'.trans hrpl) (hhanded'.trans hhanded)
  | asked b s₁ s₂ h₁ hrep hiv' hrpl' hres =>
    rw [hhanded] at hres
    exact .asked b s₁ s₂ (h₁.trans hrpl) hrep (hiv'.trans hiv) hrpl'
      (hres.imp_right fun ⟨hb, hl, hx⟩ => ⟨hb, hlast hl, hx⟩)

/-- A segment for the `k`-th context. -/
theorem segReceive_effect (hlocal : net.localMatch = true) (hk : k < s.segRx.length) :
    Effect net (s.rx k).seqAuth
      ((s.rx k).block ||| BitVec.ofNat 32 (2 ^ h.segO) = blockComplete h.segN) s
      (segReceive cfg s net h k payload now).2 := by
  unfold segReceive
  simp only
  split
  case isTrue => exact .quiet rfl rfl rfl
  case isFalse =>
    split
    case isTrue =>
      obtain ⟨rx, hrx⟩ : ∃ rx : SegRx, rx = { s.rx k with
          bufLen := h.segN * segLen (s.rx k).ctl + payload.length } := ⟨_, rfl⟩
      rw [← hrx]
      have hauth : rx.seqAuth = (s.rx k).seqAuth := by rw [hrx]
      have hblock : rx.block = (s.rx k).block := by rw [hrx]
      split
      case isTrue =>
        obtain ⟨hiv, hrpl, hhanded⟩ := @sendAck_effect cfg (s.setRx k rx) net.dst net.src net.sendTtl
          (s.rx k).seqAuth 0 (s.rx k).obo
        exact .quiet hiv hrpl hhanded
      case isFalse =>
        have heff := @segStore_effect cfg (s.setRx k rx) net h k now payload hlocal
        rw [rx_setRx rx hk, hauth, hblock] at heff
        exact heff.of_eq rfl rfl rfl id
    case isFalse =>
      split
      case isTrue => exact .quiet rfl rfl rfl
      case isFalse => exact segStore_effect hlocal

/-- **What a PDU for a local element can do.** -/
theorem transRecv_effect {buf : List UInt8} (hlocal : net.localMatch = true) :
    Effect net (authOf s.ivIndex net buf) (NoneMissing s net buf) s
      (transRecv cfg s net buf now).2 := by
  by_cases hseg : 128 ≤ (buf.getD 0 0).toNat
  · cases hfound : foundRx cfg s net buf with
    | none =>
      obtain ⟨hiv, hrpl, hhanded, -⟩ := @transRecv_not_found cfg s net buf now hfound
        ⟨hseg, Or.inl hlocal⟩
      exact .quiet hiv hrpl hhanded
    | some x =>
      obtain ⟨i, fresh, segRx⟩ := x
      have hat := foundAt hfound
      rw [transRecv_found hfound]
      have heff := @segReceive_effect cfg { s with segRx := segRx } net (segHdrOf buf) i now
        (buf.drop 4) hlocal hat.lt
      rw [show ({ s with segRx := segRx } : TransRx).rx i = segRx.getD i SegRx.zero from rfl,
        hat.seqAuth] at heff
      refine heff.of_eq rfl rfl rfl fun hfull => Or.inr ?_
      obtain ⟨-, rfl⟩ | ⟨-, -, c, -, htaken⟩ := hat.origin
      · refine Or.inr ⟨_, ?_, hat.inUse, hat.src, hat.dst, hat.seqAuth, hfull⟩
        rw [List.getD_eq_getElem _ _ hat.lt]
        exact List.getElem_mem hat.lt
      · rw [htaken] at hfull
        exact Or.inl hfull
  · unfold transRecv
    rw [if_neg hseg]
    unfold transUnseg
    split
    case isTrue => exact .quiet rfl rfl rfl
    case isFalse =>
      unfold replayed
      rw [if_pos hlocal]
      cases hrep : isReplay s net with
      | mk b s₂ =>
        obtain ⟨hiv, hhanded, -⟩ := isReplay_rest s net
        rw [hrep] at hiv hhanded
        cases b with
        | true => exact .asked true s s₂ rfl hrep hiv rfl (Or.inl ⟨rfl, hhanded⟩)
        | false =>
          simp only
          rw [if_neg (show ¬ (¬ net.ctl = true ∧ ¬ net.localMatch = true ∧
            ¬ net.friendMatch = true) from fun h => h.2.1 hlocal)]
          refine .asked false s s₂ rfl hrep hiv rfl (Or.inr ⟨rfl, Or.inl (not_le.1 hseg), _,
            by rw [hhanded], rfl, ?_⟩)
          unfold authOf TransRx.iviRx
          rw [if_neg hseg, show s₂.ivIndex = s.ivIndex from hiv]

end Steps

section Protection

/-- What a node hears: PDUs for local elements, from no more sources than the list has slots. -/
structure Heard (A : Set (NetRx × List UInt8)) (srcs : Finset ℕ) (crpl : ℕ) : Prop where
  isLocal : ∀ q ∈ A, q.1.localMatch = true
  src : ∀ q ∈ A, q.1.src ∈ srcs
  pos : 0 ∉ srcs
  few : srcs.card ≤ crpl

/-- The PDU has the highest number of all PDUs of its message. -/
def Highest (A : Set (NetRx × List UInt8)) (iv : UInt32) (net : NetRx) (buf : List UInt8) : Prop :=
  ∀ q ∈ A, q.1.src = net.src → authOf iv q.1 q.2 = authOf iv net buf → Rejects (entryOf net) q.1

/-- Only PDUs in `A` arrive, and the one that completes a message has the highest number. -/
def Orderly (A : Set (NetRx × List UInt8)) (s : TransRx) : RxEvent → Prop
  | .pdu net buf _ => (net, buf) ∈ A ∧ (NoneMissing s net buf → Highest A s.ivIndex net buf)
  | .ack _ _ => True

/-- The entry of its source covers every PDU of a message that was handed on. -/
def Covered (A : Set (NetRx × List UInt8)) (iv : UInt32) (rpl : List Rpl) (h : Handed) : Prop :=
  ∃ r ∈ rpl, r.src ≠ 0 ∧ r.src = h.net.src ∧
    ∀ q ∈ A, q.1.src = h.net.src → authOf iv q.1 q.2 = h.seqAuth → Rejects r q.1

/-- The source and the SeqAuth of a message. -/
def messageId (h : Handed) : ℕ × ℕ := (h.net.src, h.seqAuth)

/-- The replay list protects what was handed on. -/
structure Protected (A : Set (NetRx × List UInt8)) (srcs : Finset ℕ) (iv : UInt32) (s : TransRx) :
    Prop where
  ivIndex : s.ivIndex = iv
  few : srcs.card ≤ s.rpl.length
  packed : Packed s.rpl
  known : ∀ r ∈ s.rpl, r.src ≠ 0 → r.src ∈ srcs
  covered : ∀ h ∈ s.handed, Covered A iv s.rpl h
  once : (s.handed.map messageId).Nodup

variable {A : Set (NetRx × List UInt8)} {srcs : Finset ℕ} {iv : UInt32} {crpl : ℕ} {cfg : RxCfg}
  {s s' : TransRx}

/-- Only the list and what was handed on matter. -/
theorem Protected.of_eq (h : Protected A srcs iv s) (hiv : s'.ivIndex = s.ivIndex)
    (hrpl : s'.rpl = s.rpl) (hhanded : s'.handed = s.handed) : Protected A srcs iv s' := by
  obtain ⟨h₁, h₂, h₃, h₄, h₅, h₆⟩ := h
  rw [← hiv] at h₁
  rw [← hrpl] at h₂ h₃ h₄ h₅
  rw [← hhanded] at h₅ h₆
  exact ⟨h₁, h₂, h₃, h₄, h₅, h₆⟩

/-- Nothing is forgotten when a PDU is entered. -/
theorem Covered.entered {h : Handed} {net : NetRx} {rpl rpl' : List Rpl} (hcov : Covered A iv rpl h)
    (hent : Entered net rpl rpl') (hpos : net.src ≠ 0) : Covered A iv rpl' h := by
  obtain ⟨r, hr, hr0, hsrc, hall⟩ := hcov
  by_cases heq : r.src = net.src
  · refine ⟨entryOf net, hent.mem, hpos, heq.symm.trans hsrc, ?_⟩
    intro q hq hqsrc hauth
    exact (hall q hq hqsrc hauth).of_newer (hent.older r hr heq)
  · exact ⟨r, hent.others r hr hr0 heq, hr0, hsrc, hall⟩

/-- **One PDU.** -/
theorem Protected.step {net : NetRx} {buf : List UInt8} {now : ℕ} (h : Protected A srcs iv s)
    (hA : Heard A srcs crpl) (hmem : (net, buf) ∈ A)
    (hhigh : NoneMissing s net buf → Highest A s.ivIndex net buf) :
    Protected A srcs iv (transRecv cfg s net buf now).2 := by
  have hsrc : net.src ∈ srcs := hA.src _ hmem
  have hpos : net.src ≠ 0 := fun h0 => hA.pos (h0 ▸ hsrc)
  cases @transRecv_effect cfg s net now buf (hA.isLocal _ hmem) with
  | quiet hiv hrpl hhanded => exact h.of_eq hiv hrpl hhanded
  | asked b s₁ s₂ h₁ hrep hiv hrpl hres =>
    unfold isReplay at hrep
    rw [h₁] at hrep
    obtain ⟨-, hall⟩ | htrue | ⟨rpl', hscan, hpacked, hent⟩ := rplScan_cases hpos s.rpl h.packed
    · exact absurd hall (rplScan_ne_none h.packed h.known hsrc h.few)
    · -- a replay
      rw [htrue] at hrep
      cases hrep
      obtain ⟨-, hhanded⟩ | ⟨hb, -⟩ := hres
      · exact h.of_eq hiv hrpl hhanded
      · cases hb
    · -- the message is handed on, and its entry is that of the PDU
      rw [hscan] at hrep
      cases hrep
      have hrpl : (transRecv cfg s net buf now).2.rpl = rpl' := hrpl
      obtain ⟨hb, -⟩ | ⟨-, hlast, x, hhanded, hxsrc, hxauth⟩ := hres
      · cases hb
      have hhigh := hhigh hlast
      rw [h.ivIndex] at hhigh hxauth
      refine ⟨hiv.trans h.ivIndex, ?_, ?_, ?_, ?_, ?_⟩
      · rw [hrpl, hent.length]
        exact h.few
      · rw [hrpl]
        exact hpacked
      · rw [hrpl]
        intro r hr hr0
        obtain hr | rfl := hent.only r hr
        · exact h.known r hr hr0
        · exact hsrc
      · rw [hrpl, hhanded]
        intro y hy
        obtain hy | hy := List.mem_append.1 hy
        · exact (h.covered y hy).entered hent hpos
        · obtain rfl := List.mem_singleton.1 hy
          refine ⟨entryOf net, hent.mem, hpos, hxsrc.symm, ?_⟩
          intro q hq hqsrc hqauth
          exact hhigh q hq (hqsrc.trans hxsrc) (hqauth.trans hxauth)
      · rw [hhanded, List.map_append, List.map_singleton]
        refine List.nodup_append.2 ⟨h.once, List.nodup_singleton _, ?_⟩
        intro i hi j hj heq
        obtain ⟨y, hy, rfl⟩ := List.mem_map.1 hi
        obtain rfl := List.mem_singleton.1 hj
        -- the entry of its source would have rejected the PDU
        obtain ⟨hysrc, hyauth⟩ := Prod.mk.inj heq
        obtain ⟨r, hr, -, hrsrc, hcov⟩ := h.covered y hy
        refine hent.older r hr (hrsrc.trans (hysrc.trans hxsrc)) ?_
        exact hcov (net, buf) hmem (hysrc.trans hxsrc).symm (hyauth.trans hxauth).symm

/-- Every orderly step keeps the list protecting. -/
theorem Protected.rxStep (h : Protected A srcs iv s) (hA : Heard A srcs crpl) {e : RxEvent}
    (ho : Orderly A s e) (hc : Model.rxStep cfg s e = some s') : Protected A srcs iv s' := by
  cases e with
  | pdu net buf now =>
    cases hc
    exact h.step hA ho.1 ho.2
  | ack i now =>
    simp only [Model.rxStep] at hc
    split at hc
    case isFalse => cases hc
    case isTrue =>
      cases hc
      unfold segAck
      simp only
      split
      · obtain ⟨hiv, hrpl, hhanded⟩ := @sendAck_effect cfg s (s.rx i).dst (s.rx i).src (s.rx i).ttl
          (s.rx i).seqAuth 0 (s.rx i).obo
        exact h.of_eq hiv hrpl hhanded
      · obtain ⟨hiv, hrpl, hhanded⟩ := @sendAck_effect cfg s (s.rx i).dst (s.rx i).src (s.rx i).ttl
          (s.rx i).seqAuth (s.rx i).block (s.rx i).obo
        exact h.of_eq hiv hrpl hhanded

/-- **Replay protection.** A message is handed on at most once, in whatever order and however often its
PDUs arrive, if whenever nothing else of a message is missing it is the PDU with the highest number
that arrives. -/
theorem handed_once {count : ℕ} {evs : List RxEvent} (hA : Heard A srcs crpl)
    (ho : StepsMeet (Model.rxStep cfg) (Orderly A) (rxInit iv crpl count) evs)
    (hrun : runSteps (Model.rxStep cfg) (rxInit iv crpl count) evs = some s) :
    (s.handed.map messageId).Nodup := by
  have h₀ : Protected A srcs iv (rxInit iv crpl count) := by
    refine ⟨rfl, ?_, ?_, ?_, ?_, List.nodup_nil⟩
    · show srcs.card ≤ (List.replicate crpl Rpl.zero).length
      rw [List.length_replicate]
      exact hA.few
    · refine List.pairwise_replicate.2 (Or.inr ⟨fun _ => rfl, fun h => absurd rfl h⟩)
    · intro r hr hr0
      rw [List.eq_of_mem_replicate hr] at hr0
      exact absurd rfl hr0
    · intro h hh
      cases hh
  exact (runSteps_inv (fun _ _ _ h ho hc => h.rxStep hA ho hc) h₀ ho hrun).once

/-- The segments of `twoSegments` with first number 0. -/
def twoPdu (o : ℕ) : NetRx × List UInt8 :=
  (⟨1, 2, o, false, false, true, false, 5⟩, twoSegments.segPdu 0 o)

/-- A message of one segment from another source. -/
def onePdu : NetRx × List UInt8 :=
  (⟨3, 2, 0, false, false, true, false, 5⟩,
    SegSdu.segPdu ⟨2, 5, true, 0, false, (List.range 5).map UInt8.ofNat⟩ 0 0)

/-- A PDU arrives. -/
def arrival (q : NetRx × List UInt8) : RxEvent := .pdu q.1 q.2 0

/-- What is known to be sent can be listed. -/
instance decidableOrderly (L : List (NetRx × List UInt8)) (s : TransRx) :
    ∀ e, Decidable (Orderly {q | q ∈ L} s e)
  | .pdu net buf now =>
    have : Decidable (NoneMissing s net buf) := by
      unfold NoneMissing Completes
      infer_instance
    have : ∀ r q, Decidable (Rejects r q) := fun _ _ => inferInstanceAs (Decidable (_ ∨ _))
    have : Decidable (Highest {q | q ∈ L} s.ivIndex net buf) :=
      inferInstanceAs (Decidable (∀ q ∈ L, _ → _ → _))
    inferInstanceAs (Decidable ((net, buf) ∈ L ∧ _))
  | .ack _ _ => isTrue trivial

/-- In order, and once more after the context was used for another message. -/
theorem handed_once_again : ∃ s, runSteps (Model.rxStep ⟨96, false⟩) (rxInit 0 2 1)
      ([twoPdu 0, twoPdu 1, onePdu, twoPdu 0, twoPdu 1].map arrival) = some s ∧
      s.handed.map messageId = [(1, 0), (3, 0)] ∧ (s.handed.map messageId).Nodup := by
  obtain ⟨s, hrun, hids⟩ : ∃ s, runSteps (Model.rxStep ⟨96, false⟩) (rxInit 0 2 1)
      ([twoPdu 0, twoPdu 1, onePdu, twoPdu 0, twoPdu 1].map arrival) = some s ∧
      s.handed.map messageId = [(1, 0), (3, 0)] := ⟨_, rfl, by decide⟩
  exact ⟨s, hrun, hids, @handed_once {q | q ∈ [twoPdu 0, twoPdu 1, onePdu]} {1, 3} 0 2 ⟨96, false⟩ s
    1 _ ⟨by simp [twoPdu, onePdu], by simp [twoPdu, onePdu], by decide, by decide⟩ (by decide) hrun⟩

/-- The second segment comes first: the entry of the source is the number of the first segment, and
the message is handed on again. -/
theorem handed_twice : ¬ ∀ cfg iv crpl count A srcs evs s, Heard A srcs crpl →
    (∀ net buf now, RxEvent.pdu net buf now ∈ evs → (net, buf) ∈ A) →
    runSteps (Model.rxStep cfg) (rxInit iv crpl count) evs = some s →
    (s.handed.map messageId).Nodup := by
  intro hall
  obtain ⟨s, hrun, hids⟩ : ∃ s, runSteps (Model.rxStep ⟨96, false⟩) (rxInit 0 2 1)
      ([twoPdu 1, twoPdu 0, onePdu, twoPdu 0, twoPdu 1].map arrival) = some s ∧
      s.handed.map messageId = [(1, 0), (3, 0), (1, 0)] := ⟨_, rfl, by decide⟩
  have hnodup := hall ⟨96, false⟩ 0 2 1 {q | q ∈ [twoPdu 0, twoPdu 1, onePdu]} {1, 3} _ s
    ⟨by simp [twoPdu, onePdu], by simp [twoPdu, onePdu], by decide, by decide⟩ (by
      intro net buf now hmem
      obtain ⟨q, hq, heq⟩ := List.mem_map.1 hmem
      obtain ⟨rfl, rfl, -⟩ := RxEvent.pdu.inj heq
      have hsub : ∀ q ∈ [twoPdu 1, twoPdu 0, onePdu, twoPdu 0, twoPdu 1],
          q ∈ [twoPdu 0, twoPdu 1, onePdu] := by decide
      exact hsub q hq) hrun
  rw [hids] at hnodup
  exact absurd hnodup (by decide)

end Protection

end GenieSdk.Analysis
