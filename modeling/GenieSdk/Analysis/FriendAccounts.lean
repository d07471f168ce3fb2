import GenieSdk.Lib.Runs
import GenieSdk.Model.FriendQueue

/-!
# The buffers of the Friend are accounted for

A buffer of `friend_buf_pool` is in a Friend Queue, in a segment queue, in the last slot of a
friendship, at the advertiser, or free, and its references are counted there. `friend_buf_alloc` can
take a buffer from the Friend Queues only: `friend.c` reserves one buffer for each last slot, none for
the segment queues. **The buffers stay accounted for as long as each allocation leaves a buffer outside
the segment queues, the last slots and the advertiser, and no timer overwrites a last slot**
(`buffers_accounted`).
-/

set_option autoImplicit false

namespace GenieSdk.Analysis

open GenieSdk.Lib GenieSdk.Model GenieSdk.Model.FriendQueue

/-! ## What is claimed -/

/-- The buffers in the Friend Queues. -/
def inQueues (fs : List Frnd) : List ℕ := fs.flatMap fun f => f.queue

/-- The buffers in the segment queues. -/
def inSegs (fs : List Frnd) : List ℕ := fs.flatMap fun f => f.seg.flatten

/-- The buffers in the last slots. -/
def inLasts (fs : List Frnd) : List ℕ := fs.flatMap fun f => f.last.toList

/-- The buffers at the advertiser. -/
def atAdv (s : FriendSys) : List ℕ := s.advQueue ++ s.advNow.toList

/-- What holds of the buffers in every state. -/
structure Accounts (s : FriendSys) : Prop where
  sizes : ∀ f ∈ s.frnd, f.queueSize = f.queue.length
  once : ∀ b, (inQueues s.frnd ++ inSegs s.frnd).count b ≤ 1
  held : ∀ b, (s.buf b).ref ≠ 0 →
    b ∈ inQueues s.frnd ∨ b ∈ inSegs s.frnd ∨ b ∈ inLasts s.frnd ∨ b ∈ atAdv s

/-- The buffers that no Friend Queue will give back, with the friendships `fs`. -/
def parked (s : FriendSys) (fs : List Frnd) : List ℕ := inSegs fs ++ inLasts fs ++ atAdv s

/-- At least `k` buffers can be allocated. -/
def CanAlloc (s : FriendSys) (fs : List Frnd) (k : ℕ) : Prop :=
  (s.suspended = true → s.glp = true) ∧
    k ≤ (Finset.range s.bufs.length \ (parked s fs).toFinset).card

instance (s : FriendSys) (fs : List Frnd) (k : ℕ) : Decidable (CanAlloc s fs k) :=
  inferInstanceAs (Decidable (_ ∧ _))

/-- A Friend Update goes before the PDU, and needs a buffer of its own. -/
def UpdateDue (s : FriendSys) (f : Frnd) (src : ℕ) (type : PduType) (seqAuth : Option ℕ) : Prop :=
  f.secUpdate = true ∧ (type = .single ∨
    type = .complete ∧ (getSeg s f src (seqAuth.getD transSeqAuthNval)).isSome = true)

instance (s : FriendSys) (f : Frnd) (src : ℕ) (type : PduType) (seqAuth : Option ℕ) :
    Decidable (UpdateDue s f src type seqAuth) := inferInstanceAs (Decidable (_ ∧ _))

/-- The timer sends a last PDU that is not waiting already, or puts another one in its place when the
slot is free. -/
def TimerOk (s : FriendSys) (f : Frnd) : Prop :=
  (f.sendLast = true → ∀ b ∈ f.last, b ∉ s.advQueue) ∧
    (f.sendLast = false → (f.established = true ∧ f.pendingReq = false) ∨ f.last = none)

instance (s : FriendSys) (f : Frnd) : Decidable (TimerOk s f) :=
  inferInstanceAs (Decidable (_ ∧ _))

/-- **The condition.** Where the Friend needs a buffer, or two for a PDU with a Friend Update before it, as many are
free or in Friend Queues (`CanAlloc`), and the timer sends no buffer that waits at the advertiser and replaces no
last PDU (`TimerOk`). -/
def BuffersOk (s : FriendSys) : FriendAct → Prop
  | .friendReq netIdx addr prevAddr _ =>
    ∀ p ∈ friendReqCtx s netIdx addr prevAddr,
      CanAlloc s (if p.2 then s.frnd.modify p.1 clearedFrnd else s.frnd) 1
  | .poll netIdx addr fsn _ =>
    ∀ i ∈ friendFind s netIdx addr false, ∀ f ∈ s.frnd[i]?, f.pendingBuf = false →
      ¬ (fsn = f.fsn ∧ f.last.isSome) → f.queue = [] →
        CanAlloc s (s.frnd.modify i fun f => { f with last := none }) 1
  | .sub netIdx addr _ _ _ =>
    ∀ i ∈ friendFind s netIdx addr true, ∀ f ∈ s.frnd[i]?, f.pendingBuf = false →
      CanAlloc s s.frnd 1
  | .enqueue i netIdx src dst type seqAuth encoded _ =>
    ∀ f ∈ s.frnd[i]?, friendLpnMatches f netIdx dst = true →
      CanAlloc s s.frnd 1 ∧
        (encoded = true → UpdateDue s f src type seqAuth → CanAlloc s s.frnd 2)
  | .timeout i => ∀ f ∈ s.frnd[i]?, f.timer = true → TimerOk s f
  | _ => True

instance (s : FriendSys) : (a : FriendAct) → Decidable (BuffersOk s a)
  | .friendReq netIdx addr prevAddr _ =>
    inferInstanceAs (Decidable (∀ p ∈ friendReqCtx s netIdx addr prevAddr, _))
  | .poll netIdx addr _ _ => inferInstanceAs (Decidable (∀ i ∈ friendFind s netIdx addr false, _))
  | .sub netIdx addr _ _ _ => inferInstanceAs (Decidable (∀ i ∈ friendFind s netIdx addr true, _))
  | .enqueue i _ _ _ _ _ _ _ => inferInstanceAs (Decidable (∀ f ∈ s.frnd[i]?, _))
  | .timeout i => inferInstanceAs (Decidable (∀ f ∈ s.frnd[i]?, _))
  | .clear _ => isTrue trivial
  | .secUpdate _ => isTrue trivial
  | .clearIncomplete _ _ _ _ _ => isTrue trivial
  | .advTake => isTrue trivial
  | .advStart => isTrue trivial
  | .advStop => isTrue trivial
  | .suspend => isTrue trivial
  | .resume => isTrue trivial

/-! ## Counting references -/

/-- How often a buffer is in a Friend Queue or a segment queue. -/
def timesQueued (s : FriendSys) (b : ℕ) : ℕ := (inQueues s.frnd).count b + (inSegs s.frnd).count b

/-- How many references there are to a buffer. -/
def timesHeld (s : FriendSys) (b : ℕ) : ℕ :=
  timesQueued s b + (inLasts s.frnd).count b + (atAdv s).count b

/-- The buffers are accounted for, those that a call has in hand included. -/
structure Accounted (hand : List ℕ) (s : FriendSys) : Prop where
  refs : ∀ b, (s.buf b).ref = timesHeld s b + hand.count b
  once : ∀ b, 0 < timesQueued s b + hand.count b → timesHeld s b + hand.count b = 1
  sizes : ∀ f ∈ s.frnd, f.queueSize = f.queue.length

/-- With no buffer in hand the invariant gives the accounts. -/
theorem Accounted.accounts {s : FriendSys} (h : Accounted [] s) : Accounts s where
  sizes := h.sizes
  once b := by
    have honce := h.once b
    simp only [timesHeld, timesQueued, List.count_nil] at honce
    rw [List.count_append]
    omega
  held b hb := by
    have href := h.refs b
    simp only [timesHeld, timesQueued, List.count_nil] at href
    simp only [← List.count_pos_iff]
    omega

section Buffers

variable {s s' : FriendSys} {b c i : ℕ} {g : Buf → Buf}

/-- `modBuf` changes one buffer of the pool and no other. -/
theorem buf_modBuf : (s.modBuf b g).buf c =
    if c = b ∧ b < s.bufs.length then g (s.buf c) else s.buf c := by
  simp only [FriendSys.buf, FriendSys.modBuf, List.getD_eq_getElem?_getD, List.getElem?_modify]
  by_cases hc : b = c
  · subst hc
    by_cases hb : b < s.bufs.length <;> simp [hb]
  · simp [hc, Ne.symm hc]

/-- A buffer that is in use is in the pool's memory. -/
theorem lt_of_ref (h : (s.buf b).ref ≠ 0) : b < s.bufs.length := by
  by_contra hb
  apply h
  simp [FriendSys.buf, List.getD_eq_getElem?_getD, not_lt.1 hb, Buf.free]

/-- Only the buffers' own fields have changed. -/
structure OnlyBufs (s s' : FriendSys) : Prop where
  eq : s' = { s with bufs := s'.bufs }
  length : s'.bufs.length = s.bufs.length

/-- Changing a buffer changes buffers only. -/
theorem OnlyBufs.modBuf (s : FriendSys) (b : ℕ) (g : Buf → Buf) : OnlyBufs s (s.modBuf b g) :=
  ⟨rfl, List.length_modify _ _ _⟩

/-- Two steps that change buffers only. -/
theorem OnlyBufs.trans {s'' : FriendSys} (h : OnlyBufs s s') (h' : OnlyBufs s' s'') :
    OnlyBufs s s'' :=
  ⟨h'.eq.trans (by rw [h.eq]), h'.length.trans h.length⟩

/-- Changing a list of buffers changes buffers only. -/
theorem OnlyBufs.foldl (g : Buf → Buf) (bs : List ℕ) (s : FriendSys) :
    OnlyBufs s (bs.foldl (fun s b => s.modBuf b g) s) := by
  induction bs generalizing s with
  | nil => exact ⟨rfl, rfl⟩
  | cons b bs ih => exact (OnlyBufs.modBuf s b g).trans (ih _)

/-- The friendships stay when only buffers change. -/
theorem OnlyBufs.frnd (h : OnlyBufs s s') : s'.frnd = s.frnd := by rw [h.eq]

/-- The buffers at the advertiser stay when only buffers change. -/
theorem OnlyBufs.atAdv (h : OnlyBufs s s') : atAdv s' = atAdv s := by rw [h.eq]; rfl

/-- Giving references back changes buffers only. -/
theorem OnlyBufs.unrefAll (s : FriendSys) (bs : List ℕ) : OnlyBufs s (s.unrefAll bs) :=
  OnlyBufs.foldl _ bs s

/-- An element in front adds its own count. -/
theorem count_cons_add (b : ℕ) (bs : List ℕ) (c : ℕ) :
    (b :: bs).count c = [b].count c + bs.count c := by
  rw [← List.count_append]
  rfl

/-- `net_buf_unref` takes one reference of one buffer. -/
theorem ref_unref : ((s.unref b).buf c).ref = (s.buf c).ref - [b].count c := by
  unfold FriendSys.unref
  rw [buf_modBuf]
  by_cases hc : c = b
  · subst hc
    by_cases hb : c < s.bufs.length
    · simp [hb]
    · have hzero : (s.buf c).ref = 0 := by
        by_contra h
        exact hb (lt_of_ref h)
      simp [hb, hzero]
  · rw [if_neg (fun h => hc h.1), List.count_singleton, if_neg (by simpa using Ne.symm hc)]
    rfl

/-- Giving back a list takes from each buffer as many references as it occurs there. -/
theorem ref_unrefAll (bs : List ℕ) :
    ((s.unrefAll bs).buf c).ref = (s.buf c).ref - bs.count c := by
  induction bs generalizing s with
  | nil => rfl
  | cons b bs ih =>
    have h := ih (s := s.unref b)
    rw [ref_unref] at h
    rw [count_cons_add b bs, ← Nat.sub_sub, ← h]
    rfl

/-- A change that leaves `ref` alone leaves it alone over a whole list. -/
theorem ref_foldl_modBuf (g : Buf → Buf) (hg : ∀ x, (g x).ref = x.ref) (bs : List ℕ) :
    ((bs.foldl (fun s b => s.modBuf b g) s).buf c).ref = (s.buf c).ref := by
  induction bs generalizing s with
  | nil => rfl
  | cons b bs ih =>
    rw [List.foldl_cons, ih, buf_modBuf]
    split
    · exact hg _
    · rfl

end Buffers

/-! ## Moving buffers -/

section Moves

variable {hand hand' : List ℕ} {s s' : FriendSys} {i b : ℕ} {f : Frnd} {g : Frnd → Frnd}

/-- References are given back and buffers move, none of them into a queue from elsewhere. -/
theorem Accounted.drop (h : Accounted hand s) (bs : List ℕ)
    (hqueued : ∀ b, timesQueued s' b + hand'.count b ≤ timesQueued s b + hand.count b)
    (hheld : ∀ b, timesHeld s' b + hand'.count b + bs.count b = timesHeld s b + hand.count b)
    (hrefs : ∀ b, (s'.buf b).ref = (s.buf b).ref - bs.count b)
    (hsizes : ∀ f ∈ s'.frnd, f.queueSize = f.queue.length) : Accounted hand' s' where
  refs b := by
    have h1 := h.refs b
    have h2 := hheld b
    rw [hrefs]
    omega
  once b hb := by
    have h1 := h.once b (hb.trans_le (hqueued b))
    have h2 := hheld b
    unfold timesHeld at h1 h2 ⊢
    omega
  sizes := hsizes

/-- The accounts hold on if buffers change but not their references. -/
theorem Accounted.onlyBufs (h : Accounted hand s) (hs : OnlyBufs s s')
    (hrefs : ∀ b, (s'.buf b).ref = (s.buf b).ref) : Accounted hand s' := by
  have hqueued : ∀ b, timesQueued s' b = timesQueued s b := fun b => by
    unfold timesQueued
    rw [hs.frnd]
  refine h.drop [] (fun b => (congrArg (· + _) (hqueued b)).le) (fun b => ?_) hrefs ?_
  · unfold timesHeld
    rw [hqueued, hs.frnd, hs.atAdv]
    rfl
  · rw [hs.frnd]
    exact h.sizes

/-- A call gives back a buffer that it has in hand. -/
theorem Accounted.unref (h : Accounted (b :: hand) s) : Accounted hand (s.unref b) := by
  have hs : OnlyBufs s (s.unref b) := OnlyBufs.modBuf s b _
  refine h.drop [b] (fun c => ?_) (fun c => ?_) (fun c => ref_unref) ?_
  · unfold timesQueued
    rw [hs.frnd, count_cons_add b hand]
    omega
  · unfold timesHeld timesQueued
    rw [hs.frnd, hs.atAdv, count_cons_add b hand]
    omega
  · rw [hs.frnd]
    exact h.sizes

/-- The friendship that `modFrnd` changes. -/
theorem frnd_modFrnd : (s.modFrnd i g).frnd[i]? = s.frnd[i]?.map g := by
  simp [FriendSys.modFrnd]

/-- A change that keeps `queueSize` right keeps it right everywhere. -/
theorem sizes_modFrnd (h : ∀ f ∈ s.frnd, f.queueSize = f.queue.length)
    (hg : ∀ f, s.frnd[i]? = some f → f.queueSize = f.queue.length →
      (g f).queueSize = (g f).queue.length) :
    ∀ f ∈ (s.modFrnd i g).frnd, f.queueSize = f.queue.length := by
  intro f hf
  obtain ⟨j, hj⟩ := List.mem_iff_getElem?.1 hf
  rw [FriendSys.modFrnd, List.getElem?_modify] at hj
  split at hj
  · next hij =>
      subst hij
      obtain ⟨f', hf', rfl⟩ := Option.map_eq_some_iff.1 hj
      exact hg f' hf' (h f' (List.mem_of_getElem? hf'))
  · exact h f (List.mem_of_getElem? (by simpa using hj))

/-- One friendship gives references back, or moves buffers from or to the hand. -/
theorem Accounted.release (h : Accounted hand s) (hf : s.frnd[i]? = some f) (bs : List ℕ)
    (hqueued : ∀ b, (g f).queue.count b + (g f).seg.flatten.count b + hand'.count b ≤
      f.queue.count b + f.seg.flatten.count b + hand.count b)
    (hheld : ∀ b, (g f).queue.count b + (g f).seg.flatten.count b + (g f).last.toList.count b +
      hand'.count b + bs.count b =
        f.queue.count b + f.seg.flatten.count b + f.last.toList.count b + hand.count b)
    (hsize : f.queueSize = f.queue.length → (g f).queueSize = (g f).queue.length) :
    Accounted hand' ((s.modFrnd i g).unrefAll bs) := by
  have hs : OnlyBufs (s.modFrnd i g) ((s.modFrnd i g).unrefAll bs) := OnlyBufs.unrefAll _ bs
  have hqueues := fun b => count_flatMap_modify (fun f : Frnd => f.queue) g b hf
  have hsegs := fun b => count_flatMap_modify (fun f : Frnd => f.seg.flatten) g b hf
  have hlasts := fun b => count_flatMap_modify (fun f : Frnd => f.last.toList) g b hf
  refine h.drop bs (fun b => ?_) (fun b => ?_) (fun b => ref_unrefAll bs) ?_
  · have h1 := hqueues b
    have h2 := hsegs b
    have h3 := hqueued b
    unfold timesQueued inQueues inSegs
    rw [hs.frnd]
    unfold FriendSys.modFrnd
    dsimp only
    omega
  · have h1 := hqueues b
    have h2 := hsegs b
    have h3 := hlasts b
    have h4 := hheld b
    unfold timesHeld timesQueued inQueues inSegs inLasts
    rw [hs.frnd, hs.atAdv]
    unfold FriendSys.modFrnd atAdv
    dsimp only
    omega
  · rw [hs.frnd]
    refine sizes_modFrnd h.sizes fun f' hf' => ?_
    obtain rfl : f = f' := Option.some.inj (hf.symm.trans hf')
    exact hsize

/-- The flags of a friendship, and what else has no part in the accounts. -/
theorem Accounted.flags (h : Accounted hand s) (hqueue : ∀ f, (g f).queue = f.queue)
    (hseg : ∀ f, (g f).seg = f.seg) (hlast : ∀ f, (g f).last = f.last)
    (hsize : ∀ f, (g f).queueSize = f.queueSize) : Accounted hand (s.modFrnd i g) := by
  cases hf : s.frnd[i]? with
  | none =>
    have hsame : s.modFrnd i g = s := by
      unfold FriendSys.modFrnd
      rw [List.modify_eq_self (by simpa using hf)]
    rw [hsame]
    exact h
  | some f =>
    refine h.release hf [] (fun b => ?_) (fun b => ?_) fun hold => ?_
    · rw [hqueue, hseg]
    · rw [hqueue, hseg, hlast]
      rfl
    · rw [hsize, hqueue]
      exact hold

/-- The number of friendships stays. -/
theorem length_modFrnd : (s.modFrnd i g).frnd.length = s.frnd.length := by
  simp [FriendSys.modFrnd]

/-- An index within bounds has a friendship. -/
theorem frnd_of_lt (h : i < s.frnd.length) : ∃ f, s.frnd[i]? = some f := ⟨_, List.getElem?_eq_getElem h⟩

/-- A buffer in hand goes to the Friend Queue. -/
theorem Accounted.enqueueBuf (h : Accounted (b :: hand) s) (hi : i < s.frnd.length) :
    Accounted hand (enqueueBuf i b s) := by
  obtain ⟨f, hf⟩ := frnd_of_lt hi
  refine h.release hf [] (fun c => ?_) (fun c => ?_) fun hold => ?_
  · simp only [List.count_append, count_cons_add b hand]
    omega
  · simp only [List.count_append, count_cons_add b hand, List.count_nil]
    omega
  · simp [hold]

end Moves

/-! ## Allocation -/

section Alloc

variable {hand : List ℕ} {s s' s'' : FriendSys} {i b : ℕ} {encoded : Bool}

/-- A friendship but for its Friend Queue. -/
def unqueued (f : Frnd) : Frnd := { f with queue := [], queueSize := 0 }

/-- What an allocation leaves as it is: all but the Friend Queues and the buffers. -/
structure AllocFrame (s s' : FriendSys) : Prop where
  frnd : s'.frnd.map unqueued = s.frnd.map unqueued
  atAdv : atAdv s' = atAdv s
  length : s'.bufs.length = s.bufs.length
  awake : (s.suspended = true → s.glp = true) → s'.suspended = true → s'.glp = true

/-- Two steps that leave all but the Friend Queues and the buffers. -/
theorem AllocFrame.trans (h : AllocFrame s s') (h' : AllocFrame s' s'') : AllocFrame s s'' :=
  ⟨h'.frnd.trans h.frnd, h'.atAdv.trans h.atAdv, h'.length.trans h.length,
    fun hs => h'.awake (h.awake hs)⟩

/-- A change of buffers alone leaves the rest. -/
theorem OnlyBufs.frame (h : OnlyBufs s s') : AllocFrame s s' := by
  refine ⟨by rw [h.frnd], h.atAdv, h.length, fun hs => ?_⟩
  rw [h.eq]
  exact hs

/-- A change of the queue of a friendship leaves the rest. -/
theorem frame_modFrnd {g : Frnd → Frnd} (hg : ∀ f, unqueued (g f) = unqueued f) :
    AllocFrame s (s.modFrnd i g) := by
  refine ⟨List.ext_getElem? fun j => ?_, rfl, rfl, id⟩
  by_cases hij : i = j
  · subst hij
    cases hf : s.frnd[i]? <;> simp [FriendSys.modFrnd, hf, hg]
  · simp [FriendSys.modFrnd, hij]

/-- An allocation leaves the buffers parked that were. -/
theorem AllocFrame.parked (h : AllocFrame s s') : parked s' s'.frnd = parked s s.frnd := by
  have hsegs : ∀ fs : List Frnd, inSegs fs = inSegs (fs.map unqueued) := fun fs => by
    simp [inSegs, List.flatMap_map, unqueued]
  have hlasts : ∀ fs : List Frnd, inLasts fs = inLasts (fs.map unqueued) := fun fs => by
    simp [inLasts, List.flatMap_map, unqueued]
  unfold Analysis.parked
  rw [hsegs, hlasts, h.frnd, h.atAdv, ← hsegs, ← hlasts]

/-- An allocation leaves the number of friendships. -/
theorem AllocFrame.count (h : AllocFrame s s') : s'.frnd.length = s.frnd.length := by
  simpa using congrArg List.length h.frnd

/-- After an allocation a friendship differs in its queue only. -/
theorem AllocFrame.friendship (h : AllocFrame s s') {f : Frnd} (hf : s.frnd[i]? = some f) :
    ∃ f', s'.frnd[i]? = some f' ∧ unqueued f' = unqueued f := by
  have hi := congrArg (·[i]?) h.frnd
  simp only [List.getElem?_map, hf, Option.map_some] at hi
  exact Option.map_eq_some_iff.1 hi

/-- A buffer can be allocated while a call has `hand` in hand. -/
structure AllocRoom (hand : List ℕ) (s : FriendSys) : Prop where
  awake : s.suspended = true → s.glp = true
  room : ∃ b < s.bufs.length, b ∉ parked s s.frnd ∧ b ∉ hand

/-- Room for one more than those in hand is room for the next one. -/
theorem CanAlloc.room (h : CanAlloc s s.frnd (hand.length + 1)) : AllocRoom hand s := by
  refine ⟨h.1, ?_⟩
  have hcard : hand.toFinset.card < (Finset.range s.bufs.length \ (parked s s.frnd).toFinset).card :=
    Nat.lt_of_le_of_lt (List.toFinset_card_le hand) h.2
  obtain ⟨b, hb, hnot⟩ := Finset.exists_mem_notMem_of_card_lt_card hcard
  simp only [Finset.mem_sdiff, Finset.mem_range, List.mem_toFinset] at hb hnot
  exact ⟨b, hb.1, hb.2, hnot⟩

/-- What could be allocated before an allocation's changes can be allocated after them. -/
theorem AllocFrame.canAlloc {k : ℕ} (h : AllocFrame s s') (hc : CanAlloc s s.frnd k) :
    CanAlloc s' s'.frnd k := by
  refine ⟨h.awake hc.1, ?_⟩
  rw [h.length, h.parked]
  exact hc.2

/-- The friendship that `discard_buffer` takes has the longest queue. -/
theorem mostQueued_max {all : List Frnd} {best size k : ℕ} {fs : List Frnd} {f : Frnd}
    (hdrop : all.drop k = fs) (hbest : all[best]? = some f) (hsize : f.queueSize = size)
    (hmax : ∀ x ∈ all.take k, x.queueSize ≤ size) :
    ∃ f', all[mostQueued best size k fs]? = some f' ∧ ∀ x ∈ all, x.queueSize ≤ f'.queueSize := by
  induction fs generalizing best size k f with
  | nil =>
    refine ⟨f, hbest, fun x hx => ?_⟩
    rw [← List.take_append_drop k all, hdrop, List.append_nil] at hx
    exact (hmax x hx).trans hsize.ge
  | cons y fs ih =>
    have hy : all[k]? = some y := by
      rw [← Nat.add_zero k, ← List.getElem?_drop, hdrop]
      rfl
    have hnext : all.drop (k + 1) = fs := by
      rw [← List.drop_drop, hdrop]
      rfl
    have htake : ∀ x ∈ all.take (k + 1), x ∈ all.take k ∨ x = y := by
      intro x hx
      rw [List.take_add_one, hy] at hx
      simpa using hx
    unfold mostQueued
    split
    · next hlt =>
        refine ih hnext hy rfl fun x hx => ?_
        obtain hx | rfl := htake x hx
        · exact (hmax x hx).trans hlt.le
        · exact le_rfl
    · next hle =>
        refine ih hnext hbest hsize fun x hx => ?_
        obtain hx | rfl := htake x hx
        · exact hmax x hx
        · exact not_lt.1 hle

/-- Nothing was written to a buffer but its references. -/
def SameData (s s' : FriendSys) : Prop :=
  ∀ c, (s'.buf c).addr = (s.buf c).addr ∧ (s'.buf c).seqAuth = (s.buf c).seqAuth

/-- Giving a reference back leaves the rest of the buffer. -/
theorem sameData_unref : SameData s (s.unref b) := by
  intro c
  unfold FriendSys.unref
  rw [buf_modBuf]
  split <;> exact ⟨rfl, rfl⟩

/-- If a Friend Queue has a buffer, `discard_buffer` frees one. -/
theorem discardBuffer_spec (h : Accounted hand s) (hb : b ∈ inQueues s.frnd) :
    ∃ c s', discardBuffer s = some s' ∧ c < s'.bufs.length ∧ (s'.buf c).ref = 0 ∧
      Accounted hand s' ∧ AllocFrame s s' ∧ SameData s s' := by
  obtain ⟨f₀, hf₀, hb₀⟩ := List.mem_flatMap.1 hb
  unfold discardBuffer
  cases hfrnd : s.frnd with
  | nil => simp [hfrnd] at hf₀
  | cons x fs =>
    have hlongest : ∃ f, (x :: fs)[mostQueued 0 x.queueSize 1 fs]? = some f ∧
        ∀ y ∈ x :: fs, y.queueSize ≤ f.queueSize := mostQueued_max rfl rfl rfl (by simp)
    obtain ⟨f, hf, hmax⟩ := hlongest
    dsimp only
    generalize mostQueued 0 x.queueSize 1 fs = i at hf ⊢
    rw [← hfrnd] at hf hmax ⊢
    have hget : s.frnd.getD i x = f := by
      rw [List.getD_eq_getElem?_getD, hf]
      rfl
    rw [hget]
    cases hq : f.queue with
    | nil =>
      have hsize : f₀.queueSize ≤ f.queueSize := hmax f₀ hf₀
      rw [h.sizes f₀ hf₀, h.sizes f (List.mem_of_getElem? hf), hq] at hsize
      simp [List.eq_nil_of_length_eq_zero (Nat.le_zero.1 hsize)] at hb₀
    | cons c rest =>
      have hc : c ∈ inQueues s.frnd :=
        List.mem_flatMap.2 ⟨f, List.mem_of_getElem? hf, by simp [hq]⟩
      have hone : (s.buf c).ref = 1 := by
        have hpos : 0 < (inQueues s.frnd).count c := List.count_pos_iff.2 hc
        rw [h.refs]
        exact h.once c (by unfold timesQueued; omega)
      have hlt : c < s.bufs.length := lt_of_ref (by rw [hone]; exact one_ne_zero)
      set t := s.modFrnd i fun f =>
        { f with queue := f.queue.tail, queueSize := f.queueSize - 1 } with ht
      have hframe : AllocFrame s t := frame_modFrnd fun _ => rfl
      refine ⟨c, t.unref c, rfl, ?_, ?_, ?_, hframe.trans (OnlyBufs.modBuf _ _ _).frame,
        sameData_unref⟩
      · exact hlt.trans_eq (OnlyBufs.modBuf t c _).length.symm
      · rw [ref_unref]
        change (s.buf c).ref - [c].count c = 0
        simp [hone]
      · refine h.release hf [c] (fun d => ?_) (fun d => ?_) fun hold => ?_
        · simp only [hq, List.tail_cons, List.count_cons]
          omega
        · simp only [hq, List.tail_cons, List.count_cons, List.count_nil]
          omega
        · simp [hold, hq]

/-- `b` has been allocated. -/
structure Allocated (hand : List ℕ) (src : ℕ) (s s' : FriendSys) (b : ℕ) : Prop where
  accounted : Accounted (b :: hand) s'
  frame : AllocFrame s s'
  addr : (s'.buf b).addr = src
  seqAuth : (s'.buf b).seqAuth = transSeqAuthNval
  others : ∀ c, c ≠ b → (s'.buf c).addr = (s.buf c).addr ∧ (s'.buf c).seqAuth = (s.buf c).seqAuth

/-- A free buffer is taken from the pool. -/
theorem advCreate_spec (src : ℕ) (h : Accounted hand s) (hawake : s.suspended = true → s.glp = true)
    (hfree : ∃ c < s.bufs.length, (s.buf c).ref = 0) (n : ℕ) :
    ∃ b s', friendBufAllocLoop src (n + 1) s = some (b, s') ∧ Allocated hand src s s' b := by
  obtain ⟨c, hc, hc0⟩ := hfree
  have hsome : (s.bufs.findIdx? fun x => x.ref = 0).isSome = true := by
    rw [List.findIdx?_isSome, List.any_eq_true]
    refine ⟨s.bufs[c], List.getElem_mem hc, ?_⟩
    simpa [FriendSys.buf, List.getD_eq_getElem?_getD, hc] using hc0
  obtain ⟨b, hb⟩ := Option.isSome_iff_exists.1 hsome
  obtain ⟨hlt, hb0, -⟩ := List.findIdx?_eq_some_iff_getElem.1 hb
  have hfree : (s.buf b).ref = 0 := by
    simpa [FriendSys.buf, List.getD_eq_getElem?_getD, hlt] using hb0
  have hcreate : advCreateFromPool s = some (b, { s with suspended := false }) := by
    unfold advCreateFromPool
    rw [if_neg (fun hs => hs.2 (hawake hs.1)), hb]
  refine ⟨b, _, by rw [friendBufAllocLoop, hcreate], ?_⟩
  set t : FriendSys := { s with suspended := false } with ht
  have hbufs : OnlyBufs t (t.modBuf b fun _ => ⟨1, src, transSeqAuthNval, false, 0⟩) :=
    OnlyBufs.modBuf _ _ _
  have hself : (t.modBuf b fun _ => ⟨1, src, transSeqAuthNval, false, 0⟩).buf b =
      ⟨1, src, transSeqAuthNval, false, 0⟩ := by
    rw [buf_modBuf, if_pos ⟨rfl, hlt⟩]
  have hother : ∀ d, d ≠ b →
      (t.modBuf b fun _ => ⟨1, src, transSeqAuthNval, false, 0⟩).buf d = s.buf d := fun d hd => by
    rw [buf_modBuf, if_neg (fun h => hd h.1)]
    rfl
  have hnone : timesHeld s b + hand.count b = 0 := by rw [← h.refs, hfree]
  refine ⟨⟨fun d => ?_, fun d hd => ?_, by rw [hbufs.frnd]; exact h.sizes⟩, ?_, by rw [hself],
    by rw [hself], fun d hd => by rw [hother d hd]; exact ⟨rfl, rfl⟩⟩
  · have heq : timesHeld (t.modBuf b fun _ => ⟨1, src, transSeqAuthNval, false, 0⟩) d =
        timesHeld s d := rfl
    rw [heq]
    by_cases hd : d = b
    · subst hd
      rw [hself, List.count_cons_self]
      change 1 = _
      omega
    · rw [hother d hd, h.refs, List.count_cons_of_ne (Ne.symm hd)]
  · have heq : timesHeld (t.modBuf b fun _ => ⟨1, src, transSeqAuthNval, false, 0⟩) d =
        timesHeld s d := rfl
    rw [heq]
    by_cases hd' : d = b
    · subst hd'
      rw [List.count_cons_self]
      omega
    · rw [List.count_cons_of_ne (Ne.symm hd')] at hd ⊢
      exact h.once d hd
  · exact ⟨rfl, rfl, hbufs.length, fun _ hs => by cases hs⟩

/-- **Allocation.** `friend_buf_alloc` returns a buffer. -/
theorem friendBufAlloc_spec (src : ℕ) (h : Accounted hand s) (hr : AllocRoom hand s) :
    ∃ b s', friendBufAlloc src s = some (b, s') ∧ Allocated hand src s s' b := by
  by_cases hfree : ∃ c < s.bufs.length, (s.buf c).ref = 0
  · exact advCreate_spec src h hr.awake hfree _
  · -- no buffer is free: one that is not parked is in a Friend Queue
    obtain ⟨b, hb, hparked, hhand⟩ := hr.room
    have href : 0 < (s.buf b).ref := Nat.pos_of_ne_zero fun h0 => hfree ⟨b, hb, h0⟩
    have hqueue : b ∈ inQueues s.frnd := by
      simp only [parked, List.mem_append, not_or] at hparked
      rw [h.refs, timesHeld, timesQueued, List.count_eq_zero.2 hhand,
        List.count_eq_zero.2 hparked.1.1, List.count_eq_zero.2 hparked.1.2,
        List.count_eq_zero.2 hparked.2] at href
      exact List.count_pos_iff.1 href
    obtain ⟨c, t, ht, hc, hc0, hacc, hframe, hdata⟩ := discardBuffer_spec h hqueue
    have hnone : advCreateFromPool s = none := by
      unfold advCreateFromPool
      rw [if_neg (fun hs => hs.2 (hr.awake hs.1))]
      have hno : (s.bufs.findIdx? fun x => x.ref = 0) = none := by
        rw [List.findIdx?_eq_none_iff]
        intro x hx
        obtain ⟨k, hk, rfl⟩ := List.mem_iff_getElem.1 hx
        have h0 : (s.buf k).ref ≠ 0 := fun h0 => hfree ⟨k, hk, h0⟩
        simpa [FriendSys.buf, List.getD_eq_getElem?_getD, hk] using h0
      rw [hno]
    -- and the loop goes round at least once more
    have hfuel : ∃ n, (s.frnd.map fun f => f.queue.length).sum = n + 1 := by
      obtain ⟨f, hf, hbf⟩ := List.mem_flatMap.1 hqueue
      have hle : f.queue.length ≤ (s.frnd.map fun f => f.queue.length).sum :=
        List.le_sum_of_mem (List.mem_map_of_mem hf)
      have hpos : 0 < f.queue.length := List.length_pos_of_mem hbf
      exact ⟨_, (Nat.succ_pred_eq_of_pos (hpos.trans_le hle)).symm⟩
    obtain ⟨n, hn⟩ := hfuel
    obtain ⟨b', t', hloop, hall⟩ := advCreate_spec src hacc (hframe.awake hr.awake)
      ⟨c, hc, hc0⟩ n
    refine ⟨b', t', ?_, hall.accounted, hframe.trans hall.frame, hall.addr, hall.seqAuth,
      fun d hd => ?_⟩
    · unfold friendBufAlloc
      rw [hn, friendBufAllocLoop, hnone]
      simp only [ht]
      exact hloop
    · rw [(hall.others d hd).1, (hall.others d hd).2]
      exact hdata d

end Alloc

/-! ## The routines -/

section Routines

variable {hand : List ℕ} {s s' : FriendSys} {i j b src : ℕ} {encoded : Bool}

/-- A PDU is created, or its buffer goes back. -/
theorem createFriendPdu_spec (src : ℕ) (encoded : Bool) (h : Accounted hand s) (hr : AllocRoom hand s) :
    ∃ r s', createFriendPdu src encoded s = some (r, s') ∧
      ((encoded = true ∧ ∃ b, r = some b ∧ Allocated hand src s s' b) ∨
        (encoded = false ∧ r = none ∧ Accounted hand s' ∧ AllocFrame s s')) := by
  obtain ⟨b, t, halloc, hb⟩ := friendBufAlloc_spec src h hr
  unfold createFriendPdu
  rw [halloc]
  cases encoded with
  | true => exact ⟨some b, t, rfl, .inl ⟨rfl, b, rfl, hb⟩⟩
  | false =>
    exact ⟨none, t.unref b, rfl, .inr ⟨rfl, rfl, hb.accounted.unref,
      hb.frame.trans (OnlyBufs.modBuf t b _).frame⟩⟩

/-- A Friend Update goes to the Friend Queue, unless it cannot be encoded. -/
theorem enqueueUpdate_spec (encoded : Bool) (h : Accounted hand s) (hr : AllocRoom hand s)
    (hi : i < s.frnd.length) :
    ∃ s', enqueueUpdate i encoded s = some s' ∧ Accounted hand s' ∧
      s'.frnd.length = s.frnd.length := by
  unfold enqueueUpdate
  obtain ⟨r, t, hcreate, hcase⟩ := createFriendPdu_spec s.primaryAddr encoded h hr
  rw [hcreate]
  obtain ⟨-, b, rfl, hb⟩ | ⟨-, rfl, hacc, hframe⟩ := hcase
  · have hflag : Accounted (b :: hand) (t.modFrnd i fun f => { f with secUpdate := false }) :=
      hb.accounted.flags (fun _ => rfl) (fun _ => rfl) (fun _ => rfl) fun _ => rfl
    refine ⟨_, rfl, hflag.enqueueBuf ?_, ?_⟩
    · rw [length_modFrnd, hb.frame.count]
      exact hi
    · unfold enqueueBuf
      rw [length_modFrnd, length_modFrnd, hb.frame.count]
  · exact ⟨t, rfl, hacc, hframe.count⟩

/-- But for the field `last`, `dropLast` changes buffers only. -/
theorem dropLast_onlyBufs :
    OnlyBufs (s.modFrnd i fun f => { f with last := none }) (dropLast i s) := by
  unfold dropLast
  split
  · next hnone =>
      have hsame : s.modFrnd i (fun f => { f with last := none }) = s := by
        unfold FriendSys.modFrnd
        rw [List.modify_eq_self (by simpa using hnone)]
      rw [hsame]
      exact ⟨rfl, rfl⟩
  · exact OnlyBufs.unrefAll _ _

/-- The accounts hold on when a last PDU is dropped. -/
theorem Accounted.dropLast (h : Accounted hand s) : Accounted hand (dropLast i s) := by
  unfold Model.FriendQueue.dropLast
  split
  · exact h
  · next f hf =>
      refine h.release hf _ (fun c => le_rfl) (fun c => ?_) id
      simp only [Option.toList_none, List.count_nil]
      omega

/-- A PDU goes to the last slot, unless it cannot be encoded. -/
theorem enqueueLast_spec (encoded : Bool) (h : Accounted [] s) (hr : AllocRoom [] s)
    (hi : i < s.frnd.length) :
    ∃ s', enqueueLast i encoded s = some s' ∧ Accounted [] s' := by
  unfold enqueueLast
  obtain ⟨r, t, hcreate, hcase⟩ := createFriendPdu_spec s.primaryAddr encoded h hr
  rw [hcreate]
  obtain ⟨-, b, rfl, hb⟩ | ⟨-, rfl, hacc, -⟩ := hcase
  · refine ⟨_, rfl, ?_⟩
    have hdrop : Accounted [b] (dropLast i t) := hb.accounted.dropLast
    obtain ⟨f, hf⟩ := frnd_of_lt (hb.frame.count ▸ hi)
    have hf' : (dropLast i t).frnd[i]? = some { f with last := none } := by
      rw [dropLast_onlyBufs.frnd, frnd_modFrnd, hf]
      rfl
    refine hdrop.release hf' [] (fun c => ?_) (fun c => ?_) id
    · simp
    · simp only [Option.toList_none, Option.toList_some, List.count_nil]
      omega
  · exact ⟨t, rfl, hacc⟩

/-- `friend_clear` changes the friendship to its cleared state. -/
theorem friendClear_onlyBufs : OnlyBufs (s.modFrnd i clearedFrnd) (friendClear i s) := by
  unfold friendClear
  split
  · next hnone =>
      have hsame : s.modFrnd i clearedFrnd = s := by
        unfold FriendSys.modFrnd
        rw [List.modify_eq_self (by simpa using hnone)]
      rw [hsame]
      exact ⟨rfl, rfl⟩
  · next f hf =>
      refine OnlyBufs.trans ?_ (OnlyBufs.unrefAll _ _)
      split
      · have hbusy : OnlyBufs s _ := OnlyBufs.foldl (fun x => { x with busy := false }) f.last.toList s
        refine ⟨?_, hbusy.length⟩
        unfold FriendSys.modFrnd
        rw [hbusy.frnd]
        exact congrArg (fun t : FriendSys => { t with frnd := s.frnd.modify i clearedFrnd }) hbusy.eq
      · exact ⟨rfl, rfl⟩

/-- Emptied segment queues have no buffers. -/
theorem flatten_map_nil (l : List (List ℕ)) : (l.map fun _ => ([] : List ℕ)).flatten = [] := by
  induction l with
  | nil => rfl
  | cons x l ih => exact ih

/-- The accounts hold on when a friendship is cleared. -/
theorem Accounted.friendClear (h : Accounted hand s) : Accounted hand (friendClear i s) := by
  unfold Model.FriendQueue.friendClear
  split
  · exact h
  · next f hf =>
      have hclear : ∀ t : FriendSys, Accounted hand t → t.frnd = s.frnd →
          Accounted hand ((t.modFrnd i clearedFrnd).unrefAll
            (f.last.toList ++ f.queue ++ f.seg.flatten)) := by
        intro t ht hfrnd
        refine ht.release (hfrnd ▸ hf) _ (fun c => ?_) (fun c => ?_) fun _ => rfl
        · simp only [clearedFrnd, flatten_map_nil, List.count_nil]
          omega
        · simp only [clearedFrnd, flatten_map_nil, List.count_append, List.count_nil,
            Option.toList_none]
          omega
      dsimp only
      split
      · have hbusy : OnlyBufs s _ := OnlyBufs.foldl (fun x => { x with busy := false }) f.last.toList s
        have hrefs := fun c => ref_foldl_modBuf (s := s) (c := c) (fun x => { x with busy := false })
          (fun _ => rfl) f.last.toList
        exact hclear _ (h.onlyBufs hbusy hrefs) hbusy.frnd
      · exact hclear s h rfl

/-- A segment queue is emptied. -/
theorem count_flatten_set (l : List (List ℕ)) (j c : ℕ) :
    (l.set j []).flatten.count c + (l.getD j []).count c = l.flatten.count c := by
  induction l generalizing j with
  | nil => simp
  | cons q l ih =>
    cases j with
    | zero => simp [Nat.add_comm]
    | succ j =>
      have := ih j
      simp only [List.set_cons_succ, List.flatten_cons, List.count_append, List.getD_cons_succ]
      omega

/-- A segment queue gets a buffer. -/
theorem count_flatten_modify {l : List (List ℕ)} (hj : j < l.length) (c : ℕ) :
    (l.modify j (· ++ [b])).flatten.count c = l.flatten.count c + [b].count c := by
  induction l generalizing j with
  | nil => simp at hj
  | cons q l ih =>
    cases j with
    | zero =>
      simp only [List.modify_zero_cons, List.flatten_cons, List.count_append]
      omega
    | succ j =>
      have := ih (Nat.lt_of_succ_lt_succ hj)
      simp only [List.modify_succ_cons, List.flatten_cons, List.count_append]
      omega

/-- The bulk merge of a segment queue. -/
theorem Accounted.mergeSeg (h : Accounted hand s) : Accounted hand (mergeSeg i j s) := by
  unfold Model.FriendQueue.mergeSeg
  split
  · exact h
  · next f hf =>
      dsimp only
      have hbufs : OnlyBufs s _ :=
        OnlyBufs.foldl (fun x => { x with seqAuth := transSeqAuthNval }) (f.seg.getD j []) s
      have hrefs := fun c => ref_foldl_modBuf (s := s) (c := c)
        (fun x => { x with seqAuth := transSeqAuthNval }) (fun _ => rfl) (f.seg.getD j [])
      refine (h.onlyBufs hbufs hrefs).release (by rw [hbufs.frnd]; exact hf) [] (fun c => ?_)
        (fun c => ?_) fun hold => ?_
      · have := count_flatten_set f.seg j c
        simp only [List.count_append]
        omega
      · have := count_flatten_set f.seg j c
        simp only [List.count_append, List.count_nil]
        omega
      · rw [hold, List.length_append]

/-- The accounts hold on when one segment queue is emptied. -/
theorem Accounted.clearSeg {seqAuth : ℕ} (h : Accounted hand s) :
    Accounted hand (clearSeg i src seqAuth s j) := by
  unfold Model.FriendQueue.clearSeg
  split
  · exact h
  · next f hf =>
      dsimp only
      split
      · refine h.release hf _ (fun c => ?_) (fun c => ?_) id
        · have := count_flatten_set f.seg j c
          dsimp only
          omega
        · have := count_flatten_set f.seg j c
          dsimp only
          omega
      · exact h

/-- The accounts hold on when the segments of a message that was not completed are dropped. -/
theorem Accounted.clearIncomplete {netIdx dst seqAuth : ℕ} (h : Accounted hand s) :
    Accounted hand (clearIncomplete i netIdx src dst seqAuth s) := by
  unfold Model.FriendQueue.clearIncomplete
  split
  · exact h
  · next f hf =>
      split
      · generalize List.range f.seg.length = js
        clear hf
        induction js generalizing s with
        | nil => exact h
        | cons j js ih =>
          rw [List.foldl_cons]
          exact ih h.clearSeg
      · exact h

/-- An old acknowledgement leaves the Friend Queue. -/
theorem friendPurgeOldAck_spec (seqAuth : ℕ) (h : Accounted hand s) :
    Accounted hand (friendPurgeOldAck i seqAuth src s) ∧
      AllocFrame s (friendPurgeOldAck i seqAuth src s) := by
  unfold friendPurgeOldAck
  split
  · exact ⟨h, rfl, rfl, rfl, id⟩
  · next f hf =>
      split
      · exact ⟨h, rfl, rfl, rfl, id⟩
      · next b hb =>
          have hmem : b ∈ f.queue := List.mem_of_find?_eq_some hb
          have hcount : ∀ c, (f.queue.erase b).count c + [b].count c = f.queue.count c := fun c => by
            rw [(List.perm_cons_erase hmem).count_eq c, count_cons_add b (f.queue.erase b), Nat.add_comm]
          have hframe : AllocFrame s (s.modFrnd i fun f =>
              { f with queue := f.queue.erase b, queueSize := f.queueSize - 1 }) :=
            frame_modFrnd fun _ => rfl
          refine ⟨h.release hf [b] (fun c => ?_) (fun c => ?_) fun hold => ?_,
            hframe.trans (OnlyBufs.modBuf _ b _).frame⟩
          · have := hcount c
            dsimp only
            omega
          · have := hcount c
            dsimp only
            omega
          · rw [hold, List.length_erase_of_mem hmem]

/-- A segment queue gets the buffer in hand. -/
theorem Accounted.putSeg {f : Frnd} (h : Accounted (b :: hand) s) (hf : s.frnd[i]? = some f)
    (hj : j < f.seg.length) :
    Accounted hand (s.modFrnd i fun f => { f with seg := f.seg.modify j (· ++ [b]) }) := by
  refine h.release hf [] (fun c => ?_) (fun c => ?_) id
  · simp only [count_flatten_modify hj, count_cons_add b hand]
    omega
  · simp only [count_flatten_modify hj, count_cons_add b hand, List.count_nil]
    omega

/-- The buffer in hand goes to a segment queue. -/
theorem AllocRoom.putSeg {f : Frnd} (h : AllocRoom [b] s) (hf : s.frnd[i]? = some f)
    (hj : j < f.seg.length) :
    AllocRoom [] (s.modFrnd i fun f => { f with seg := f.seg.modify j (· ++ [b]) }) := by
  obtain ⟨c, hc, hparked, hne⟩ := h.room
  refine ⟨h.awake, c, hc, ?_, by simp⟩
  have hne' : [b].count c = 0 := List.count_eq_zero.2 hne
  have hsegs := count_flatMap_modify (fun f : Frnd => f.seg.flatten)
    (fun f => { f with seg := f.seg.modify j (· ++ [b]) }) c hf
  have hlasts := count_flatMap_modify (fun f : Frnd => f.last.toList)
    (fun f => { f with seg := f.seg.modify j (· ++ [b]) }) c hf
  simp only [count_flatten_modify hj] at hsegs hlasts
  rw [← List.count_eq_zero] at hparked ⊢
  simp only [parked, List.count_append, inSegs, inLasts, FriendSys.modFrnd] at hparked ⊢
  have hadv : (atAdv { s with frnd := s.frnd.modify i fun f =>
      { f with seg := f.seg.modify j (· ++ [b]) } }).count c = (atAdv s).count c := rfl
  omega

/-- The segment queue of a message depends on the buffers in the segment queues only. -/
theorem getSeg_congr {f f' : Frnd} {seqAuth : ℕ} (hseg : f'.seg = f.seg)
    (hdata : ∀ c ∈ f.seg.flatten, (s'.buf c).addr = (s.buf c).addr ∧
      (s'.buf c).seqAuth = (s.buf c).seqAuth) :
    getSeg s' f' src seqAuth = getSeg s f src seqAuth := by
  have hfind : ∀ l : List (List ℕ), (∀ c ∈ l.flatten, (s'.buf c).addr = (s.buf c).addr ∧
      (s'.buf c).seqAuth = (s.buf c).seqAuth) →
      (l.findIdx? fun q => q.head?.any fun b =>
        (s'.buf b).addr == src && (s'.buf b).seqAuth == seqAuth) =
      l.findIdx? fun q => q.head?.any fun b =>
        (s.buf b).addr == src && (s.buf b).seqAuth == seqAuth := by
    intro l hl
    induction l with
    | nil => rfl
    | cons q l ih =>
      have ih := ih fun c hc => hl c (by simp [hc])
      rw [List.findIdx?_cons, List.findIdx?_cons, ih]
      cases q with
      | nil => rfl
      | cons c q =>
        have hc := hl c (by simp)
        simp only [List.head?_cons, Option.any_some, hc.1, hc.2]
        rfl
  unfold getSeg
  rw [hseg, hfind f.seg hdata]

/-- `get_seg` finds a queue of the friendship. -/
theorem getSeg_lt {f : Frnd} {seqAuth : ℕ} (h : getSeg s f src seqAuth = some j) :
    j < f.seg.length := by
  unfold getSeg at h
  split at h
  · next hfind =>
      cases h
      exact (List.findIdx?_eq_some_iff_getElem.1 hfind).1
  · exact (List.findIdx?_eq_some_iff_getElem.1 h).1

/-- An encoded PDU goes to a queue, after a Friend Update where one is due. -/
theorem enqueueFriendPdu_spec {f : Frnd} {type : PduType} (h : Accounted [b] s)
    (hf : s.frnd[i]? = some f)
    (hroom : f.secUpdate = true → (type = .single ∨ type = .complete ∧
      (getSeg s f (s.buf b).addr (s.buf b).seqAuth).isSome = true) → AllocRoom [b] s) :
    ∃ s', enqueueFriendPdu i type b encoded s = some s' ∧ Accounted [] s' := by
  have hi : i < s.frnd.length := (List.getElem?_eq_some_iff.1 hf).1
  unfold enqueueFriendPdu
  rw [hf]
  cases type with
  | single =>
    dsimp only
    cases hupd : f.secUpdate with
    | true =>
      obtain ⟨t, ht, hacc, hlen⟩ := enqueueUpdate_spec encoded h (hroom hupd (.inl rfl)) hi
      exact ⟨enqueueBuf i b t, by rw [if_pos rfl, ht]; rfl, hacc.enqueueBuf (hlen ▸ hi)⟩
    | false => exact ⟨enqueueBuf i b s, rfl, h.enqueueBuf hi⟩
  | partial_ =>
    dsimp only
    split
    · exact ⟨_, rfl, h.unref⟩
    · next j hj => exact ⟨_, rfl, h.putSeg hf (getSeg_lt hj)⟩
  | complete =>
    dsimp only
    split
    · exact ⟨_, rfl, h.unref⟩
    · next j hj =>
        have hput := h.putSeg hf (getSeg_lt hj)
        rw [if_pos rfl]
        cases hupd : f.secUpdate with
        | true =>
          have hr := (hroom hupd (.inr ⟨rfl, by rw [hj]; rfl⟩)).putSeg hf (getSeg_lt hj)
          obtain ⟨t, ht, hacc, -⟩ := enqueueUpdate_spec encoded hput hr (by rwa [length_modFrnd])
          exact ⟨mergeSeg i j t, by rw [if_pos rfl, ht]; rfl, hacc.mergeSeg⟩
        | false => exact ⟨_, rfl, hput.mergeSeg⟩

/-- `last` goes to the advertiser, which gets a reference of its own. -/
theorem sendLast_spec {f : Frnd} (h : Accounted [] s) (hf : s.frnd[i]? = some f)
    (hlast : f.last = some b) (hadv : b ∉ s.advQueue) :
    ∃ s', sendLast i b s = some s' ∧ Accounted [] s' := by
  unfold sendLast
  rw [if_neg hadv]
  refine ⟨_, rfl, ?_⟩
  set t := s.modFrnd i fun f => { f with pendingReq := false, pendingBuf := true } with ht
  have hflags : Accounted [] t := h.flags (fun _ => rfl) (fun _ => rfl) (fun _ => rfl) fun _ => rfl
  have hmem : b ∈ inLasts t.frnd := by
    refine List.mem_flatMap.2 ⟨{ f with pendingReq := false, pendingBuf := true }, ?_, by simp [hlast]⟩
    exact List.mem_of_getElem? (i := i) (by rw [ht, frnd_modFrnd, hf]; rfl)
  have hpos : 0 < (inLasts t.frnd).count b := List.count_pos_iff.2 hmem
  have hlt : b < t.bufs.length := by
    refine lt_of_ref ?_
    rw [hflags.refs, timesHeld]
    omega
  set u := t.modBuf b fun x => { x with ref := x.ref + 1, busy := true, cbData := i } with hu
  have hrefs : ∀ c, (u.buf c).ref = (t.buf c).ref + [b].count c := by
    intro c
    rw [hu, buf_modBuf]
    by_cases hc : c = b
    · subst hc
      rw [if_pos ⟨rfl, hlt⟩, List.count_singleton_self]
    · rw [if_neg fun h => hc h.1, List.count_singleton, if_neg (by simpa using Ne.symm hc)]
      rfl
  have hheld : ∀ c, timesHeld { u with advQueue := u.advQueue ++ [b] } c =
      timesHeld t c + [b].count c := by
    intro c
    have hcount : (atAdv { u with advQueue := u.advQueue ++ [b] }).count c =
        (atAdv t).count c + [b].count c := by
      simp only [atAdv, List.count_append]
      change t.advQueue.count c + [b].count c + t.advNow.toList.count c = _
      omega
    unfold timesHeld
    rw [hcount, ← Nat.add_assoc]
    rfl
  refine ⟨fun c => ?_, fun c hc => ?_, hflags.sizes⟩
  · change (u.buf c).ref = _
    rw [hrefs, hheld, hflags.refs]
    simp
  · have honce := hflags.once c hc
    rw [hheld]
    by_cases hcb : c = b
    · -- the buffer in the last slot is in no queue
      subst hcb
      have hc : 0 < timesQueued t c + [].count c := hc
      unfold timesHeld at honce
      omega
    · rw [List.count_singleton, if_neg (by simpa using Ne.symm hcb)]
      exact honce

end Routines

/-! ## Steps -/

section Steps

variable {s : FriendSys} {i netIdx addr : ℕ} {encoded : Bool}

/-- What can be allocated stays when only buffers change. -/
theorem CanAlloc.onlyBufs {s' : FriendSys} {fs : List Frnd} {k : ℕ} (h : CanAlloc s fs k)
    (hs : OnlyBufs s s') : CanAlloc s' fs k := by
  have hparked : parked s' fs = parked s fs := by
    unfold parked
    rw [hs.atAdv]
  unfold CanAlloc
  rw [hparked, hs.length, hs.eq]
  exact h

/-- What is parked does not depend on the flags of a friendship. -/
theorem CanAlloc.modify_congr {fs : List Frnd} {g g' : Frnd → Frnd} {k : ℕ}
    (h : CanAlloc s (fs.modify i g) k) (hseg : ∀ f, (g' f).seg = (g f).seg)
    (hlast : ∀ f, (g' f).last = (g f).last) : CanAlloc s (fs.modify i g') k := by
  have hsegs : inSegs (fs.modify i g') = inSegs (fs.modify i g) :=
    flatMap_modify_congr fun f => by rw [hseg]
  have hlasts : inLasts (fs.modify i g') = inLasts (fs.modify i g) :=
    flatMap_modify_congr fun f => by rw [hlast]
  unfold CanAlloc parked
  rw [hsegs, hlasts]
  exact h

/-- It stays when a friendship changes in other fields than `seg` and `last`. -/
theorem CanAlloc.flags {g : Frnd → Frnd} {k : ℕ} (h : CanAlloc s s.frnd k)
    (hseg : ∀ f, (g f).seg = f.seg) (hlast : ∀ f, (g f).last = f.last) :
    CanAlloc (s.modFrnd i g) (s.modFrnd i g).frnd k := by
  have hid : CanAlloc s (s.frnd.modify i id) k := by rwa [List.modify_id]
  exact hid.modify_congr hseg hlast

/-- What can be allocated without the last PDU can be allocated after it is dropped. -/
theorem CanAlloc.dropLast {g : Frnd → Frnd} {k : ℕ}
    (h : CanAlloc s (s.frnd.modify i fun f => { f with last := none }) k)
    (hseg : ∀ f, (g f).seg = f.seg) :
    CanAlloc (dropLast i (s.modFrnd i g)) (dropLast i (s.modFrnd i g)).frnd k := by
  have hdrop : OnlyBufs ((s.modFrnd i g).modFrnd i fun f => { f with last := none })
      (Model.FriendQueue.dropLast i (s.modFrnd i g)) := dropLast_onlyBufs
  rw [hdrop.frnd]
  refine CanAlloc.onlyBufs ?_ hdrop
  change CanAlloc s ((s.frnd.modify i g).modify i fun f => { f with last := none }) k
  rw [List.modify_modify_eq]
  exact h.modify_congr hseg fun _ => rfl

/-- `bt_mesh_friend_find` gives an index within bounds. -/
theorem lt_of_friendFind {established : Bool} (h : friendFind s netIdx addr established = some i) :
    i < s.frnd.length :=
  (List.findIdx?_eq_some_iff_getElem.1 h).1

/-- So does the search for the context of a request. -/
theorem lt_of_friendReqCtx {prevAddr : ℕ} {existing : Bool}
    (h : friendReqCtx s netIdx addr prevAddr = some (i, existing)) : i < s.frnd.length := by
  unfold friendReqCtx at h
  split at h
  · next hfind =>
      cases h
      exact lt_of_friendFind hfind
  · obtain ⟨j, hj, heq⟩ := Option.map_eq_some_iff.1 h
    cases heq
    exact (List.findIdx?_eq_some_iff_getElem.1 hj).1

/-- A Friend Request is handled, and the accounts hold on. -/
theorem friendReq_spec {prevAddr : ℕ} (h : Accounted [] s)
    (hok : BuffersOk s (.friendReq netIdx addr prevAddr encoded)) :
    ∃ s', friendReq netIdx addr prevAddr encoded s = some s' ∧ Accounted [] s' := by
  unfold friendReq
  split
  · exact ⟨s, rfl, h⟩
  · next i existing hctx =>
      have hi := lt_of_friendReqCtx hctx
      -- the context that the offer is for
      have hstart : ∀ t : FriendSys, Accounted [] t → CanAlloc t t.frnd 1 → i < t.frnd.length →
          ∃ s', enqueueLast i encoded (t.modFrnd i fun f =>
            { f with lpn := addr, netIdx := netIdx, timer := true }) = some s' ∧ Accounted [] s' := by
        intro t ht hcan hlt
        exact enqueueLast_spec encoded
          (ht.flags (fun _ => rfl) (fun _ => rfl) (fun _ => rfl) fun _ => rfl)
          (CanAlloc.room (hcan.flags (fun _ => rfl) fun _ => rfl)) (by rwa [length_modFrnd])
      have hcan := hok _ hctx
      cases existing with
      | true =>
        have hclear : OnlyBufs (s.modFrnd i clearedFrnd) (friendClear i s) := friendClear_onlyBufs
        have hcan' : CanAlloc (s.modFrnd i clearedFrnd) (s.modFrnd i clearedFrnd).frnd 1 := hcan
        refine hstart (friendClear i s) h.friendClear ?_ ?_
        · rw [hclear.frnd]
          exact hcan'.onlyBufs hclear
        · rw [hclear.frnd, length_modFrnd]
          exact hi
      | false =>
        refine hstart (s.modFrnd i fun f => { f with valid := true }) ?_ ?_ ?_
        · exact h.flags (fun _ => rfl) (fun _ => rfl) (fun _ => rfl) fun _ => rfl
        · exact CanAlloc.flags hcan (fun _ => rfl) fun _ => rfl
        · rwa [length_modFrnd]

/-- A Friend Poll is handled, and the accounts hold on. -/
theorem friendPoll_spec {fsn : Bool} (h : Accounted [] s)
    (hok : BuffersOk s (.poll netIdx addr fsn encoded)) :
    ∃ s', friendPoll netIdx addr fsn encoded s = some s' ∧ Accounted [] s' := by
  unfold friendPoll
  split
  · exact ⟨s, rfl, h⟩
  · next i hfind =>
      split
      · exact ⟨s, rfl, h⟩
      · next f hf =>
          split
          · exact ⟨s, rfl, h⟩
          · next hpending =>
              dsimp only
              have hpoll : Accounted [] (s.modFrnd i fun f =>
                  { f with pendingReq := true, timer := true, established := true }) :=
                h.flags (fun _ => rfl) (fun _ => rfl) (fun _ => rfl) fun _ => rfl
              split
              · exact ⟨_, rfl, hpoll.flags (fun _ => rfl) (fun _ => rfl) (fun _ => rfl) fun _ => rfl⟩
              · next hresend =>
                  have hdrop := (hpoll.dropLast (i := i)).flags (i := i)
                    (g := fun f => { f with fsn := fsn })
                    (fun _ => rfl) (fun _ => rfl) (fun _ => rfl) fun _ => rfl
                  split
                  · next hempty =>
                      have hcan := hok i hfind f hf (by simpa using hpending) hresend hempty
                      have hlast := hcan.dropLast (i := i) (g := fun f =>
                        { f with pendingReq := true, timer := true, established := true })
                        fun _ => rfl
                      obtain ⟨t, ht, hacc, -⟩ := enqueueUpdate_spec (i := i) encoded hdrop
                        (CanAlloc.room (hlast.flags (fun _ => rfl) fun _ => rfl)) (by
                          rw [length_modFrnd, dropLast_onlyBufs.frnd, length_modFrnd, length_modFrnd]
                          exact lt_of_friendFind hfind)
                      exact ⟨t, ht, hacc⟩
                  · exact ⟨_, rfl, hdrop⟩

/-- A subscription request is handled, and the accounts hold on. -/
theorem friendSub_spec {op : SubOp} {addrList : List ℕ} (h : Accounted [] s)
    (hok : BuffersOk s (.sub netIdx addr op addrList encoded)) :
    ∃ s', friendSub netIdx addr op addrList encoded s = some s' ∧ Accounted [] s' := by
  unfold Model.FriendQueue.friendSub
  split
  · exact ⟨s, rfl, h⟩
  · next i hfind =>
      split
      · exact ⟨s, rfl, h⟩
      · next f hf =>
          split
          · exact ⟨s, rfl, h⟩
          · next hpending =>
              have hcan := hok i hfind f hf (by simpa using hpending)
              refine enqueueLast_spec encoded
                (h.flags (fun _ => rfl) (fun _ => rfl) (fun _ => rfl) fun _ => rfl)
                (CanAlloc.room (hcan.flags (fun _ => rfl) fun _ => rfl)) ?_
              rw [length_modFrnd]
              exact lt_of_friendFind hfind

/-- The purge before a single PDU. -/
theorem purge_spec (h : Accounted [] s) (i src : ℕ) (seqAuth : Option ℕ) :
    Accounted [] (seqAuth.toList.foldl (fun s a => friendPurgeOldAck i a src s) s) ∧
      AllocFrame s (seqAuth.toList.foldl (fun s a => friendPurgeOldAck i a src s) s) := by
  cases seqAuth with
  | none => exact ⟨h, rfl, rfl, rfl, id⟩
  | some a => exact friendPurgeOldAck_spec a h

/-- A new buffer gets the sequence number of its message. -/
theorem Allocated.stamp {s' : FriendSys} {hand : List ℕ} {src b : ℕ} (h : Allocated hand src s s' b)
    (seqAuth : Option ℕ) :
    let u := seqAuth.toList.foldl (fun s a => s.modBuf b fun x => { x with seqAuth := a }) s'
    Accounted (b :: hand) u ∧ AllocFrame s u ∧ (u.buf b).addr = src ∧
      (u.buf b).seqAuth = seqAuth.getD transSeqAuthNval ∧
      ∀ c, c ≠ b → (u.buf c).addr = (s.buf c).addr ∧ (u.buf c).seqAuth = (s.buf c).seqAuth := by
  cases seqAuth with
  | none => exact ⟨h.accounted, h.frame, h.addr, h.seqAuth, h.others⟩
  | some a =>
    have hlt : b < s'.bufs.length := by
      refine lt_of_ref ?_
      rw [h.accounted.refs, List.count_cons_self]
      omega
    set u := s'.modBuf b fun x => { x with seqAuth := a } with hu
    have hbufs : OnlyBufs s' u := OnlyBufs.modBuf _ _ _
    have hself : u.buf b = { s'.buf b with seqAuth := a } := buf_modBuf.trans (if_pos ⟨rfl, hlt⟩)
    have hother : ∀ c, c ≠ b → u.buf c = s'.buf c := fun c hc =>
      buf_modBuf.trans (if_neg fun h => hc h.1)
    have hrefs : ∀ c, (u.buf c).ref = (s'.buf c).ref := fun c => by
      by_cases hc : c = b
      · rw [hc, hself]
      · rw [hother c hc]
    refine ⟨h.accounted.onlyBufs hbufs hrefs, h.frame.trans hbufs.frame, ?_, ?_, fun c hc => ?_⟩
    · change (u.buf b).addr = src
      rw [hself]
      exact h.addr
    · change (u.buf b).seqAuth = a
      rw [hself]
    · change (u.buf c).addr = _ ∧ (u.buf c).seqAuth = _
      rw [hother c hc]
      exact h.others c hc

/-- A PDU for the LPN is handled, and the accounts hold on. -/
theorem friendLpnEnqueue_spec {src dst : ℕ} {type : PduType} {seqAuth : Option ℕ}
    {encodedUpdate : Bool} (h : Accounted [] s)
    (hok : BuffersOk s (.enqueue i netIdx src dst type seqAuth encoded encodedUpdate)) :
    ∃ s', friendLpnEnqueue i netIdx src dst type seqAuth encoded encodedUpdate s = some s' ∧
      Accounted [] s' := by
  unfold friendLpnEnqueue
  split
  · exact ⟨s, rfl, h⟩
  · next f hf =>
      split
      · exact ⟨s, rfl, h⟩
      · next hmatch =>
          obtain ⟨hcan, hcan2⟩ := hok f hf (by simpa using hmatch)
          -- the old acknowledgement goes first
          obtain ⟨p, hp, hacc, hframe, hsame⟩ : ∃ p, (if type = .single then
              seqAuth.toList.foldl (fun s a => friendPurgeOldAck i a src s) s else s) = p ∧
              Accounted [] p ∧ AllocFrame s p ∧ (type ≠ .single → p = s) := by
            split
            · next hsingle =>
                exact ⟨_, rfl, (purge_spec h i src seqAuth).1, (purge_spec h i src seqAuth).2,
                  fun hne => absurd hsingle hne⟩
            · exact ⟨s, rfl, h, ⟨rfl, rfl, rfl, id⟩, fun _ => rfl⟩
          dsimp only
          rw [hp]
          have hroom : AllocRoom [] p := (hframe.canAlloc hcan).room
          obtain ⟨r, t, hcreate, hcase⟩ := createFriendPdu_spec src encoded hacc hroom
          rw [hcreate]
          obtain ⟨henc, b, rfl, hb⟩ | ⟨-, rfl, hacc', -⟩ := hcase
          · dsimp only
            set u := seqAuth.toList.foldl
              (fun s a => s.modBuf b fun x => { x with seqAuth := a }) t with hu
            obtain ⟨hacc', hframe', haddr, hseqAuth, hothers⟩ := hb.stamp seqAuth
            rw [← hu] at hacc' hframe' haddr hseqAuth hothers
            have hframe' : AllocFrame s u := hframe.trans hframe'
            obtain ⟨f', hf', hunq⟩ := hframe'.friendship hf
            refine enqueueFriendPdu_spec hacc' hf' fun hupd hdue => ?_
            have hsec : f.secUpdate = true := (congrArg Frnd.secUpdate hunq).symm.trans hupd
            have hseg : (unqueued f').seg = (unqueued f).seg := congrArg Frnd.seg hunq
            have hget : type ≠ .single → ∀ a, getSeg u f' src a = getSeg s f src a := by
              intro hne a
              refine getSeg_congr hseg fun c hc => ?_
              -- the new buffer is in no segment queue yet
              have hcb : c ≠ b := by
                rintro rfl
                have hmem : c ∈ inSegs u.frnd :=
                  List.mem_flatMap.2 ⟨f', List.mem_of_getElem? hf', hseg ▸ hc⟩
                have hpos : 0 < (inSegs u.frnd).count c := List.count_pos_iff.2 hmem
                have honce := hacc'.once c (by rw [List.count_cons_self]; omega)
                rw [timesHeld, timesQueued, List.count_cons_self] at honce
                omega
              rw [(hothers c hcb).1, (hothers c hcb).2, hsame hne]
              exact ⟨rfl, rfl⟩
            refine (hframe'.canAlloc (hcan2 henc ⟨hsec, hdue.imp_right ?_⟩)).room
            rintro ⟨hcomplete, hsome⟩
            rw [haddr, hseqAuth, hget (by rw [hcomplete]; exact fun h => by cases h)] at hsome
            exact ⟨hcomplete, hsome⟩
          · exact ⟨t, rfl, hacc'⟩

/-- The timer of a friendship is handled, and the accounts hold on. -/
theorem friendTimeout_spec (h : Accounted [] s) (hok : BuffersOk s (.timeout i)) :
    ∃ s', Model.FriendQueue.friendTimeout i s = some s' ∧ Accounted [] s' := by
  unfold Model.FriendQueue.friendTimeout
  split
  · exact ⟨s, rfl, h⟩
  · next f hf =>
      split
      · exact ⟨s, rfl, h⟩
      · next htimer =>
          obtain ⟨hwaits, hslot⟩ := hok f hf (by simpa using htimer)
          dsimp only
          set t := s.modFrnd i fun f => { f with timer := false } with ht
          have hacc : Accounted [] t := h.flags (fun _ => rfl) (fun _ => rfl) (fun _ => rfl) fun _ => rfl
          have hft : t.frnd[i]? = some { f with timer := false } := by
            rw [ht, frnd_modFrnd, hf]
            rfl
          split
          · next b hsend hlast =>
              have hflag : Accounted [] (t.modFrnd i fun f => { f with sendLast := false }) :=
                hacc.flags (fun _ => rfl) (fun _ => rfl) (fun _ => rfl) fun _ => rfl
              have hfs : (t.modFrnd i fun f => { f with sendLast := false }).frnd[i]? =
                  some { f with timer := false, sendLast := false } := by
                rw [frnd_modFrnd, hft]
                rfl
              exact sendLast_spec hflag hfs hlast (hwaits hsend b hlast)
          · next hno =>
              split
              · exact ⟨_, rfl, hacc.friendClear⟩
              · next hlost =>
                  -- the slot is free: nothing is overwritten
                  have hlast : f.last = none := by
                    cases hs : f.sendLast with
                    | true =>
                      cases hl : f.last with
                      | none => rfl
                      | some b => exact absurd hl (hno b hs)
                    | false =>
                      refine (hslot hs).resolve_left fun hp => hlost ⟨hp.1, ?_⟩
                      rw [hp.2]
                      exact Bool.false_ne_true
                  split
                  · refine ⟨_, rfl, Accounted.friendClear (hacc.release hft [] (fun c => le_rfl)
                      (fun c => ?_) id)⟩
                    simp [hlast]
                  · next b queue hq =>
                      have hmove : Accounted [] (t.modFrnd i fun f =>
                          { f with last := some b, queue := queue, queueSize := f.queueSize - 1 }) := by
                        refine hacc.release hft [] (fun c => ?_) (fun c => ?_) fun hold => ?_
                        · simp only [hq, count_cons_add b queue]
                          omega
                        · simp only [hq, hlast, count_cons_add b queue, Option.toList_some,
                            Option.toList_none, List.count_nil]
                          omega
                        · change f.queueSize = f.queue.length at hold
                          change f.queueSize - 1 = queue.length
                          rw [hold, hq]
                          rfl
                      refine sendLast_spec hmove (by rw [frnd_modFrnd, hft]; rfl) rfl ?_
                      -- a buffer of the Friend Queue is not at the advertiser
                      change b ∉ s.advQueue
                      have hmem : b ∈ inQueues s.frnd :=
                        List.mem_flatMap.2 ⟨f, List.mem_of_getElem? hf, by simp [hq]⟩
                      have hpos : 0 < (inQueues s.frnd).count b := List.count_pos_iff.2 hmem
                      have honce := h.once b (by unfold timesQueued; omega)
                      simp only [timesHeld, timesQueued, atAdv, List.count_append,
                        List.count_nil] at honce
                      rw [← List.count_eq_zero]
                      omega

/-- The accounts hold on when the advertiser starts a PDU of a friendship. -/
theorem Accounted.bufSendStart (h : Accounted [] s) : Accounted [] (bufSendStart i s) := by
  unfold Model.FriendQueue.bufSendStart
  split
  · exact h
  · have hflag : Accounted [] (s.modFrnd i fun f => { f with pendingBuf := false }) :=
      h.flags (fun _ => rfl) (fun _ => rfl) (fun _ => rfl) fun _ => rfl
    dsimp only
    split
    · exact hflag
    · exact hflag.dropLast

/-- The accounts hold on when it has stopped. -/
theorem Accounted.bufSendEnd (h : Accounted [] s) : Accounted [] (bufSendEnd i s) := by
  refine h.flags ?_ ?_ ?_ ?_ <;>
    · intro f
      split <;> rfl

/-- The advertiser moves a buffer on, or gives it back. -/
theorem Accounted.adv {s' : FriendSys} (h : Accounted [] s) (bs : List ℕ) (hfrnd : s'.frnd = s.frnd)
    (hadv : ∀ c, (atAdv s').count c + bs.count c = (atAdv s).count c)
    (hrefs : ∀ c, (s'.buf c).ref = (s.buf c).ref - bs.count c) : Accounted [] s' := by
  refine h.drop bs (fun c => ?_) (fun c => ?_) hrefs (by rw [hfrnd]; exact h.sizes)
  · unfold timesQueued
    rw [hfrnd]
  · have := hadv c
    unfold timesHeld timesQueued
    rw [hfrnd]
    omega

/-- The accounts hold on when the advertiser takes the first buffer of its queue. -/
theorem Accounted.advTake (h : Accounted [] s) : Accounted [] (advTake s) := by
  unfold Model.FriendQueue.advTake
  split
  · next b rest hq hnow _ =>
      split
      · refine h.adv [] rfl (fun c => ?_) fun c => ?_
        · simp only [atAdv, hq, hnow, Option.toList_some, Option.toList_none, List.count_append,
            List.count_nil, count_cons_add b rest]
          omega
        · exact ref_foldl_modBuf (fun x => { x with busy := false }) (fun _ => rfl) [b]
      · refine h.adv [b] rfl (fun c => ?_) fun c => ref_unref
        simp only [atAdv, hq, FriendSys.unref, FriendSys.modBuf, List.count_append,
          count_cons_add b rest]
        omega
  · exact h

/-- The accounts hold on when it has started that buffer and gives it back. -/
theorem Accounted.advStart (h : Accounted [] s) : Accounted [] (advStart s) := by
  unfold Model.FriendQueue.advStart
  split
  · exact h
  · next b hnow =>
      refine Accounted.bufSendStart (h.adv [b] rfl (fun c => ?_) fun c => ref_unref)
      simp only [atAdv, hnow, FriendSys.unref, FriendSys.modBuf, List.count_append,
        Option.toList_some, Option.toList_none, List.count_nil]
      omega

/-- The accounts hold on when its end callback runs. -/
theorem Accounted.advStop (h : Accounted [] s) : Accounted [] (advStop s) := by
  unfold Model.FriendQueue.advStop
  split
  · exact h
  · exact Accounted.bufSendEnd ⟨h.refs, h.once, h.sizes⟩

/-- The accounts hold on when friendships change in fields that name no buffers. -/
theorem Accounted.secUpdate (h : Accounted [] s) {g : Frnd → Frnd} (hqueue : ∀ f, (g f).queue = f.queue)
    (hseg : ∀ f, (g f).seg = f.seg) (hlast : ∀ f, (g f).last = f.last)
    (hsize : ∀ f, (g f).queueSize = f.queueSize) : Accounted [] { s with frnd := s.frnd.map g } := by
  have hqueues : inQueues (s.frnd.map g) = inQueues s.frnd := by
    simp only [inQueues, List.flatMap_map, hqueue]
  have hsegs : inSegs (s.frnd.map g) = inSegs s.frnd := by
    simp only [inSegs, List.flatMap_map, hseg]
  have hlasts : inLasts (s.frnd.map g) = inLasts s.frnd := by
    simp only [inLasts, List.flatMap_map, hlast]
  refine h.drop [] (fun c => ?_) (fun c => ?_) (fun c => rfl) fun f hf => ?_
  · unfold timesQueued
    rw [hqueues, hsegs]
  · unfold timesHeld timesQueued
    rw [hqueues, hsegs, hlasts]
    rfl
  · obtain ⟨f, hmem, rfl⟩ := List.mem_map.1 hf
    rw [hsize, hqueue]
    exact h.sizes f hmem

/-- **The step.** A step that meets the condition returns, and the buffers stay accounted for. -/
theorem friendStep_accounted (a : FriendAct) (h : Accounted [] s) (hok : BuffersOk s a) :
    ∃ s', friendStep s a = some s' ∧ Accounted [] s' := by
  cases a with
  | friendReq netIdx addr prevAddr encoded => exact friendReq_spec h hok
  | poll netIdx addr fsn encoded => exact friendPoll_spec h hok
  | sub netIdx addr op addrList encoded => exact friendSub_spec h hok
  | clear i => exact ⟨_, rfl, h.friendClear⟩
  | secUpdate netIdx =>
    refine ⟨_, rfl, h.secUpdate ?_ ?_ ?_ ?_⟩ <;>
      · intro f
        split <;> rfl
  | enqueue i netIdx src dst type seqAuth encoded encodedUpdate => exact friendLpnEnqueue_spec h hok
  | clearIncomplete i netIdx src dst seqAuth => exact ⟨_, rfl, h.clearIncomplete⟩
  | timeout i => exact friendTimeout_spec h hok
  | advTake => exact ⟨_, rfl, h.advTake⟩
  | advStart => exact ⟨_, rfl, h.advStart⟩
  | advStop => exact ⟨_, rfl, h.advStop⟩
  | suspend => exact ⟨_, rfl, h.refs, h.once, h.sizes⟩
  | resume => exact ⟨_, rfl, h.refs, h.once, h.sizes⟩

end Steps

/-! ## Runs -/

/-- At start-up all buffers are in the pool. -/
theorem accounted_friendInit (c : FriendConf) (primaryAddr : ℕ) :
    Accounted [] (friendInit c primaryAddr) := by
  have hempty : ∀ b, timesHeld (friendInit c primaryAddr) b = 0 := by
    intro b
    simp [timesHeld, timesQueued, inQueues, inSegs, inLasts, atAdv, friendInit, Frnd.zero,
      List.count_eq_zero]
  refine ⟨fun b => ?_, fun b hb => ?_, fun f hf => ?_⟩
  · rw [hempty]
    by_contra h
    have hlt := lt_of_ref (s := friendInit c primaryAddr) (b := b) (by simpa using h)
    apply h
    simp only [friendInit, List.length_replicate] at hlt
    simp [FriendSys.buf, friendInit, List.getD_eq_getElem?_getD, hlt, Buf.free]
  · have := hempty b
    unfold timesHeld at this
    simp only [List.count_nil] at hb
    omega
  · rw [List.eq_of_mem_replicate hf]
    rfl

/-- **Friend Queue accounting.** In every run all of whose steps leave a buffer for each allocation
and overwrite no last slot, `friend_buf_alloc` always returns a buffer, the sizes are those of the
queues, no buffer is in two queues, and none is lost. -/
theorem buffers_accounted (c : FriendConf) (primaryAddr : ℕ) (acts : List FriendAct)
    (hok : StepsMeet friendStep BuffersOk (friendInit c primaryAddr) acts) :
    ∃ s, runSteps friendStep (friendInit c primaryAddr) acts = some s ∧ Accounts s := by
  obtain ⟨s, hrun, hs⟩ := runSteps_total (fun _ a h hok => friendStep_accounted a h hok)
    (accounted_friendInit c primaryAddr) hok
  exact ⟨s, hrun, hs.accounts⟩

/-- One LPN, a queue of two, one segment context: a pool of three buffers. -/
def smallFriend : FriendConf where
  queueSize := 2
  lpnCount := 1
  segRx := 1
  subListSize := 1
  glp := false

/-- The LPN `5` asks for a friendship, gets an offer and polls, and its Friend Update is sent. -/
def friendshipActs : List FriendAct :=
  [.friendReq 0 5 0 true, .timeout 0, .advTake, .advStart, .advStop, .poll 0 5 false true, .timeout 0,
    .advTake, .advStart, .advStop]

/-- A newer acknowledgement replaces an old one, and a message of two segments then takes the last
buffer of the pool and the one of the acknowledgement. -/
def busyActs : List FriendAct :=
  friendshipActs ++
    [.enqueue 0 0 9 5 .single (some 4) true true, .enqueue 0 0 9 5 .single (some 4) true true,
      .enqueue 0 0 9 5 .partial_ (some 7) true true, .enqueue 0 0 9 5 .complete (some 7) true true,
      .poll 0 5 true true, .timeout 0, .advTake, .advStart, .advStop]

/-- The accounts after a run in which an acknowledgement is replaced and a message takes the last buffers. -/
theorem buffers_accounted_busy :
    ∃ s, runSteps friendStep (friendInit smallFriend 1) busyActs = some s ∧ Accounts s :=
  buffers_accounted smallFriend 1 busyActs (by decide +kernel)

/-- Three segments of an incomplete message: the third one finds the other two in the segment queue,
the third buffer in the last slot, and the Friend Queue empty. -/
def segmentActs : List FriendAct :=
  friendshipActs ++ [.enqueue 0 0 9 5 .partial_ (some 7) true true,
    .enqueue 0 0 9 5 .partial_ (some 7) true true, .enqueue 0 0 9 5 .partial_ (some 7) true true]

/-- The confirmation of a subscription cannot be encoded: the last PDU stays in its slot, and the
timer that was started for the confirmation puts the next one there. -/
def lostActs : List FriendAct :=
  friendshipActs ++ [.enqueue 0 0 9 5 .single none true true, .sub 0 5 .add [0xC000] false, .timeout 0]

/-- Where segments have taken all buffers there is none to discard, and where a last PDU is replaced after a failed
confirmation its buffer is lost. -/
theorem buffers_not_accounted :
    (¬ ∃ s, runSteps friendStep (friendInit smallFriend 1) segmentActs = some s ∧ Accounts s) ∧
      ¬ ∃ s, runSteps friendStep (friendInit smallFriend 1) lostActs = some s ∧ Accounts s := by
  constructor
  · rintro ⟨s, hrun, -⟩
    have hnone : runSteps friendStep (friendInit smallFriend 1) segmentActs = none := by
      decide +kernel
    rw [hnone] at hrun
    cases hrun
  · rintro ⟨s, hrun, hs⟩
    -- the buffer `0` has a reference, and nothing holds it
    have hlost : (runSteps friendStep (friendInit smallFriend 1) lostActs).all
        (fun s => (s.buf 0).ref ≠ 0 ∧ 0 ∉ inQueues s.frnd ∧ 0 ∉ inSegs s.frnd ∧
          0 ∉ inLasts s.frnd ∧ 0 ∉ atAdv s) = true := by
      decide +kernel
    rw [hrun] at hlost
    obtain ⟨href, hqueues, hsegs, hlasts, hadv⟩ := of_decide_eq_true hlost
    obtain h | h | h | h := hs.held 0 href
    · exact hqueues h
    · exact hsegs h
    · exact hlasts h
    · exact hadv h

end GenieSdk.Analysis
