import GenieSdk.Analysis.FriendAccounts

/-!
# The two models of the Friend

`friend.c` with its buffers (`FriendSys`) and the Friend of one friendship with the PDUs themselves (`Friend`) are
related by the contents of the buffers (`Shows`). **What a friendship does with its buffers, its `Friend` does with
the PDUs in them**: on a poll (`Shows.poll`), a subscription request (`Shows.sub`), when a PDU comes to the queue
(`Shows.enqueue`), when the timer fires (`Shows.timeout`) and when the advertiser starts (`Shows.start`), as long as
a buffer is free, so that no queue is cut.
-/

set_option autoImplicit false

namespace GenieSdk.Analysis

open GenieSdk.Model GenieSdk.Model.FriendQueue

/-- The friendship `f` with these contents of its buffers is `frnd`. -/
structure Shows (contents : ℕ → FriendPdu) (f : Frnd) (frnd : Friend) : Prop where
  fsn : frnd.fsn = f.fsn
  sendLast : frnd.sendLast = f.sendLast
  pendingReq : frnd.pendingReq = f.pendingReq
  pendingBuf : frnd.pendingBuf = f.pendingBuf
  subList : frnd.subList = f.subList
  last : frnd.last = f.last.map contents
  queue : frnd.queue.map FriendPdu.queued = f.queue.map contents

/-- A buffer can be taken without cutting a queue. -/
def HasFree (s : FriendSys) : Prop :=
  (s.suspended = true → s.glp = true) ∧ ∃ b < s.bufs.length, (s.buf b).ref = 0

variable {contents : ℕ → FriendPdu} {s s' : FriendSys} {i b netIdx addr seq : ℕ} {f : Frnd} {frnd : Friend}
  {encoded fsn : Bool}

/-- A friendship is changed. -/
theorem frnd_mod {g : Frnd → Frnd} (hf : s.frnd[i]? = some f) : (s.modFrnd i g).frnd[i]? = some (g f) :=
  frnd_modFrnd.trans (congrArg _ hf)

/-- With a free buffer, encoding a PDU leaves the friendships. -/
theorem createFriendPdu_frnd {src : ℕ} {r : Option ℕ} (hfree : HasFree s)
    (hc : createFriendPdu src encoded s = some (r, s')) :
    s'.frnd = s.frnd ∧ r.isSome = encoded := by
  obtain ⟨hawake, c, hlt, href⟩ := hfree
  have hfound : ∃ c', s.bufs.findIdx? (fun x => x.ref = 0) = some c' := by
    rw [← Option.isSome_iff_exists, List.findIdx?_isSome, List.any_eq_true]
    refine ⟨s.bufs[c], List.getElem_mem hlt, ?_⟩
    rwa [decide_eq_true_eq, ← List.getD_eq_getElem s.bufs Buf.free hlt]
  obtain ⟨c', hc'⟩ := hfound
  have hcreate : advCreateFromPool s = some (c', { s with suspended := false }) := by
    rw [advCreateFromPool, if_neg (fun h => h.2 (hawake h.1)), hc']
  rw [createFriendPdu, friendBufAlloc, friendBufAllocLoop, hcreate] at hc
  cases encoded with
  | true =>
    cases hc
    exact ⟨rfl, rfl⟩
  | false =>
    cases hc
    exact ⟨rfl, rfl⟩

/-- What the flags of a friendship are does not matter for a free buffer. -/
theorem HasFree.modFrnd (h : HasFree s) (i : ℕ) (g : Frnd → Frnd) : HasFree (s.modFrnd i g) := h

/-- A free buffer stays free when the last PDU is dropped. -/
theorem HasFree.dropLast (h : HasFree s) : HasFree (dropLast i s) := by
  obtain ⟨hawake, c, hlt, href⟩ := h
  unfold FriendQueue.dropLast
  split
  · exact ⟨hawake, c, hlt, href⟩
  · next f hf =>
    have hbufs := OnlyBufs.unrefAll (s.modFrnd i fun f => { f with last := none }) f.last.toList
    refine ⟨?_, c, hbufs.length.symm ▸ hlt, ?_⟩
    · rw [hbufs.eq]
      exact hawake
    · rw [ref_unrefAll]
      exact Nat.sub_eq_zero_of_le (href.le.trans (Nat.zero_le _))

/-- The friendship whose last PDU is dropped. -/
theorem frnd_dropLast (hf : s.frnd[i]? = some f) : (dropLast i s).frnd[i]? = some { f with last := none } := by
  rw [dropLast_onlyBufs.frnd, frnd_modFrnd, hf]
  rfl

/-- The Friend's own PDU takes the place of the last one, if it can be encoded. -/
theorem frnd_enqueueLast (hfree : HasFree s) (hf : s.frnd[i]? = some f)
    (hc : enqueueLast i encoded s = some s') :
    ∃ b, s'.frnd[i]? = some (if encoded then { f with last := some b, sendLast := true } else f) := by
  unfold enqueueLast at hc
  split at hc
  · cases hc
  · next t hcreate =>
    cases hc
    obtain ⟨hfrnd, henc⟩ := createFriendPdu_frnd hfree hcreate
    refine ⟨0, ?_⟩
    rw [hfrnd, hf, ← henc]
    rfl
  · next b t hcreate =>
    cases hc
    obtain ⟨hfrnd, henc⟩ := createFriendPdu_frnd hfree hcreate
    refine ⟨b, ?_⟩
    rw [frnd_modFrnd, frnd_dropLast (hfrnd ▸ hf), ← henc]
    rfl

/-- A subscription request, with its confirmation in the buffer that becomes `last`. -/
theorem Shows.sub {op : SubOp} {addrList : List ℕ} {xact : ℕ} (h : Shows contents f frnd)
    (hi : friendFind s netIdx addr true = some i) (hf : s.frnd[i]? = some f) (hfree : HasFree s)
    (hc : FriendQueue.friendSub netIdx addr op addrList encoded s = some s') :
    ∃ f', s'.frnd[i]? = some f' ∧
      ((∀ b ∈ f'.last, f.pendingBuf = false → encoded = true → contents b = .subCfm xact) →
        Shows contents f' (btMeshFriendSub op encoded xact addrList frnd)) := by
  simp only [FriendQueue.friendSub, hi, hf] at hc
  unfold btMeshFriendSub
  rw [h.pendingBuf]
  split at hc
  · next hbuf =>
    cases hc
    refine ⟨f, hf, fun _ => ?_⟩
    rw [if_pos hbuf]
    exact h
  · next hbuf =>
    obtain ⟨b, hb⟩ := frnd_enqueueLast (hfree.modFrnd i _) (frnd_mod hf) hc
    have hlist : addrList.foldl (Model.friendSub op) frnd.subList = addrList.foldl (Model.friendSub op) f.subList :=
      congrArg (addrList.foldl (Model.friendSub op)) h.subList
    refine ⟨_, hb, fun hfill => ?_⟩
    rw [if_neg hbuf, enqueueSubCfm]
    cases encoded with
    | true =>
      have hcfm : contents b = .subCfm xact := hfill b rfl (Bool.of_not_eq_true hbuf) rfl
      exact ⟨h.fsn, rfl, rfl, rfl, hlist, congrArg some hcfm.symm, h.queue⟩
    | false => exact ⟨h.fsn, h.sendLast, rfl, rfl, hlist, h.last, h.queue⟩

/-- A PDU comes to the queue. -/
theorem Shows.enqueue {pdu : QueuedPdu} (h : Shows contents f frnd) (hf : s.frnd[i]? = some f)
    (hb : contents b = .queued pdu) :
    ∃ f', (enqueueBuf i b s).frnd[i]? = some f' ∧
      Shows contents f' { frnd with queue := frnd.queue ++ [pdu] } := by
  refine ⟨{ f with queue := f.queue ++ [b], queueSize := f.queueSize + 1 }, ?_, h.fsn, h.sendLast, h.pendingReq,
    h.pendingBuf, h.subList, h.last, ?_⟩
  · rw [enqueueBuf, frnd_modFrnd, hf]
    rfl
  · rw [List.map_append, List.map_append, h.queue, List.map_singleton, List.map_singleton, hb]

/-- A poll; a Friend Update for an empty queue is in the buffer that is put there. -/
theorem Shows.poll (h : Shows contents f frnd) (hi : friendFind s netIdx addr false = some i)
    (hf : s.frnd[i]? = some f) (hfree : HasFree s) (hc : friendPoll netIdx addr fsn encoded s = some s') :
    ∃ f', s'.frnd[i]? = some f' ∧
      ((f.queue = [] → ∀ b ∈ f'.queue, contents b = .queued (.update false seq)) →
        Shows contents f' (btMeshFriendPoll (if encoded then some seq else none) fsn frnd)) := by
  simp only [friendPoll, hi, hf] at hc
  unfold btMeshFriendPoll
  have hempty : frnd.queue = [] ↔ f.queue = [] := by
    rw [← List.map_eq_nil_iff (f := FriendPdu.queued), h.queue, List.map_eq_nil_iff]
  have hlast : frnd.last.isSome = f.last.isSome := by rw [h.last, Option.isSome_map]
  rw [h.pendingBuf, h.fsn, hlast]
  split at hc
  · next hbuf =>
    cases hc
    refine ⟨f, hf, fun _ => ?_⟩
    rw [if_pos hbuf]
    exact h
  next hbuf =>
  have hmod := frnd_mod (g := fun f => { f with pendingReq := true, timer := true, established := true }) hf
  have hroom := hfree.modFrnd i fun f => { f with pendingReq := true, timer := true, established := true }
  split at hc
  · next hagain =>
    cases hc
    refine ⟨_, frnd_mod hmod, fun _ => ?_⟩
    rw [if_neg hbuf, if_pos hagain]
    exact ⟨rfl, rfl, rfl, rfl, h.subList, h.last, h.queue⟩
  next hagain =>
  -- the last PDU is dropped, and an empty queue gets a Friend Update
  rw [if_neg hbuf, if_neg hagain]
  have hfsn := frnd_mod (g := fun f => { f with fsn := fsn }) (frnd_dropLast hmod)
  have hroom' := (hroom.dropLast (i := i)).modFrnd i fun f => { f with fsn := fsn }
  split at hc
  · next hnil =>
    rw [if_pos (hempty.2 hnil)]
    unfold enqueueUpdate at hc
    split at hc
    · cases hc
    · next t hcreate =>
      cases hc
      obtain ⟨hfrnd, henc⟩ := createFriendPdu_frnd hroom' hcreate
      cases henc
      refine ⟨_, (congrArg (·[i]?) hfrnd).trans hfsn, fun _ => ?_⟩
      exact ⟨rfl, h.sendLast, rfl, rfl, h.subList, rfl, by simp [hnil]⟩
    · next b t hcreate =>
      cases hc
      obtain ⟨hfrnd, henc⟩ := createFriendPdu_frnd hroom' hcreate
      cases henc
      have hput := (congrArg (·[i]?) hfrnd).trans hfsn
      refine ⟨_, frnd_mod (frnd_mod hput), fun hfill => ?_⟩
      have hb : contents b = .queued (.update false seq) := hfill hnil b (by simp)
      exact ⟨rfl, h.sendLast, rfl, rfl, h.subList, rfl, by simp [hnil, hb]⟩
  · next hnil =>
    cases hc
    rw [if_neg (fun h => hnil (hempty.1 h))]
    exact ⟨_, hfsn, fun _ => ⟨rfl, h.sendLast, rfl, rfl, h.subList, rfl, h.queue⟩⟩

/-- The buffer that is sent has its flags changed, the friendship none but those of `send_last`. -/
theorem frnd_sendLast (hf : s.frnd[i]? = some f) (hc : FriendQueue.sendLast i b s = some s') :
    s'.frnd[i]? = some { f with pendingReq := false, pendingBuf := true } := by
  unfold FriendQueue.sendLast at hc
  split at hc
  · cases hc
  · cases hc
    exact frnd_mod hf

/-- The timer of an established friendship: it ends in both models or in none. -/
theorem Shows.timeout (h : Shows contents f frnd) (hf : s.frnd[i]? = some f) (htimer : f.timer = true)
    (hestablished : f.established = true) (hbuf : f.pendingBuf = false)
    (hc : FriendQueue.friendTimeout i s = some s') :
    ∃ f', s'.frnd[i]? = some f' ∧
      ((f'.valid = false ∧ Model.friendTimeout frnd = none) ∨
        ∃ frnd', Model.friendTimeout frnd = some frnd' ∧ Shows contents f' frnd') := by
  have hlast : frnd.last.isSome = f.last.isSome := by rw [h.last, Option.isSome_map]
  have hclear : ∀ t : FriendSys, ∀ g, t.frnd[i]? = some g →
      ∃ f', (friendClear i t).frnd[i]? = some f' ∧ f'.valid = false := fun t g hg =>
    ⟨clearedFrnd g, by rw [friendClear_onlyBufs.frnd, frnd_modFrnd, hg]; rfl, rfl⟩
  have hstop := frnd_mod (g := fun f => { f with timer := false }) hf
  simp only [FriendQueue.friendTimeout, hf, htimer, Bool.true_eq_false, if_false] at hc
  unfold Model.friendTimeout
  rw [h.pendingBuf, h.sendLast, hlast, h.pendingReq, hbuf, if_neg Bool.false_ne_true]
  split at hc
  · next b hsend hb =>
    have hsent := frnd_sendLast (frnd_mod hstop) hc
    rw [if_pos (by simp [hsend, hb])]
    exact ⟨_, hsent, Or.inr ⟨_, rfl, h.fsn, rfl, rfl, rfl, h.subList, h.last, h.queue⟩⟩
  next hsend =>
  have hsend : ¬ (f.sendLast = true ∧ f.last.isSome = true) := by
    rintro ⟨hon, hsome⟩
    obtain ⟨b, hb⟩ := Option.isSome_iff_exists.1 hsome
    exact hsend b hon hb
  rw [if_neg hsend]
  split at hc
  · next hlost =>
    cases hc
    obtain ⟨f', hf', hvalid⟩ := hclear _ _ hstop
    exact ⟨f', hf', Or.inl ⟨hvalid, if_pos (Bool.eq_false_iff.2 hlost.2)⟩⟩
  next hlost =>
  have hreq : ¬ f.pendingReq = false := fun h => hlost ⟨hestablished, by simp [h]⟩
  rw [if_neg hreq]
  have hqueue := h.queue
  split at hc
  · next hnil =>
    cases hc
    rw [hnil, List.map_nil, List.map_eq_nil_iff] at hqueue
    obtain ⟨f', hf', hvalid⟩ := hclear _ _ (frnd_mod hstop)
    exact ⟨f', hf', Or.inl ⟨hvalid, by rw [hqueue]⟩⟩
  · next b queue hcons =>
    have hsent := frnd_sendLast (frnd_mod hstop) hc
    rw [hcons, List.map_cons] at hqueue
    obtain ⟨pdu, rest, hpdus, hpdu, hrest⟩ := List.map_eq_cons_iff.1 hqueue
    rw [hpdus]
    exact ⟨_, hsent, Or.inr ⟨_, rfl, h.fsn, rfl, rfl, rfl, h.subList, congrArg some hpdu, hrest⟩⟩

/-- The advertiser has started the PDU of an established friendship. -/
theorem Shows.start (h : Shows contents f frnd) (hf : s.frnd[i]? = some f) (hestablished : f.established = true) :
    ∃ f', (bufSendStart i s).frnd[i]? = some f' ∧ Shows contents f' { frnd with pendingBuf := false } := by
  refine ⟨{ f with pendingBuf := false }, ?_, h.fsn, h.sendLast, h.pendingReq, rfl, h.subList, h.last, h.queue⟩
  simp only [bufSendStart, hf]
  rw [if_pos hestablished, frnd_modFrnd, hf]
  rfl

end GenieSdk.Analysis
