import GenieSdk.Analysis.TransportLock
import GenieSdk.Model.TransportTasks

/-!
# What happens to a vendor message

The events of one message, read off the log, follow one course: it is appended, transmitted a
number of times, and ended by its removal, before which its result may have been reported. While
it is listed, the transmissions made, the first one if its sender has yet to make it, and the
retries left add up to the number allowed. `TxInv` says this of every message at once; each change
of `send_list` keeps it, and every statement about the log is read off the course.

Tasks interleave: what a sender found out before it took the mutex may be wrong when it has it, and
a message may be removed before its sender transmits it. **Where neither happens the course is kept**
(`transport_retransmission_safe`), and where it does the list has a tid twice or one message too
many, or a message is transmitted that was removed (`transport_retransmission_unsafe`). A call with
no other task in between does what the functions of `Model.Transport` do (`call_alone`).
-/

set_option autoImplicit false

namespace GenieSdk.Analysis

open GenieSdk.Lib
open GenieSdk.Model

/-- The event is about the node `id`. -/
def TxEvent.about (id : ℕ) : TxEvent → Bool
  | .append i _ => i = id
  | .transmit i _ => i = some id
  | .result i _ => i = id
  | .remove i => i = id

/-- The event is a transmission of the node `id`. -/
def TxEvent.sends (id : ℕ) : TxEvent → Bool
  | .transmit i _ => i = some id
  | _ => false

/-- The event reports a result of the node `id`. -/
def TxEvent.reports (id : ℕ) : TxEvent → Bool
  | .result i _ => i = id
  | _ => false

/-- The events of one message. -/
def history (id : ℕ) (log : List TxEvent) : List TxEvent := log.filter (TxEvent.about id)

/-- The number of times a message may be transmitted. -/
def txLimit (retry : ℕ) : ℕ := 1 + min retry vendorModelMsgMaxRetryTimes

/-- A message up to its `k`-th transmission. -/
def underway (id retry k : ℕ) (tid : UInt8) : List TxEvent :=
  .append id retry :: List.replicate k (.transmit (some id) tid)

/-- How a message that was transmitted `k` times ends. -/
def Ending (id retry k : ℕ) (tail : List TxEvent) : Prop :=
  tail = [.remove id] ∨ tail = [.result id .success, .remove id] ∨
    (tail = [.result id .timeout, .remove id] ∧ k = txLimit retry)

/-- The course of a listed message; of those in `unsent` the first transmission is to come. -/
def Listed (unsent : Set ℕ) (node : TransportNode) (h : List TxEvent) : Prop :=
  ∃ retry k, h = underway node.id retry k node.msg.tid ∧
    (node.id ∉ unsent → k + node.leftRetry = txLimit retry) ∧
    (node.id ∈ unsent → k + node.leftRetry + 1 = txLimit retry)

/-- The course of a message that has been removed. -/
def Ended (id : ℕ) (h : List TxEvent) : Prop :=
  ∃ retry k tid tail, h = underway id retry k tid ++ tail ∧ k ≤ txLimit retry ∧
    Ending id retry k tail

/-- **The invariant of the transport**, for the messages that wait for their first transmission, a
list of nodes, a number of allocations and a log. -/
structure TxInv (unsent : Set ℕ) (nodes : List TransportNode) (allocs : ℕ) (log : List TxEvent) :
    Prop where
  tids : (nodes.map fun node => node.msg.tid).Nodup
  ids : (nodes.map TransportNode.id).Nodup
  size : nodes.length ≤ vendorSendMsgMax
  listed : ∀ node ∈ nodes, Listed unsent node (history node.id log)
  fresh : ∀ id, allocs ≤ id → history id log = []
  gone : ∀ id, (∀ node ∈ nodes, node.id ≠ id) → history id log = [] ∨ Ended id (history id log)

/-- The history over two parts of the log. -/
theorem history_append (id : ℕ) (l₁ l₂ : List TxEvent) :
    history id (l₁ ++ l₂) = history id l₁ ++ history id l₂ :=
  List.filter_append ..

/-- Events that are all about one node. -/
theorem history_self {id : ℕ} {es : List TxEvent} (h : ∀ e ∈ es, TxEvent.about id e = true) :
    history id es = es :=
  List.filter_eq_self.2 h

/-- Events about other messages. -/
theorem history_other {id : ℕ} {es : List TxEvent} (h : ∀ e ∈ es, TxEvent.about id e = false) :
    history id es = [] :=
  List.filter_eq_nil_iff.2 (fun e he => by simp [h e he])

/-- Events about one node leave the others' histories alone. -/
theorem about_other {i j : ℕ} {e : TxEvent} (h : TxEvent.about i e = true) (hij : i ≠ j) :
    TxEvent.about j e = false := by
  cases e <;> simp_all [TxEvent.about]

/-- The history after more events about the node `i`. -/
theorem history_add {i : ℕ} (log es : List TxEvent) (h : ∀ e ∈ es, TxEvent.about i e = true)
    (id : ℕ) : history id (log ++ es) = if i = id then history id log ++ es else history id log := by
  rw [history_append]
  split
  · next heq =>
    subst heq
    rw [history_self h]
  · next hne => rw [history_other (fun e he => about_other (h e he) hne), List.append_nil]

/-- The end of a message is about that message. -/
theorem Ending.about {id retry k : ℕ} {tail : List TxEvent} (h : Ending id retry k tail) :
    ∀ e ∈ tail, TxEvent.about id e = true := by
  rcases h with rfl | rfl | ⟨rfl, -⟩ <;> simp [TxEvent.about]

section Changes

variable {unsent unsent' : Set ℕ} {nodes l₁ l₂ : List TransportNode} {node : TransportNode}
  {allocs : ℕ} {log : List TxEvent}

/-- A listed node has been allocated. -/
theorem TxInv.lt_allocs (hi : TxInv unsent nodes allocs log) (node : TransportNode)
    (hmem : node ∈ nodes) : node.id < allocs := by
  by_contra hge
  obtain ⟨retry, k, hh, -⟩ := hi.listed node hmem
  rw [hi.fresh node.id (by omega)] at hh
  simp [underway] at hh

/-- The other nodes of a list have other names. -/
theorem TxInv.ids_ne (hi : TxInv unsent (l₁ ++ node :: l₂) allocs log) :
    ∀ other ∈ l₁ ++ l₂, other.id ≠ node.id := by
  have hnodup := hi.ids
  simp only [List.map_append, List.map_cons, List.nodup_append, List.nodup_cons, List.mem_map,
    List.mem_cons] at hnodup
  obtain ⟨-, ⟨hnot, -⟩, hcross⟩ := hnodup
  intro other hmem heq
  rcases List.mem_append.1 hmem with h | h
  · exact hcross other.id ⟨other, h, rfl⟩ node.id (.inl rfl) heq
  · exact hnot ⟨other, h, heq⟩

/-- Two nodes of one name are one. -/
theorem TxInv.eq_of_id (hi : TxInv unsent nodes allocs log) {other : TransportNode}
    (hnode : node ∈ nodes) (hother : other ∈ nodes) (hid : other.id = node.id) : other = node :=
  List.inj_on_of_nodup_map hi.ids hother hnode hid

/-- Only which listed messages wait for their first transmission matters. -/
theorem TxInv.congr (hi : TxInv unsent nodes allocs log)
    (hsame : ∀ node ∈ nodes, node.id ∈ unsent' ↔ node.id ∈ unsent) :
    TxInv unsent' nodes allocs log :=
  { hi with
    listed := by
      intro node hmem
      obtain ⟨retry, k, hh, hsent, hwaits⟩ := hi.listed node hmem
      have hiff := hsame node hmem
      exact ⟨retry, k, hh, fun h => hsent (hiff.not.1 h), fun h => hwaits (hiff.1 h)⟩ }

/-- A message that was transmitted leaves the list. -/
theorem TxInv.remove (hi : TxInv unsent (l₁ ++ node :: l₂) allocs log) (hnode : node.id ∉ unsent)
    (tail : List TxEvent)
    (htail : ∀ retry k, k + node.leftRetry = txLimit retry → Ending node.id retry k tail) :
    TxInv unsent (l₁ ++ l₂) allocs (log ++ tail) := by
  have hsub : List.Sublist (l₁ ++ l₂) (l₁ ++ node :: l₂) := by simp
  obtain ⟨retry, k, hh, hsent, -⟩ := hi.listed node (by simp)
  have hk := hsent hnode
  have hend : Ending node.id retry k tail := htail retry k hk
  have hadd := history_add log tail hend.about
  constructor
  · exact hi.tids.sublist (hsub.map _)
  · exact hi.ids.sublist (hsub.map _)
  · exact hsub.length_le.trans hi.size
  · intro other hmem
    rw [hadd, if_neg (Ne.symm (hi.ids_ne other hmem))]
    exact hi.listed other (hsub.subset hmem)
  · intro id hid
    have hlt := hi.lt_allocs node (by simp)
    rw [hadd, if_neg (by omega)]
    exact hi.fresh id hid
  · intro id hid
    rw [hadd]
    split
    · next heq =>
      subst heq
      exact .inr ⟨retry, k, node.msg.tid, tail, by rw [hh], by omega, hend⟩
    · next hne =>
      refine hi.gone id (fun other hmem => ?_)
      rcases List.mem_append.1 hmem with h | h
      · exact hid other (by simp [h])
      · rcases List.mem_cons.1 h with rfl | h
        · exact hne
        · exact hid other (by simp [h])

/-- A listed message is transmitted, by the timer or for the first time. -/
theorem TxInv.transmit (hi : TxInv unsent (l₁ ++ node :: l₂) allocs log) (node' : TransportNode)
    (hid : node'.id = node.id) (htid : node'.msg.tid = node.msg.tid)
    (hothers : ∀ other ∈ l₁ ++ l₂, other.id ∈ unsent' ↔ other.id ∈ unsent)
    (hleft : ∀ retry k, (node.id ∉ unsent → k + node.leftRetry = txLimit retry) →
      (node.id ∈ unsent → k + node.leftRetry + 1 = txLimit retry) →
        (node.id ∉ unsent' → k + 1 + node'.leftRetry = txLimit retry) ∧
        (node.id ∈ unsent' → k + 1 + node'.leftRetry + 1 = txLimit retry)) :
    TxInv unsent' (l₁ ++ node' :: l₂) allocs (log ++ [.transmit (some node.id) node.msg.tid]) := by
  have hadd := history_add (i := node.id) log [.transmit (some node.id) node.msg.tid]
    (by simp [TxEvent.about])
  have hne := hi.ids_ne
  constructor
  · simpa [htid] using hi.tids
  · simpa [hid] using hi.ids
  · simpa using hi.size
  · intro other hmem
    have hcase : other = node' ∨ other ∈ l₁ ++ l₂ := by
      simp only [List.mem_append, List.mem_cons] at hmem ⊢
      tauto
    rcases hcase with rfl | hmem'
    · obtain ⟨retry, k, hh, hsent, hwaits⟩ := hi.listed node (by simp)
      obtain ⟨hsent', hwaits'⟩ := hleft retry k hsent hwaits
      refine ⟨retry, k + 1, ?_, hid ▸ hsent', hid ▸ hwaits'⟩
      rw [hid, htid, hadd, if_pos rfl, hh, underway, underway, List.replicate_succ']
      rfl
    · rw [hadd, if_neg (Ne.symm (hne other hmem'))]
      have hlisted : other ∈ l₁ ++ node :: l₂ := by
        simp only [List.mem_append, List.mem_cons] at hmem' ⊢
        tauto
      obtain ⟨retry, k, hh, hsent, hwaits⟩ := hi.listed other hlisted
      have hiff := hothers other hmem'
      exact ⟨retry, k, hh, fun h => hsent (hiff.not.1 h), fun h => hwaits (hiff.1 h)⟩
  · intro id hge
    have hlt := hi.lt_allocs node (by simp)
    rw [hadd, if_neg (by omega)]
    exact hi.fresh id hge
  · intro id hnot
    have hself : node.id ≠ id := by
      rw [← hid]
      exact hnot node' (by simp)
    rw [hadd, if_neg hself]
    refine hi.gone id (fun other hmem => ?_)
    simp only [List.mem_append, List.mem_cons] at hmem
    rcases hmem with h | rfl | h
    · exact hnot other (by simp [h])
    · exact hself
    · exact hnot other (by simp [h])

/-- A message enters the list. -/
theorem TxInv.append {retry : ℕ} (hi : TxInv unsent nodes node.id log)
    (hroom : nodes.length < vendorSendMsgMax)
    (hleft : node.leftRetry = min retry vendorModelMsgMaxRetryTimes)
    (htid : ∀ other ∈ nodes, other.msg.tid ≠ node.msg.tid) :
    TxInv (insert node.id unsent) (nodes ++ [node]) (node.id + 1)
      (log ++ [.append node.id retry]) := by
  have hadd := history_add (i := node.id) log [.append node.id retry] (by simp [TxEvent.about])
  have hnew : history node.id log = [] := hi.fresh node.id le_rfl
  constructor
  · simp only [List.map_append, List.map_cons, List.map_nil, List.nodup_append, List.mem_map,
      List.mem_singleton]
    refine ⟨hi.tids, by simp, ?_⟩
    rintro _ ⟨other, hmem, rfl⟩ _ rfl
    exact htid other hmem
  · simp only [List.map_append, List.map_cons, List.map_nil, List.nodup_append, List.mem_map,
      List.mem_singleton]
    refine ⟨hi.ids, by simp, ?_⟩
    rintro _ ⟨other, hmem, rfl⟩ _ rfl
    exact (hi.lt_allocs other hmem).ne
  · simpa using hroom
  · intro other hmem
    rcases List.mem_append.1 hmem with h | h
    · have hne : other.id ≠ node.id := (hi.lt_allocs other h).ne
      obtain ⟨retry', k, hh, hsent, hwaits⟩ := hi.listed other h
      rw [hadd, if_neg hne.symm]
      refine ⟨retry', k, hh, fun hnot => hsent fun hin => hnot (Set.mem_insert_of_mem _ hin), ?_⟩
      intro hin
      exact hwaits (Set.mem_of_mem_insert_of_ne hin hne)
    · rw [List.mem_singleton.1 h, hadd, if_pos rfl, hnew]
      refine ⟨retry, 0, rfl, fun hnot => absurd (Set.mem_insert _ _) hnot, fun _ => ?_⟩
      rw [hleft, txLimit]
      omega
  · intro id hge
    rw [hadd, if_neg (by omega)]
    exact hi.fresh id (by omega)
  · intro id hnot
    have hself : node.id ≠ id := hnot node (by simp)
    rw [hadd, if_neg hself]
    exact hi.gone id (fun other hmem => hnot other (by simp [hmem]))

/-- A transmission of a message that is not listed. -/
theorem TxInv.transmitUnlisted (hi : TxInv unsent nodes allocs log) (tid : UInt8) :
    TxInv unsent nodes allocs (log ++ [.transmit none tid]) := by
  have hsame : ∀ id, history id (log ++ [.transmit none tid]) = history id log := by
    intro id
    have hnone : history id [.transmit none tid] = [] := history_other (by simp [TxEvent.about])
    rw [history_append, hnone, List.append_nil]
  exact
    { tids := hi.tids, ids := hi.ids, size := hi.size
      listed := fun node hmem => by rw [hsame]; exact hi.listed node hmem
      fresh := fun id hid => by rw [hsame]; exact hi.fresh id hid
      gone := fun id hid => by rw [hsame]; exact hi.gone id hid }

end Changes

/-- The message found by its tid splits the list. -/
theorem findByTid_split {nodes : List TransportNode} {tid : UInt8} {node : TransportNode}
    (h : nodes.find? (fun node => node.msg.tid = tid) = some node) :
    ∃ l₁ l₂, nodes = l₁ ++ node :: l₂ ∧ node.msg.tid = tid ∧
      nodes.eraseP (fun node => node.msg.tid = tid) = l₁ ++ l₂ := by
  obtain ⟨htid, l₁, l₂, heq, hbefore⟩ := List.find?_eq_some_iff_append.1 h
  refine ⟨l₁, l₂, heq, by simpa using htid, ?_⟩
  rw [heq, List.eraseP_append_right _ (fun other hmem => by simpa using hbefore other hmem)]
  simp [show node.msg.tid = tid by simpa using htid]

section Walk

variable (uptime : ℕ → ℤ)

/-- The message is due when the walk of the timer comes to it as number `k`. -/
def IsDue (k : ℕ) (node : TransportNode) : Prop := node.timeout ≤ uptime (2 * k)

instance (k : ℕ) (node : TransportNode) : Decidable (IsDue uptime k node) :=
  inferInstanceAs (Decidable (_ ≤ _))

/-- The message is due and has no retry left when the walk comes to it as number `k`. -/
def IsGivenUp (k : ℕ) (node : TransportNode) : Prop :=
  IsDue uptime k node ∧ node.leftRetry = 0

instance (k : ℕ) (node : TransportNode) : Decidable (IsGivenUp uptime k node) :=
  inferInstanceAs (Decidable (_ ∧ _))

/-- The walk over `nodes`, from number `k` on, gives up no message before its first transmission. -/
def GivesUpSent (unsent : Set ℕ) (k : ℕ) (nodes : List TransportNode) : Prop :=
  ∀ i node, nodes[i]? = some node → IsGivenUp uptime (k + i) node →
    (∀ j other, j < i → nodes[j]? = some other → ¬ IsGivenUp uptime (k + j) other) → node.id ∉ unsent

variable {uptime} in
/-- What holds of the walk holds of its rest. -/
theorem GivesUpSent.tail {unsent : Set ℕ} {k : ℕ} {node : TransportNode} {rest : List TransportNode}
    (h : GivesUpSent uptime unsent k (node :: rest)) (hnode : ¬ IsGivenUp uptime k node) :
    GivesUpSent uptime unsent (k + 1) rest := by
  intro i other hi hgiven hbefore
  refine h (i + 1) other hi (by rwa [← Nat.add_right_comm, Nat.add_assoc] at hgiven) ?_
  intro j earlier hj hget
  cases j with
  | zero =>
    cases hget
    exact hnode
  | succ j =>
    have hnot := hbefore j earlier (by omega) hget
    rwa [← Nat.add_right_comm, Nat.add_assoc] at hnot

/-- The walk of the timer, from any place of the list on. -/
theorem retransmitLoop_inv {unsent : Set ℕ} {allocs : ℕ} :
    ∀ (rest done : List TransportNode) (k nearest : ℕ) (log : List TxEvent),
      GivesUpSent uptime unsent k rest → TxInv unsent (done ++ rest) allocs log →
        TxInv unsent (done ++ (retransmitLoop uptime k rest nearest).1) allocs
          (log ++ (retransmitLoop uptime k rest nearest).2.1) := by
  intro rest
  induction rest with
  | nil =>
    intro done k nearest log _ hi
    simpa [retransmitLoop] using hi
  | cons node rest ih =>
    intro done k nearest log hsent hi
    unfold retransmitLoop
    split
    · next hdue =>
      split
      · next hzero =>
        have hnode : node.id ∉ unsent :=
          hsent 0 node rfl ⟨hdue, hzero⟩ fun j _ hj => absurd hj (Nat.not_lt_zero j)
        refine hi.remove hnode _ (fun retry j hj => ?_)
        split
        · exact .inr (.inr ⟨rfl, by omega⟩)
        · exact .inl rfl
      · next hleft =>
        have hone : TxInv unsent
            (done ++ { node with
              leftRetry := node.leftRetry - 1
              timeout := uptime (2 * k + 1) + node.msg.retryPeriod } :: rest) allocs
            (log ++ [.transmit (some node.id) node.msg.tid]) := by
          refine hi.transmit _ rfl rfl (fun _ _ => Iff.rfl) (fun retry j hs hw => ⟨fun h => ?_, fun h => ?_⟩)
          · have hsum := hs h
            dsimp only
            omega
          · have hsum := hw h
            dsimp only
            omega
        have hrest := ih (done ++ [_]) (k + 1) node.msg.retryPeriod _
          (hsent.tail fun hgiven => hleft hgiven.2) (by simpa using hone)
        simpa using hrest
    · next hdue =>
      have hrest := ih (done ++ [node]) (k + 1)
        (if node.timeout < node.msg.retryPeriod then (node.timeout % 2 ^ 32).toNat
          else node.msg.retryPeriod) log (hsent.tail fun hgiven => hdue hgiven.1) (by simpa using hi)
      simpa using hrest

/-- A message whose first transmission is to come stays in the list. -/
theorem retransmitLoop_keeps {unsent : Set ℕ} :
    ∀ (rest : List TransportNode) (k nearest : ℕ), GivesUpSent uptime unsent k rest →
      ∀ node ∈ rest, node.id ∈ unsent → ∃ node' ∈ (retransmitLoop uptime k rest nearest).1,
        node'.id = node.id ∧ node'.msg.tid = node.msg.tid := by
  intro rest
  induction rest with
  | nil => exact fun _ _ _ node hmem => absurd hmem List.not_mem_nil
  | cons first rest ih =>
    intro k nearest hsent node hmem hwaits
    unfold retransmitLoop
    split
    · next hdue =>
      split
      · next hzero =>
        rcases List.mem_cons.1 hmem with rfl | hrest
        · exact absurd hwaits
            (hsent 0 node rfl ⟨hdue, hzero⟩ fun j _ hj => absurd hj (Nat.not_lt_zero j))
        · exact ⟨node, hrest, rfl, rfl⟩
      · next hleft =>
        rcases List.mem_cons.1 hmem with rfl | hrest
        · exact ⟨_, List.mem_cons_self, rfl, rfl⟩
        · obtain ⟨node', hin, hsame⟩ := ih (k + 1) first.msg.retryPeriod
            (hsent.tail fun hgiven => hleft hgiven.2) node hrest hwaits
          exact ⟨node', List.mem_cons_of_mem _ hin, hsame⟩
    · next hdue =>
      rcases List.mem_cons.1 hmem with rfl | hrest
      · exact ⟨_, List.mem_cons_self, rfl, rfl⟩
      · obtain ⟨node', hin, hsame⟩ := ih (k + 1)
          (if first.timeout < first.msg.retryPeriod then (first.timeout % 2 ^ 32).toNat
            else first.msg.retryPeriod) (hsent.tail fun hgiven => hdue hgiven.1) node hrest hwaits
        exact ⟨node', List.mem_cons_of_mem _ hin, hsame⟩

/-- The timer reports no success. -/
theorem retransmitLoop_no_success (id : ℕ) :
    ∀ (rest : List TransportNode) (k nearest : ℕ),
      .result id .success ∉ (retransmitLoop uptime k rest nearest).2.1 := by
  intro rest
  induction rest with
  | nil => simp [retransmitLoop]
  | cons node rest ih =>
    intro k nearest
    unfold retransmitLoop
    split
    · split
      · split <;> simp
      · simpa using ih _ _
    · simpa using ih _ _

end Walk

/-- The unlock is not part of the history. -/
theorem transportUnlock_fields (s : TransportState) (task : ℕ) :
    (transportUnlock s task).sendList = s.sendList ∧ (transportUnlock s task).allocs = s.allocs ∧
      (transportUnlock s task).log = s.log := by
  unfold transportUnlock
  split
  · split <;> exact ⟨rfl, rfl, rfl⟩
  · exact ⟨rfl, rfl, rfl⟩

/-- `check_retry_timer` leaves the list and the log. -/
theorem checkRetryTimer_fields (s : TransportState) (period : ℕ) :
    (checkRetryTimer s period).sendList = s.sendList ∧
      (checkRetryTimer s period).allocs = s.allocs ∧ (checkRetryTimer s period).log = s.log := by
  unfold checkRetryTimer
  split <;> exact ⟨rfl, rfl, rfl⟩

/-! ## Under the mutex -/

section Locked

variable {s s' : TransportState} {task : ℕ} {env : TransportEnv} {msg : TransportMsg} {tid : UInt8}

/-- What an append with memory does. -/
theorem appendLocked_spec {id : Option ℕ} (hm : env.mallocOk = true)
    (h : transportAppendLocked s task env msg = some (id, s')) :
    ∃ node : TransportNode, id = some node.id ∧ node.id = s.allocs ∧
      node.leftRetry = min msg.retry vendorModelMsgMaxRetryTimes ∧ node.msg.tid = msg.tid ∧
      s'.sendList = s.sendList ++ [node] ∧ s'.allocs = node.id + 1 ∧
      s'.log = s.log ++ [.append node.id msg.retry] := by
  unfold transportAppendLocked at h
  split at h
  · cases h
  · next s₁ hlock =>
    obtain ⟨-, hlist, hallocs, hlog⟩ := transportLock_spec hlock
    rw [generate_some s₁ msg hm] at h
    simp only [Option.some.injEq, Prod.mk.injEq] at h
    obtain ⟨rfl, rfl⟩ := h
    refine
      ⟨{ id := s₁.allocs, leftRetry := min msg.retry vendorModelMsgMaxRetryTimes
         timeout := env.uptime 0 + msg.retryPeriod
         msg := { msg with retry := min msg.retry vendorModelMsgMaxRetryTimes } },
        rfl, hallocs, rfl, rfl, ?_, ?_, ?_⟩
    · rw [(transportUnlock_fields _ _).1]
      simp [TransportState.record, hlist]
    · rw [(transportUnlock_fields _ _).2.1]
      simp [TransportState.record]
    · rw [(transportUnlock_fields _ _).2.2]
      simp [TransportState.record, hlog]

/-- The first message with the tid leaves the list with the events in `tail`, if there is one. -/
def TakesOut (s : TransportState) (tid : UInt8) (tail : TransportNode → List TxEvent)
    (s' : TransportState) : Prop :=
  s'.allocs = s.allocs ∧
    (s'.sendList = s.sendList ∧ s'.log = s.log ∨
      ∃ l₁ node l₂, genieTransportFindByTid s tid = some node ∧ s.sendList = l₁ ++ node :: l₂ ∧
        node.msg.tid = tid ∧ s'.sendList = l₁ ++ l₂ ∧ s'.log = s.log ++ tail node)

/-- The events of a replaced message. -/
def replacedTail (node : TransportNode) : List TxEvent := [.remove node.id]

/-- The events of an acknowledged message. -/
def ackedTail (node : TransportNode) : List TxEvent :=
  (if node.msg.resultCb then [.result node.id .success] else []) ++ [.remove node.id]

/-- What is found under the mutex and erased is taken out. -/
theorem takesOut_found {s₁ : TransportState} {node : TransportNode} {tail : TransportNode → List TxEvent}
    (hlock : transportLock s task = some s₁) (hnode : genieTransportFindByTid s₁ tid = some node)
    (hl : s'.sendList = s₁.sendList.eraseP fun node => node.msg.tid = tid) (ha : s'.allocs = s₁.allocs)
    (hlog : s'.log = s₁.log ++ tail node) : TakesOut s tid tail s' := by
  obtain ⟨-, hlist, hallocs, hlog₁⟩ := transportLock_spec hlock
  unfold genieTransportFindByTid at hnode
  rw [hlist] at hnode
  obtain ⟨l₁, l₂, hsplit, htid, herase⟩ := findByTid_split hnode
  exact ⟨ha.trans hallocs, .inr ⟨l₁, node, l₂, hnode, hsplit, htid, by rw [hl, hlist, herase],
    by rw [hlog, hlog₁]⟩⟩

/-- A call that finds no message with the tid leaves the list alone. -/
theorem takesOut_none {s₁ : TransportState} {tail : TransportNode → List TxEvent}
    (hlock : transportLock s task = some s₁) : TakesOut s tid tail (transportUnlock s₁ task) := by
  obtain ⟨-, hlist, hallocs, hlog⟩ := transportLock_spec hlock
  obtain ⟨hl, ha, hlog'⟩ := transportUnlock_fields s₁ task
  exact ⟨ha.trans hallocs, .inl ⟨hl.trans hlist, hlog'.trans hlog⟩⟩

/-- `transport_remove_by_tid` takes the message with the tid out. -/
theorem removeLocked_takesOut (h : transportRemoveLocked s task tid = some s') :
    TakesOut s tid replacedTail s' := by
  unfold transportRemoveLocked at h
  split at h
  · cases h
  · next s₁ hlock =>
    split at h
    · next node hnode =>
      cases h
      exact takesOut_found hlock hnode rfl rfl rfl
    · cases h
      exact takesOut_none hlock

/-- So does `genie_transport_ack`, with its result. -/
theorem ackLocked_takesOut (h : transportAckLocked s task tid = some s') :
    TakesOut s tid ackedTail s' := by
  unfold transportAckLocked at h
  split at h
  · cases h
  · next s₁ hlock =>
    split at h
    · next node hnode =>
      cases h
      obtain ⟨hl, ha, hlog⟩ := transportUnlock_fields
        (TransportState.record
          { s₁ with sendList := s₁.sendList.eraseP fun node => node.msg.tid = tid }
          (ackedTail node)) task
      exact takesOut_found hlock hnode hl ha hlog
    · cases h
      exact takesOut_none hlock

/-- The walk of the timer. -/
theorem retransmitLocked_spec {nearest : ℕ} (h : retransmitLocked s task env = some (nearest, s')) :
    s'.sendList = (retransmitLoop env.uptime 0 s.sendList 0).1 ∧ s'.allocs = s.allocs ∧
      s'.log = s.log ++ (retransmitLoop env.uptime 0 s.sendList 0).2.1 ∧
      nearest = (retransmitLoop env.uptime 0 s.sendList 0).2.2 := by
  unfold retransmitLocked at h
  split at h
  · cases h
  · next s₁ hlock =>
    obtain ⟨-, hlist, hallocs, hlog⟩ := transportLock_spec hlock
    obtain ⟨hl, ha, hlog'⟩ := transportUnlock_fields
      (TransportState.record { s₁ with sendList := (retransmitLoop env.uptime 0 s₁.sendList 0).1 }
        (retransmitLoop env.uptime 0 s₁.sendList 0).2.1) task
    cases h
    refine ⟨?_, ?_, ?_, ?_⟩
    · rw [hl, TransportState.record, hlist]
    · rw [ha, TransportState.record, hallocs]
    · rw [hlog', TransportState.record, hlist, hlog]
    · rw [hlist]

end Locked

/-! ## Tasks -/

/-- The message whose first transmission a task has yet to make, and its tid. -/
def toSend : TransportPc → Option (ℕ × UInt8)
  | .checkTimer id msg => some (id, msg.tid)
  | .modelSend (some id) msg => some (id, msg.tid)
  | _ => none

/-- The messages whose first transmission is to come. -/
def Unsent (t : TransportTasks) : Set ℕ := {id | ∃ task tid, toSend (t.pc task) = some (id, tid)}

/-- What a sender found out before it took the mutex still holds, and no message is removed before
its first transmission. -/
def SendUndisturbed (t : TransportTasks) (a : TransportTaskAct) : Prop :=
  a.move = .go →
    match t.pc a.task with
    | .appendLock msg => t.shared.sendList.length < vendorSendMsgMax ∧
        ∀ node ∈ t.shared.sendList, node.msg.tid ≠ msg.tid
    | .removeLock msg =>
      ∀ node, genieTransportFindByTid t.shared msg.tid = some node → node.id ∉ Unsent t
    | .ackLock tid => ∀ node, genieTransportFindByTid t.shared tid = some node → node.id ∉ Unsent t
    | .timerLock => GivesUpSent a.env.uptime (Unsent t) 0 t.shared.sendList
    | _ => True

/-- The invariant of a state. A first transmission is for one message in the list, and one
task is to make it. -/
structure TasksInv (t : TransportTasks) : Prop where
  tx : TxInv (Unsent t) t.shared.sendList t.shared.allocs t.shared.log
  listed : ∀ task id tid, toSend (t.pc task) = some (id, tid) →
    ∃ node ∈ t.shared.sendList, node.id = id ∧ node.msg.tid = tid
  single : ∀ task task' id tid tid', toSend (t.pc task) = some (id, tid) →
    toSend (t.pc task') = some (id, tid') → task = task'

section Steps

variable {t t' : TransportTasks} {a : TransportTaskAct} {task : ℕ}
  {r : TransportPc × TransportState}

@[simp] theorem shared_set (t : TransportTasks) (task : ℕ) (r : TransportPc × TransportState) :
    (t.set task r).shared = r.2 := rfl

@[simp] theorem pc_set_self (t : TransportTasks) (task : ℕ) (r : TransportPc × TransportState) :
    (t.set task r).pc task = r.1 := Function.update_self ..

/-- A step of one task leaves the others where they are. -/
theorem pc_set_other (t : TransportTasks) {task task' : ℕ} (r : TransportPc × TransportState)
    (hne : task' ≠ task) : (t.set task r).pc task' = t.pc task' := Function.update_of_ne hne ..

/-- What `TasksInv` asks of a step of `task`: the others find their messages where they were, and its own first
transmission is for a message in the list that nobody else is to transmit. -/
theorem TasksInv.set (hi : TasksInv t)
    (htx : TxInv (Unsent (t.set task r)) r.2.sendList r.2.allocs r.2.log)
    (hothers : ∀ task', task' ≠ task → ∀ id tid, toSend (t.pc task') = some (id, tid) →
      ∃ node ∈ r.2.sendList, node.id = id ∧ node.msg.tid = tid)
    (hself : ∀ id tid, toSend r.1 = some (id, tid) →
      (∃ node ∈ r.2.sendList, node.id = id ∧ node.msg.tid = tid) ∧
        ∀ task', task' ≠ task → ∀ tid', toSend (t.pc task') ≠ some (id, tid')) :
    TasksInv (t.set task r) := by
  refine ⟨htx, ?_, ?_⟩
  · intro task' id tid hun
    by_cases heq : task' = task
    · rw [heq, pc_set_self] at hun
      exact (hself id tid hun).1
    · rw [pc_set_other t r heq] at hun
      exact hothers task' heq id tid hun
  · intro task₁ task₂ id tid tid' h₁ h₂
    by_cases heq₁ : task₁ = task
    · by_cases heq₂ : task₂ = task
      · rw [heq₁, heq₂]
      · rw [heq₁, pc_set_self] at h₁
        rw [pc_set_other t r heq₂] at h₂
        exact absurd h₂ ((hself id tid h₁).2 task₂ heq₂ tid')
    · rw [pc_set_other t r heq₁] at h₁
      by_cases heq₂ : task₂ = task
      · rw [heq₂, pc_set_self] at h₂
        exact absurd h₁ ((hself id tid' h₂).2 task₁ heq₁ tid)
      · rw [pc_set_other t r heq₂] at h₂
        exact hi.single task₁ task₂ id tid tid' h₁ h₂

/-- The first transmissions to come after a step of `task`: its own, and those of the others. -/
theorem mem_unsent_set {id : ℕ} : id ∈ Unsent (t.set task r) ↔
    (∃ tid, toSend r.1 = some (id, tid)) ∨
      ∃ task', task' ≠ task ∧ ∃ tid, toSend (t.pc task') = some (id, tid) := by
  constructor
  · rintro ⟨task', tid, hun⟩
    by_cases heq : task' = task
    · rw [heq, pc_set_self] at hun
      exact .inl ⟨tid, hun⟩
    · rw [pc_set_other t r heq] at hun
      exact .inr ⟨task', heq, tid, hun⟩
  · rintro (⟨tid, hun⟩ | ⟨task', hne, tid, hun⟩)
    · exact ⟨task, tid, by rw [pc_set_self]; exact hun⟩
    · exact ⟨task', tid, by rw [pc_set_other t r hne]; exact hun⟩

/-- A step after which the same first transmissions are to come. -/
theorem TasksInv.set_same (hi : TasksInv t) (hpc : toSend r.1 = toSend (t.pc task))
    (htx : TxInv (Unsent t) r.2.sendList r.2.allocs r.2.log)
    (hkeep : ∀ node ∈ t.shared.sendList, node.id ∈ Unsent t →
      ∃ node' ∈ r.2.sendList, node'.id = node.id ∧ node'.msg.tid = node.msg.tid) :
    TasksInv (t.set task r) := by
  have hlisted : ∀ task' id tid, toSend (t.pc task') = some (id, tid) →
      ∃ node ∈ r.2.sendList, node.id = id ∧ node.msg.tid = tid := by
    intro task' id tid hun
    obtain ⟨node, hmem, rfl, rfl⟩ := hi.listed task' id tid hun
    exact hkeep node hmem ⟨task', node.msg.tid, hun⟩
  have hset : Unsent (t.set task r) = Unsent t := by
    ext id
    rw [mem_unsent_set, hpc]
    constructor
    · rintro (⟨tid, hun⟩ | ⟨task', -, hun⟩)
      · exact ⟨task, tid, hun⟩
      · exact ⟨task', hun⟩
    · rintro ⟨task', tid, hun⟩
      by_cases heq : task' = task
      · exact .inl ⟨tid, heq ▸ hun⟩
      · exact .inr ⟨task', heq, tid, hun⟩
  refine hi.set (hset.symm ▸ htx) (fun task' _ => hlisted task') ?_
  intro id tid hun
  rw [hpc] at hun
  exact ⟨hlisted task id tid hun, fun task' hne tid' h' => hne (hi.single task' task id tid' tid h' hun)⟩

/-- A step that leaves list and log alone. -/
theorem TasksInv.set_quiet (hi : TasksInv t) (hpc : toSend r.1 = toSend (t.pc task))
    (hl : r.2.sendList = t.shared.sendList) (ha : r.2.allocs = t.shared.allocs)
    (hlog : r.2.log = t.shared.log) : TasksInv (t.set task r) := by
  refine hi.set_same hpc (by rw [hl, ha, hlog]; exact hi.tx) (fun node hmem _ => ?_)
  exact ⟨node, by rw [hl]; exact hmem, rfl, rfl⟩

/-- A message that was transmitted is taken out. -/
theorem TasksInv.takesOut {tid : UInt8} {tail : TransportNode → List TxEvent} (hi : TasksInv t)
    (hpc : toSend r.1 = toSend (t.pc task)) (hout : TakesOut t.shared tid tail r.2)
    (hsent : ∀ node, genieTransportFindByTid t.shared tid = some node → node.id ∉ Unsent t)
    (htail : ∀ node retry k, Ending node.id retry k (tail node)) : TasksInv (t.set task r) := by
  obtain ⟨ha, ⟨hl, hlog⟩ | ⟨l₁, node, l₂, hfind, hsplit, -, hl, hlog⟩⟩ := hout
  · exact hi.set_quiet hpc hl ha hlog
  · have hnode := hsent node hfind
    have htx : TxInv (Unsent t) (l₁ ++ node :: l₂) t.shared.allocs t.shared.log := hsplit ▸ hi.tx
    refine hi.set_same hpc ?_ ?_
    · rw [hl, ha, hlog]
      exact htx.remove hnode _ fun retry k _ => htail node retry k
    · intro other hmem hwaits
      refine ⟨other, ?_, rfl, rfl⟩
      rw [hsplit] at hmem
      rw [hl]
      rcases List.mem_append.1 hmem with h | h
      · exact List.mem_append_left _ h
      · rcases List.mem_cons.1 h with rfl | h
        · exact absurd hwaits hnode
        · exact List.mem_append_right _ h

/-- A message is appended, and its sender is to transmit it. -/
theorem TasksInv.append {env : TransportEnv} {msg : TransportMsg} {id : Option ℕ}
    {s' : TransportState} (hi : TasksInv t) (hpc : toSend (t.pc task) = none)
    (hm : env.mallocOk = true) (hroom : t.shared.sendList.length < vendorSendMsgMax)
    (htid : ∀ node ∈ t.shared.sendList, node.msg.tid ≠ msg.tid)
    (h : transportAppendLocked t.shared task env msg = some (id, s')) :
    ∃ i, id = some i ∧ TasksInv (t.set task (.checkTimer i msg, s')) := by
  obtain ⟨node, rfl, hid, hleft, hnt, hl, ha, hlog⟩ := appendLocked_spec hm h
  refine ⟨node.id, rfl, ?_⟩
  have hold : ∀ task' id tid, toSend (t.pc task') = some (id, tid) → id < node.id := by
    intro task' id tid hun
    obtain ⟨other, hmem, rfl, -⟩ := hi.listed task' id tid hun
    rw [hid]
    exact hi.tx.lt_allocs other hmem
  have hset : Unsent (t.set task (.checkTimer node.id msg, s')) = insert node.id (Unsent t) := by
    ext id
    rw [mem_unsent_set, Set.mem_insert_iff]
    constructor
    · rintro (⟨tid, hun⟩ | ⟨task', -, hun⟩)
      · cases hun
        exact .inl rfl
      · exact .inr ⟨task', hun⟩
    · rintro (rfl | ⟨task', tid, hun⟩)
      · exact .inl ⟨msg.tid, rfl⟩
      · refine .inr ⟨task', ?_, tid, hun⟩
        rintro rfl
        rw [hpc] at hun
        cases hun
  refine hi.set ?_ ?_ ?_
  · have htx : TxInv (Unsent t) t.shared.sendList node.id t.shared.log := hid ▸ hi.tx
    rw [hset, hl, ha, hlog]
    exact htx.append hroom hleft fun other hmem => hnt ▸ htid other hmem
  · intro task' _ id tid hun
    rw [hl]
    obtain ⟨other, hmem, hsame⟩ := hi.listed task' id tid hun
    exact ⟨other, List.mem_append_left _ hmem, hsame⟩
  · intro id tid hun
    cases hun
    exact ⟨⟨node, by simp [hl], rfl, hnt⟩, fun task' _ tid' hun => lt_irrefl _ (hold task' _ tid' hun)⟩

/-- A message is transmitted for the first time. -/
theorem TasksInv.firstSend {id : ℕ} {msg : TransportMsg} (hi : TasksInv t)
    (hpc : t.pc task = .modelSend (some id) msg) :
    TasksInv (t.set task (.idle, t.shared.record [.transmit (some id) msg.tid])) := by
  have hmine : toSend (t.pc task) = some (id, msg.tid) := by
    rw [hpc]
    rfl
  obtain ⟨node, hmem, rfl, hnt⟩ := hi.listed task id msg.tid hmine
  obtain ⟨l₁, l₂, hsplit⟩ := List.append_of_mem hmem
  have hset : ∀ i, i ∈ Unsent (t.set task (.idle, t.shared.record [.transmit (some node.id) msg.tid])) ↔
      i ∈ Unsent t ∧ i ≠ node.id := by
    intro i
    rw [mem_unsent_set]
    constructor
    · rintro (⟨tid, hun⟩ | ⟨task', hne, tid, hun⟩)
      · cases hun
      · refine ⟨⟨task', tid, hun⟩, ?_⟩
        rintro rfl
        exact hne (hi.single task' task _ tid msg.tid hun hmine)
    · rintro ⟨⟨task', tid, hun⟩, hne⟩
      refine .inr ⟨task', ?_, tid, hun⟩
      rintro rfl
      rw [hmine] at hun
      cases hun
      exact hne rfl
  have htx : TxInv (Unsent t) (l₁ ++ node :: l₂) t.shared.allocs t.shared.log := hsplit ▸ hi.tx
  refine hi.set ?_ ?_ ?_
  · have hl : (t.shared.record [.transmit (some node.id) msg.tid]).sendList = l₁ ++ node :: l₂ := hsplit
    have hlog : (t.shared.record [.transmit (some node.id) msg.tid]).log =
        t.shared.log ++ [.transmit (some node.id) node.msg.tid] := by
      rw [hnt]
      rfl
    rw [hl, hlog]
    refine htx.transmit node rfl rfl ?_ ?_
    · intro other hother
      rw [hset]
      exact ⟨fun h => h.1, fun h => ⟨h, htx.ids_ne other hother⟩⟩
    · intro retry k _ hwaits
      have hsum := hwaits ⟨task, msg.tid, hmine⟩
      exact ⟨fun _ => by omega, fun hin => absurd rfl ((hset node.id).1 hin).2⟩
  · intro task' _ i tid hun
    exact hi.listed task' i tid hun
  · intro i tid hun
    cases hun

end Steps

section Runs

variable {t t' : TransportTasks} {a : TransportTaskAct} {task : ℕ}

/-- A call starts outside the mutex and leaves the list alone. -/
theorem transportEnter_quiet (s : TransportState) (env : TransportEnv) (entry : TransportEntry) :
    toSend (transportEnter s env entry).1 = none ∧
      (transportEnter s env entry).2.sendList = s.sendList ∧
      (transportEnter s env entry).2.allocs = s.allocs ∧
      (transportEnter s env entry).2.log = s.log := by
  have hpc : ∀ (p : Prop) [Decidable p] (q : TransportPc), toSend q = none →
      toSend (if p then .idle else q) = none := by
    intro p _ q hq
    split
    · rfl
    · exact hq
  cases entry with
  | sendModel msg =>
    unfold transportEnter
    dsimp only
    by_cases hbad : msg.data = [] ∨ env.provisioned = false
    · rw [if_pos hbad]
      exact ⟨rfl, rfl, rfl, rfl⟩
    · rw [if_neg hbad]
      by_cases hop : msg.opid ∈ transportOps
      · rw [if_pos hop]
        by_cases htid : msg.tid = 0
        · rw [if_pos htid]
          exact ⟨hpc _ _ rfl, rfl, rfl, rfl⟩
        · rw [if_neg htid]
          exact ⟨hpc _ _ rfl, rfl, rfl, rfl⟩
      · rw [if_neg hop]
        exact ⟨rfl, rfl, rfl, rfl⟩
  | ack tid => exact ⟨hpc _ _ rfl, rfl, rfl, rfl⟩
  | retransmitTimerCb => exact ⟨rfl, rfl, rfl, rfl⟩

/-- A task that goes on to append has nothing to transmit yet. -/
theorem toSend_afterRemove (msg : TransportMsg) : toSend (afterRemove msg) = none := by
  unfold afterRemove
  split <;> rfl

/-- A message that is replaced comes to its end. -/
theorem replacedTail_ending (node : TransportNode) (retry k : ℕ) :
    Ending node.id retry k (replacedTail node) := .inl rfl

/-- So does one that is acknowledged. -/
theorem ackedTail_ending (node : TransportNode) (retry k : ℕ) :
    Ending node.id retry k (ackedTail node) := by
  unfold ackedTail
  split
  · exact .inr (.inl rfl)
  · exact .inl rfl

/-- The timer. -/
theorem TasksInv.walk {env : TransportEnv} {r : ℕ × TransportState} (hi : TasksInv t)
    (hpc : toSend (t.pc task) = none) (hsent : GivesUpSent env.uptime (Unsent t) 0 t.shared.sendList)
    (h : retransmitLocked t.shared task env = some r) :
    TasksInv (t.set task (.timerStart r.1, r.2)) := by
  obtain ⟨hl, ha, hlog, -⟩ := retransmitLocked_spec h
  refine hi.set_same hpc.symm ?_ ?_
  · dsimp only
    rw [hl, ha, hlog]
    exact retransmitLoop_inv env.uptime t.shared.sendList [] 0 0 _ hsent hi.tx
  · intro node hmem hwaits
    dsimp only
    rw [hl]
    exact retransmitLoop_keeps env.uptime t.shared.sendList 0 0 hsent node hmem hwaits

/-- How a step changes the list and the log, and where it leaves the task: what it does under the mutex or in the air,
or nothing that the history tells of. -/
inductive TaskChange (t : TransportTasks) (a : TransportTaskAct) : TransportPc × TransportState → Prop
  | quiet {r : TransportPc × TransportState} (hpc : toSend r.1 = toSend (t.pc a.task))
      (hlist : r.2.sendList = t.shared.sendList) (hallocs : r.2.allocs = t.shared.allocs)
      (hlog : r.2.log = t.shared.log) : TaskChange t a r
  | replaced {msg : TransportMsg} {s : TransportState} (hgo : a.move = .go) (hpc : t.pc a.task = .removeLock msg)
      (hout : TakesOut t.shared msg.tid replacedTail s) : TaskChange t a (afterRemove msg, s)
  | appended {msg : TransportMsg} {id : ℕ} {s : TransportState} (hgo : a.move = .go)
      (hpc : t.pc a.task = .appendLock msg)
      (happ : transportAppendLocked t.shared a.task a.env msg = some (some id, s)) :
      TaskChange t a (.checkTimer id msg, s)
  | sent {msg : TransportMsg} {id : Option ℕ} (hpc : t.pc a.task = .modelSend id msg) :
      TaskChange t a (.idle, t.shared.record [.transmit id msg.tid])
  | acked {tid : UInt8} {s : TransportState} (hgo : a.move = .go) (hpc : t.pc a.task = .ackLock tid)
      (hout : TakesOut t.shared tid ackedTail s) : TaskChange t a (.idle, s)
  | walked {r : ℕ × TransportState} (hgo : a.move = .go) (hpc : t.pc a.task = .timerLock)
      (hwalk : retransmitLocked t.shared a.task a.env = some r) : TaskChange t a (.timerStart r.1, r.2)

/-- Every step is one of these. -/
theorem taskStep_change (hm : a.env.mallocOk = true) (h : transportTaskStep t a = some t') :
    ∃ r, t' = t.set a.task r ∧ TaskChange t a r := by
  obtain ⟨task, env, move⟩ := a
  unfold transportTaskStep at h
  cases move with
  | enter entry =>
    dsimp only at h
    split at h
    · next hidle =>
      cases h
      obtain ⟨hpc, hl, ha, hlog⟩ := transportEnter_quiet t.shared env entry
      refine ⟨_, rfl, .quiet ?_ hl ha hlog⟩
      rw [hpc, hidle]
      rfl
    · cases h
  | go =>
    dsimp only at h hm
    obtain ⟨r, hgo, rfl⟩ := Option.map_eq_some_iff.1 h
    refine ⟨r, rfl, ?_⟩
    cases hpc : t.pc task with
    | idle => simp [hpc, transportGo] at hgo
    | findByTid msg =>
      rw [hpc] at hgo
      cases hgo
      refine .quiet ?_ rfl rfl rfl
      rw [hpc]
      split
      · rfl
      · exact toSend_afterRemove msg
    | removeTest msg =>
      rw [hpc] at hgo
      cases hgo
      refine .quiet ?_ rfl rfl rfl
      rw [hpc]
      split
      · exact toSend_afterRemove msg
      · rfl
    | removeLock msg =>
      rw [hpc] at hgo
      obtain ⟨s', hremove, rfl⟩ := Option.map_eq_some_iff.1 hgo
      exact .replaced rfl hpc (removeLocked_takesOut hremove)
    | appendTest msg =>
      rw [hpc] at hgo
      cases hgo
      refine .quiet ?_ rfl rfl rfl
      rw [hpc]
      split <;> rfl
    | appendLock msg =>
      rw [hpc] at hgo
      simp only [transportGo] at hgo
      cases happ : transportAppendLocked t.shared task env msg with
      | none => simp [happ] at hgo
      | some r' =>
        obtain ⟨id, s'⟩ := r'
        obtain ⟨node, rfl, -⟩ := appendLocked_spec hm happ
        rw [happ] at hgo
        cases hgo
        exact .appended rfl hpc happ
    | checkTimer id msg =>
      rw [hpc] at hgo
      cases hgo
      obtain ⟨hl, ha, hlog⟩ := checkRetryTimer_fields t.shared msg.retryPeriod
      refine .quiet ?_ hl ha hlog
      rw [hpc]
      rfl
    | modelSend id msg =>
      rw [hpc] at hgo
      cases hgo
      exact .sent hpc
    | ackLock tid =>
      rw [hpc] at hgo
      obtain ⟨s', hack, rfl⟩ := Option.map_eq_some_iff.1 hgo
      exact .acked rfl hpc (ackLocked_takesOut hack)
    | timerLock =>
      rw [hpc] at hgo
      obtain ⟨r', hwalk, rfl⟩ := Option.map_eq_some_iff.1 hgo
      exact .walked rfl hpc hwalk
    | timerStart nearest =>
      rw [hpc] at hgo
      cases hgo
      refine .quiet ?_ rfl rfl rfl
      rw [hpc]
      rfl

/-- **A step.** It keeps the invariant as long as nobody disturbs it. -/
theorem TasksInv.step (hi : TasksInv t) (hm : a.env.mallocOk = true) (hund : SendUndisturbed t a)
    (h : transportTaskStep t a = some t') : TasksInv t' := by
  obtain ⟨r, rfl, hr⟩ := taskStep_change hm h
  cases hr with
  | quiet hpc hlist hallocs hlog => exact hi.set_quiet hpc hlist hallocs hlog
  | @replaced msg s hgo hpc hout =>
    have hsent := hund hgo
    rw [hpc] at hsent
    refine hi.takesOut ?_ hout hsent replacedTail_ending
    rw [hpc]
    exact toSend_afterRemove msg
  | appended hgo hpc happ =>
    have hfree := hund hgo
    rw [hpc] at hfree
    obtain ⟨i, hid, hinv⟩ := hi.append (by rw [hpc]; rfl) hm hfree.1 hfree.2 happ
    cases hid
    exact hinv
  | @sent msg id hpc =>
    cases id with
    | none =>
      refine hi.set_same ?_ (hi.tx.transmitUnlisted msg.tid) fun node hmem _ => ⟨node, hmem, rfl, rfl⟩
      rw [hpc]
      rfl
    | some id => exact hi.firstSend hpc
  | acked hgo hpc hout =>
    have hsent := hund hgo
    rw [hpc] at hsent
    refine hi.takesOut ?_ hout hsent ackedTail_ending
    rw [hpc]
    rfl
  | walked hgo hpc hwalk =>
    have hsent := hund hgo
    rw [hpc] at hsent
    refine hi.walk ?_ hsent hwalk
    rw [hpc]
    rfl

/-- A success in `es` answers an acknowledgement of a message that is listed. -/
def SuccessOnAck (t : TransportTasks) (a : TransportTaskAct) (es : List TxEvent) : Prop :=
  ∀ id, .result id .success ∈ es → ∃ node ∈ t.shared.sendList, node.id = id ∧ a.move = .go ∧
    t.pc a.task = .ackLock node.msg.tid

/-- A removal reports no success, or one to an acknowledgement. -/
theorem TakesOut.log {s s' : TransportState} {tid : UInt8} {tail : TransportNode → List TxEvent}
    (h : TakesOut s tid tail s') :
    ∃ es, s'.log = s.log ++ es ∧
      (es = [] ∨ ∃ node ∈ s.sendList, node.msg.tid = tid ∧ es = tail node) := by
  obtain ⟨-, ⟨-, hlog⟩ | ⟨l₁, node, l₂, -, hsplit, htid, -, hlog⟩⟩ := h
  · exact ⟨[], by rw [hlog, List.append_nil], .inl rfl⟩
  · exact ⟨tail node, hlog, .inr ⟨node, by simp [hsplit], htid, rfl⟩⟩

/-- What a step writes into the log. -/
theorem taskStep_log (hm : a.env.mallocOk = true) (h : transportTaskStep t a = some t') :
    ∃ es, t'.shared.log = t.shared.log ++ es ∧ SuccessOnAck t a es := by
  obtain ⟨r, rfl, hr⟩ := taskStep_change hm h
  have hno : ∀ es, r.2.log = t.shared.log ++ es → (∀ id, .result id .success ∉ es) →
      ∃ es, (t.set a.task r).shared.log = t.shared.log ++ es ∧ SuccessOnAck t a es :=
    fun es hlog hno => ⟨es, hlog, fun id hmem => absurd hmem (hno id)⟩
  cases hr with
  | quiet _ _ _ hlog => exact hno [] (by rw [hlog, List.append_nil]) (by simp)
  | replaced _ _ hout =>
    obtain ⟨es, hlog, hes⟩ := hout.log
    refine hno es hlog ?_
    rcases hes with rfl | ⟨node, -, -, rfl⟩ <;> simp [replacedTail]
  | @appended msg id s hgo hpc happ =>
    obtain ⟨node, -, -, -, -, -, -, hlog⟩ := appendLocked_spec hm happ
    exact hno [.append node.id msg.retry] hlog (by simp)
  | @sent msg id hpc => exact hno [.transmit id msg.tid] rfl (by simp)
  | acked hgo hpc hout =>
    obtain ⟨es, hlog, hes⟩ := hout.log
    refine ⟨es, hlog, fun id hmem => ?_⟩
    rcases hes with rfl | ⟨node, hin, rfl, rfl⟩
    · cases hmem
    · have hid : id = node.id := by
        unfold ackedTail at hmem
        split at hmem <;> simp_all
      exact ⟨node, hin, hid.symm, hgo, hpc⟩
  | walked hgo hpc hwalk =>
    obtain ⟨-, -, hlog, -⟩ := retransmitLocked_spec hwalk
    exact hno _ hlog fun id => retransmitLoop_no_success a.env.uptime id t.shared.sendList 0 0

end Runs

/-! ## A call with no other task in between -/

section Alone

variable {t : TransportTasks} {task : ℕ} {env : TransportEnv} {s s' : TransportState}
  {msg : TransportMsg} {r r₁ r₂ : TransportPc × TransportState}

/-- The last setting of a task counts. -/
theorem set_set (t : TransportTasks) (task : ℕ) (r r₁ : TransportPc × TransportState) :
    (t.set task r).set task r₁ = t.set task r₁ := by
  unfold TransportTasks.set
  rw [Function.update_idem]

/-- The task goes on from one place to another, and no other task does anything. -/
def Reaches (t : TransportTasks) (task : ℕ) (env : TransportEnv) (r r₁ : TransportPc × TransportState) :
    Prop :=
  ∃ n, runSteps transportTaskStep (t.set task r) (List.replicate n ⟨task, env, .go⟩) =
    some (t.set task r₁)

/-- A task is where it is. -/
theorem Reaches.refl (r : TransportPc × TransportState) : Reaches t task env r r := ⟨0, rfl⟩

/-- One step, and then the rest. -/
theorem Reaches.step (hgo : transportGo r.2 task env r.1 = some r₁) (h : Reaches t task env r₁ r₂) :
    Reaches t task env r r₂ := by
  obtain ⟨n, hrun⟩ := h
  refine ⟨n + 1, ?_⟩
  have hstep : transportTaskStep (t.set task r) ⟨task, env, .go⟩ = some (t.set task r₁) := by
    simp only [transportTaskStep, shared_set, pc_set_self, hgo, Option.map_some, set_set]
  rw [List.replicate_succ, runSteps, hstep]
  exact hrun

/-- A task gets on in two parts. -/
theorem Reaches.trans (h : Reaches t task env r r₁) (h' : Reaches t task env r₁ r₂) :
    Reaches t task env r r₂ := by
  obtain ⟨n, hrun⟩ := h
  obtain ⟨k, hrest⟩ := h'
  refine ⟨n + k, ?_⟩
  rw [List.replicate_add, runSteps_append, hrun]
  exact hrest

/-- An older message with the tid is removed. -/
theorem removeOld_alone (h : transportRemoveOld s task msg.tid = some s') :
    Reaches t task env (.findByTid msg, s) (afterRemove msg, s') := by
  unfold transportRemoveOld transportRemoveByTid at h
  refine .step rfl ?_
  split at h
  · next hfound =>
    rw [if_pos hfound]
    refine .step rfl ?_
    split at h
    · next hnil =>
      cases h
      rw [if_pos hnil]
      exact .refl _
    · next hnil =>
      rw [if_neg hnil]
      refine .step ?_ (.refl _)
      rw [transportGo, h]
      rfl
  · next hfound =>
    cases h
    rw [if_neg hfound]
    exact .refl _

/-- The append and the first transmission. -/
theorem firstSend_alone {ret : ℤ} (h : transportFirstSend s task env msg = some (ret, s')) :
    Reaches t task env (afterRemove msg, s) (.idle, s') := by
  unfold transportFirstSend at h
  unfold afterRemove
  split at h
  · next hwants =>
    rw [if_pos hwants]
    refine .step rfl ?_
    unfold genieTransportAppendMesg at h
    by_cases hfull : vendorSendMsgMax ≤ s.sendList.length
    · rw [if_pos hfull] at h ⊢
      cases h
      exact .step rfl (.refl _)
    · rw [if_neg hfull] at h ⊢
      cases happ : transportAppendLocked s task env msg with
      | none => simp [happ] at h
      | some p =>
        obtain ⟨id, s₁⟩ := p
        rw [happ] at h
        cases id with
        | none =>
          cases h
          have hgo : transportGo s task env (.appendLock msg) = some (.modelSend none msg, s₁) := by
            rw [transportGo, happ]
          exact .step hgo (.step rfl (.refl _))
        | some id =>
          cases h
          have hgo : transportGo s task env (.appendLock msg) = some (.checkTimer id msg, s₁) := by
            rw [transportGo, happ]
          exact .step hgo (.step rfl (.step rfl (.refl _)))
  · next hwants =>
    rw [if_neg hwants]
    cases h
    exact .step rfl (.refl _)

/-- A send under a known tid. -/
theorem sendTid_alone {ret : ℤ} (h : transportSendTid s task env msg = some (ret, s')) :
    Reaches t task env (.findByTid msg, s) (.idle, s') := by
  unfold transportSendTid at h
  split at h
  · cases h
  · next hremove => exact (removeOld_alone hremove).trans (firstSend_alone h)

/-- A send. -/
theorem sendModel_alone {ret : ℤ} (h : genieTransportSendModel s task env msg = some (ret, s')) :
    Reaches t task env (transportEnter s env (.sendModel msg)) (.idle, s') := by
  unfold genieTransportSendModel at h
  unfold transportEnter
  dsimp only
  by_cases hbad : msg.data = [] ∨ env.provisioned = false
  · rw [if_pos hbad] at h ⊢
    cases h
    exact .refl _
  · rw [if_neg hbad] at h ⊢
    by_cases hop : msg.opid ∈ transportOps
    · rw [if_pos hop] at h ⊢
      generalize (if msg.tid = 0 then genieTransportGenTid s env else (msg.tid, s)) = p at h ⊢
      dsimp only at h ⊢
      split at h
      · next hrange =>
        cases h
        rw [if_pos hrange]
        exact .refl _
      · next hrange =>
        rw [if_neg hrange]
        exact sendTid_alone h
    · rw [if_neg hop] at h ⊢
      cases h
      exact .refl _

/-- The call as `transportStep` has it. -/
def callOf : TransportEntry → TransportCall
  | .sendModel msg => .sendModel msg
  | .ack tid => .ack tid
  | .retransmitTimerCb => .retransmitTimerCb

/-- **A call alone.** Where no other task comes in between, the steps of a call do what the whole
call does in `transportStep`. -/
theorem call_alone {entry : TransportEntry} (hidle : t.pc task = .idle)
    (h : transportStep t.shared ⟨task, env, callOf entry⟩ = some s') :
    ∃ n, runSteps transportTaskStep t (⟨task, env, .enter entry⟩ :: List.replicate n ⟨task, env, .go⟩) =
      some ⟨s', t.pc⟩ := by
  have hreach : Reaches t task env (transportEnter t.shared env entry) (.idle, s') := by
    cases entry with
    | sendModel msg =>
      obtain ⟨⟨ret, s₁⟩, hsend, rfl⟩ := Option.map_eq_some_iff.1 h
      exact sendModel_alone hsend
    | ack tid =>
      change genieTransportAck t.shared task tid = some s' at h
      unfold genieTransportAck at h
      unfold transportEnter
      dsimp only
      split at h
      · next hnil =>
        cases h
        rw [if_pos hnil]
        exact .refl _
      · next hnil =>
        rw [if_neg hnil]
        refine .step ?_ (.refl _)
        rw [transportGo, h]
        rfl
    | retransmitTimerCb =>
      change retransmitTimerCb t.shared task env = some s' at h
      unfold retransmitTimerCb at h
      split at h
      · cases h
      · next nearest s₁ hwalk =>
        cases h
        have hgo : transportGo t.shared task env .timerLock = some (.timerStart nearest, s₁) := by
          rw [transportGo, hwalk]
          rfl
        exact .step hgo (.step rfl (.refl _))
  obtain ⟨n, hrun⟩ := hreach
  have hstep : transportTaskStep t ⟨task, env, .enter entry⟩ =
      some (t.set task (transportEnter t.shared env entry)) := if_pos hidle
  have hpc : t.set task (.idle, s') = ⟨s', t.pc⟩ := by
    rw [TransportTasks.set, ← hidle, Function.update_eq_self]
  exact ⟨n, by rw [runSteps, hstep, ← hpc]; exact hrun⟩

end Alone

/-! ## The course of a message -/

/-- The course of a message that has been appended, ended or not. -/
def Course (id retry : ℕ) (h : List TxEvent) : Prop :=
  ∃ k tid tail, h = underway id retry k tid ++ tail ∧ k ≤ txLimit retry ∧
    (tail = [] ∨ Ending id retry k tail)

/-- Every message has a course or no history at all. -/
theorem TxInv.course {unsent : Set ℕ} {nodes : List TransportNode} {allocs : ℕ} {log : List TxEvent}
    (hi : TxInv unsent nodes allocs log) (id : ℕ) :
    history id log = [] ∨ ∃ retry, Course id retry (history id log) := by
  by_cases hin : ∃ node ∈ nodes, node.id = id
  · obtain ⟨node, hmem, rfl⟩ := hin
    obtain ⟨retry, k, hh, hsent, hwaits⟩ := hi.listed node hmem
    have hk : k ≤ txLimit retry := by
      by_cases hin : node.id ∈ unsent
      · have hsum := hwaits hin
        omega
      · have hsum := hsent hin
        omega
    exact .inr ⟨retry, k, node.msg.tid, [], by simp [hh], hk, .inl rfl⟩
  · rcases hi.gone id (fun node hmem heq => hin ⟨node, hmem, heq⟩) with hnil | hend
    · exact .inl hnil
    · obtain ⟨retry, k, tid, tail, hh, hk, htail⟩ := hend
      exact .inr ⟨retry, k, tid, tail, hh, hk, .inr htail⟩

/-- The history of a message has all events about it. -/
theorem mem_history {id : ℕ} {log : List TxEvent} {e : TxEvent} (h : TxEvent.about id e = true) :
    e ∈ history id log ↔ e ∈ log := by
  simp [history, h]

/-- What is counted of one message is counted in its history. -/
theorem countP_history {id : ℕ} {p : TxEvent → Bool} (log : List TxEvent)
    (hp : ∀ e, p e = true → TxEvent.about id e = true) :
    (history id log).countP p = log.countP p := by
  rw [history, List.countP_filter]
  refine List.countP_congr (fun e _ => ?_)
  simp only [Bool.and_eq_true, and_iff_left_iff_imp]
  exact hp e

/-- A transmission is about its message. -/
theorem sends_about {id : ℕ} (e : TxEvent) (h : TxEvent.sends id e = true) :
    TxEvent.about id e = true := by
  cases e <;> simp_all [TxEvent.sends, TxEvent.about]

/-- So is a report. -/
theorem reports_about {id : ℕ} (e : TxEvent) (h : TxEvent.reports id e = true) :
    TxEvent.about id e = true := by
  cases e <;> simp_all [TxEvent.reports, TxEvent.about]

/-- A message under way was transmitted as often as counted. -/
theorem countP_sends_underway (id retry k : ℕ) (tid : UInt8) :
    (underway id retry k tid).countP (TxEvent.sends id) = k := by
  simp [underway, TxEvent.sends, List.countP_replicate]

/-- At its end nothing is transmitted. -/
theorem Ending.countP_sends {id retry k : ℕ} {tail : List TxEvent} (h : Ending id retry k tail) :
    tail.countP (TxEvent.sends id) = 0 := by
  rcases h with rfl | rfl | ⟨rfl, -⟩ <;> simp [TxEvent.sends]

/-- A message that was appended has the course of its append. -/
theorem TxInv.course_of_append {unsent : Set ℕ} {nodes : List TransportNode} {allocs id retry : ℕ}
    {log : List TxEvent} (hi : TxInv unsent nodes allocs log) (h : .append id retry ∈ log) :
    Course id retry (history id log) := by
  have hmem : TxEvent.append id retry ∈ history id log :=
    (mem_history (by simp [TxEvent.about])).2 h
  rcases hi.course id with hnil | ⟨retry', hcourse⟩
  · simp [hnil] at hmem
  · have hretry : retry = retry' := by
      obtain ⟨k, tid, tail, hh, -, htail⟩ := hcourse
      rw [hh] at hmem
      rcases htail with rfl | rfl | rfl | ⟨rfl, -⟩ <;> simpa [underway] using hmem
    rw [hretry]
    exact hcourse

/-- A message is transmitted as often as allowed at most. -/
theorem Course.countP_sends_le {id retry : ℕ} {h : List TxEvent} (hc : Course id retry h) :
    h.countP (TxEvent.sends id) ≤ txLimit retry := by
  obtain ⟨k, tid, tail, rfl, hk, htail⟩ := hc
  have hzero : tail.countP (TxEvent.sends id) = 0 := by
    rcases htail with rfl | htail
    · rfl
    · exact htail.countP_sends
  rw [List.countP_append, countP_sends_underway, hzero]
  omega

/-- And reported once at most. -/
theorem Course.countP_reports_le {id retry : ℕ} {h : List TxEvent} (hc : Course id retry h) :
    h.countP (TxEvent.reports id) ≤ 1 := by
  obtain ⟨k, tid, tail, rfl, -, htail⟩ := hc
  rcases htail with rfl | rfl | rfl | ⟨rfl, -⟩ <;>
    simp [underway, TxEvent.reports, List.countP_replicate]

/-- An event that no message meets underway stands in the ending. -/
theorem Course.split {id retry : ℕ} {h₁ h₂ : List TxEvent} {e : TxEvent}
    (hc : Course id retry (h₁ ++ e :: h₂)) (hsend : TxEvent.sends id e = false)
    (happ : e ≠ .append id retry) :
    ∃ k tid tail, h₁ = underway id retry k tid ++ tail ∧
      Ending id retry k (tail ++ e :: h₂) := by
  obtain ⟨k, tid, tail, hh, -, htail⟩ := hc
  have hnot : e ∉ underway id retry k tid := by
    intro hmem
    rcases List.mem_cons.1 hmem with heq | hrep
    · exact happ heq
    · rw [List.eq_of_mem_replicate hrep] at hsend
      simp [TxEvent.sends] at hsend
  rcases List.append_eq_append_iff.1 hh with ⟨mid, hunder, hrest⟩ | ⟨mid, hunder, hrest⟩
  · cases mid with
    | nil =>
      simp only [List.append_nil, List.nil_append] at hunder hrest
      refine ⟨k, tid, [], by simp [hunder], ?_⟩
      rcases htail with rfl | htail
      · simp at hrest
      · rw [List.nil_append, hrest]
        exact htail
    | cons x mid =>
      obtain ⟨rfl, -⟩ : e = x ∧ h₂ = mid ++ tail := by simpa using hrest
      exact absurd (by simp [hunder]) hnot
  · refine ⟨k, tid, mid, hunder, ?_⟩
    rcases htail with rfl | htail
    · simp at hrest
    · rw [← hrest]
      exact htail

/-- At the report of a timeout every transmission has been made. -/
theorem Course.timeout_split {id retry : ℕ} {h₁ h₂ : List TxEvent}
    (hc : Course id retry (h₁ ++ .result id .timeout :: h₂)) :
    h₁.countP (TxEvent.sends id) = txLimit retry := by
  obtain ⟨k, tid, tail, rfl, hend⟩ := hc.split rfl (by simp)
  rcases hend with heq | heq | ⟨heq, hk⟩
  · rcases tail with _ | ⟨x, _ | ⟨y, tail⟩⟩ <;> simp at heq
  · rcases tail with _ | ⟨x, _ | ⟨y, tail⟩⟩ <;> simp at heq
  · have htail : tail = [] := by
      rcases tail with _ | ⟨x, _ | ⟨y, tail⟩⟩
      · rfl
      · simp at heq
      · simp at heq
    rw [htail, List.append_nil, countP_sends_underway, hk]

/-- The removal is the last event of a message. -/
theorem Course.remove_split {id retry : ℕ} {h₁ h₂ : List TxEvent}
    (hc : Course id retry (h₁ ++ .remove id :: h₂)) : h₂ = [] := by
  obtain ⟨k, tid, tail, -, hend⟩ := hc.split rfl (by simp)
  have hlast : ∀ tail' : List TxEvent, (∀ e ∈ tail', e ≠ .remove id) →
      tail ++ .remove id :: h₂ = tail' ++ [.remove id] → h₂ = [] := by
    intro tail' hne heq
    rcases List.append_eq_append_iff.1 heq with ⟨mid, hmid, hrest⟩ | ⟨mid, hmid, hrest⟩
    · rcases mid with _ | ⟨x, mid⟩
      · simpa using hrest
      · have hx : TxEvent.remove id = x := (List.cons.inj hrest).1
        exact absurd hx.symm (hne x (by simp [hmid]))
    · rcases mid with _ | ⟨x, mid⟩
      · simpa using hrest.symm
      · simp at hrest
  rcases hend with heq | heq | ⟨heq, -⟩
  · exact hlast [] (by simp) heq
  · exact hlast [.result id .success] (by simp) heq
  · exact hlast [.result id .timeout] (by simp) heq

/-- A message is listed until its removal. -/
theorem TxInv.listed_iff {unsent : Set ℕ} {nodes : List TransportNode} {allocs id retry : ℕ}
    {log : List TxEvent} (hi : TxInv unsent nodes allocs log) (h : .append id retry ∈ log) :
    (∃ node ∈ nodes, node.id = id) ↔ .remove id ∉ log := by
  have habout : TxEvent.about id (.remove id) = true := by simp [TxEvent.about]
  rw [← mem_history habout]
  constructor
  · rintro ⟨node, hmem, rfl⟩
    obtain ⟨retry', k, hh, -⟩ := hi.listed node hmem
    simp [hh, underway]
  · intro hnot
    by_contra hgone
    rcases hi.gone id (fun node hmem heq => hgone ⟨node, hmem, heq⟩) with hnil | hend
    · have hmem : TxEvent.append id retry ∈ history id log :=
        (mem_history (by simp [TxEvent.about])).2 h
      simp [hnil] at hmem
    · obtain ⟨retry', k, tid, tail, hh, -, rfl | rfl | ⟨rfl, -⟩⟩ := hend <;>
        exact hnot (by simp [hh])

/-- The invariant holds at the start. -/
theorem tasksInv_init : TasksInv transportTasksInit where
  tx :=
    { tids := List.nodup_nil
      ids := List.nodup_nil
      size := Nat.zero_le _
      listed := List.forall_mem_nil _
      fresh := fun _ _ => rfl
      gone := fun _ _ => .inl rfl }
  listed := fun _ _ _ h => by cases h
  single := fun _ _ _ _ _ h => by cases h

/-- What is wanted of the transport: the listed tids are distinct and the list is bounded; a message
is transmitted at most once more than its retries, is listed exactly until it is removed, and is not
transmitted after that; its result is reported at most once, as a timeout only after every
transmission was made, and as a success only on an acknowledgement of its tid while it is listed. -/
structure RetransmissionSafe (t : TransportTasks) : Prop where
  tids : (t.shared.sendList.map fun node => node.msg.tid).Nodup
  size : t.shared.sendList.length ≤ vendorSendMsgMax
  sends : ∀ id retry, .append id retry ∈ t.shared.log →
    t.shared.log.countP (TxEvent.sends id) ≤ 1 + min retry vendorModelMsgMaxRetryTimes
  listed : ∀ id retry, .append id retry ∈ t.shared.log →
    ((∃ node ∈ t.shared.sendList, node.id = id) ↔ .remove id ∉ t.shared.log)
  timeouts : ∀ id retry l₁ l₂, .append id retry ∈ t.shared.log →
    t.shared.log = l₁ ++ .result id .timeout :: l₂ →
      l₁.countP (TxEvent.sends id) = 1 + min retry vendorModelMsgMaxRetryTimes
  reports : ∀ id, t.shared.log.countP (TxEvent.reports id) ≤ 1
  removed : ∀ id l₁ l₂, t.shared.log = l₁ ++ .remove id :: l₂ → l₂.countP (TxEvent.sends id) = 0
  successes : ∀ a t', a.env.mallocOk = true → transportTaskStep t a = some t' →
    ∃ es, t'.shared.log = t.shared.log ++ es ∧ SuccessOnAck t a es

/-- The course of each message says it. -/
theorem TasksInv.safe {t : TransportTasks} (hi : TasksInv t) : RetransmissionSafe t where
  tids := hi.tx.tids
  size := hi.tx.size
  sends := by
    intro id retry happ
    rw [← countP_history t.shared.log sends_about]
    exact (hi.tx.course_of_append happ).countP_sends_le
  listed := fun id retry happ => hi.tx.listed_iff happ
  timeouts := by
    intro id retry l₁ l₂ happ hlog
    have hcourse := hi.tx.course_of_append happ
    rw [hlog, history_append] at hcourse
    rw [← countP_history l₁ sends_about]
    have hsplit : history id (.result id .timeout :: l₂) =
        .result id .timeout :: history id l₂ := by
      simp [history, TxEvent.about]
    rw [hsplit] at hcourse
    exact hcourse.timeout_split
  reports := by
    intro id
    rw [← countP_history t.shared.log reports_about]
    rcases hi.tx.course id with hnil | ⟨retry, hcourse⟩
    · simp [hnil]
    · exact hcourse.countP_reports_le
  removed := by
    intro id l₁ l₂ hlog
    have hsplit : history id t.shared.log = history id l₁ ++ .remove id :: history id l₂ := by
      rw [hlog, history_append]
      simp [history, TxEvent.about]
    rw [← countP_history l₂ sends_about]
    rcases hi.tx.course id with hnil | ⟨retry, hcourse⟩
    · simp [hnil] at hsplit
    · rw [hsplit] at hcourse
      rw [hcourse.remove_split]
      rfl
  successes := fun a t' hm h => taskStep_log hm h

/-- **Retransmission safety.** In every run of sends, acknowledgements and timer expiries of any
tasks, with memory for every message, in which what a sender found out before it took the mutex
still holds when it has it, and no message is removed before its first transmission. -/
theorem transport_retransmission_safe (as : List TransportTaskAct) (t : TransportTasks)
    (hmem : ∀ a ∈ as, a.env.mallocOk = true)
    (hmeet : StepsMeet transportTaskStep SendUndisturbed transportTasksInit as)
    (hrun : runSteps transportTaskStep transportTasksInit as = some t) : RetransmissionSafe t := by
  have hboth : StepsMeet transportTaskStep (fun t a => a.env.mallocOk = true ∧ SendUndisturbed t a)
      transportTasksInit as :=
    hmeet.and_forall hmem
  have hi : TasksInv t :=
    runSteps_inv (fun _ _ _ hi h hstep => hi.step h.1 h.2 hstep) tasksInv_init hboth hrun
  exact hi.safe

/-! ## Tasks that meet -/

/-- A task that is in no call makes one. -/
def enters (task : ℕ) (entry : TransportEntry) : TransportTaskAct := ⟨task, sendIndication.env, .enter entry⟩

/-- A task goes on. -/
def goes (task : ℕ) : TransportTaskAct := ⟨task, sendIndication.env, .go⟩

/-- An indication with a tid and two retries. -/
def indication (tid : UInt8) : TransportEntry :=
  .sendModel
    { resultCb := true, retry := 2, opid := vendorOpAttrIndicate, tid := tid, dstAddr := 0xF000
      retryPeriod := 600, data := [0x00, 0x01, 0x01] }

/-- A task that does not act stays where it is. -/
theorem pc_of_run {t t' : TransportTasks} {as : List TransportTaskAct} {task : ℕ}
    (hrun : runSteps transportTaskStep t as = some t') (hother : ∀ a ∈ as, a.task ≠ task) :
    t'.pc task = t.pc task := by
  induction as generalizing t with
  | nil =>
    cases hrun
    rfl
  | cons a as ih =>
    obtain ⟨t₁, hstep, hrest⟩ := runSteps_cons hrun
    rw [ih hrest fun b hb => hother b (List.mem_cons_of_mem a hb)]
    have hne : task ≠ a.task := (hother a List.mem_cons_self).symm
    unfold transportTaskStep at hstep
    split at hstep
    · split at hstep
      · cases hstep
        exact pc_set_other t _ hne
      · cases hstep
    · obtain ⟨r, -, rfl⟩ := Option.map_eq_some_iff.1 hstep
      exact pc_set_other t r hne

/-- Task 1 sends an indication; before its first transmission the timer has resent it once, and then
it is acknowledged. -/
def ackedRun : List TransportTaskAct :=
  [enters 1 (indication 0x85), goes 1, goes 1, goes 1, enters 3 .retransmitTimerCb,
    { goes 3 with env := { sendIndication.env with uptime := fun _ => 700 } }, goes 1, goes 1,
    enters 2 (.ack 0x85)]

/-- The run is undisturbed up to the acknowledgement. -/
theorem ackedRun_undisturbed : StepsMeet transportTaskStep SendUndisturbed transportTasksInit ackedRun := by
  refine ⟨(fun h => by cases h), fun _ h => ?_⟩
  cases h
  refine ⟨fun _ => trivial, fun _ h => ?_⟩
  cases h
  refine ⟨fun _ => trivial, fun _ h => ?_⟩
  cases h
  -- there is room for the message, and its tid is not listed
  refine ⟨fun _ => ⟨by decide, List.forall_mem_nil _⟩, fun _ h => ?_⟩
  cases h
  refine ⟨(fun h => by cases h), fun _ h => ?_⟩
  cases h
  -- the message has retries left
  refine ⟨fun _ i node hi hgiven _ => ?_, fun _ h => ?_⟩
  · cases i with
    | zero =>
      cases hi
      exact absurd hgiven.2 (by decide)
    | succ i => cases hi
  cases h
  refine ⟨fun _ => trivial, fun _ h => ?_⟩
  cases h
  refine ⟨fun _ => trivial, fun _ h => ?_⟩
  cases h
  exact ⟨(fun h => by cases h), fun _ _ => trivial⟩

/-- An indication is transmitted twice, acknowledged, reported and removed. -/
theorem transport_retransmission_safe_acked :
    ∃ t, runSteps transportTaskStep transportTasksInit (ackedRun ++ [goes 2]) = some t ∧
      t.shared.log = [.append 0 2, .transmit (some 0) 0x85, .transmit (some 0) 0x85, .result 0 .success,
        .remove 0] ∧ RetransmissionSafe t := by
  have hmem : ∀ a ∈ ackedRun ++ [goes 2], a.env.mallocOk = true := by decide
  obtain ⟨t, hrun⟩ : ∃ t, runSteps transportTaskStep transportTasksInit ackedRun = some t := ⟨_, rfl⟩
  -- no first transmission is to come when the acknowledgement takes the mutex
  have hnone : ∀ task, toSend (t.pc task) = none := by
    intro task
    by_cases hact : ∀ a ∈ ackedRun, a.task ≠ task
    · rw [pc_of_run hrun hact]
      rfl
    · have htask : task = 1 ∨ task = 2 ∨ task = 3 := by
        simp [ackedRun, enters, goes] at hact
        omega
      cases hrun
      rcases htask with rfl | rfl | rfl <;> rfl
  have hlast : StepsMeet transportTaskStep SendUndisturbed t [goes 2] := by
    cases hrun
    refine ⟨fun _ node _ => ?_, fun _ _ => trivial⟩
    rintro ⟨task, tid, hun⟩
    rw [hnone task] at hun
    cases hun
  have hmeet := ackedRun_undisturbed.append hrun hlast
  cases hrun
  exact ⟨_, rfl, by decide, transport_retransmission_safe _ _ hmem hmeet rfl⟩

/-- Two tasks send under one tid: each finds none listed, and both append. -/
def twoSenders : List TransportTaskAct :=
  [enters 1 (indication 0x85), enters 2 (indication 0x85), goes 1, goes 2, goes 1, goes 2, goes 1, goes 2]

/-- With seven messages listed two tasks find room for one, and both append. -/
def nineMessages : List TransportTaskAct :=
  ((List.range 7).flatMap fun i => enters 1 (indication (UInt8.ofNat (0x80 + i))) :: List.replicate 5 (goes 1)) ++
    [enters 1 (indication 0x90), enters 2 (indication 0x91), goes 1, goes 2, goes 1, goes 2, goes 1, goes 2]

/-- An acknowledgement comes between the append and the first transmission. -/
def earlyAck : List TransportTaskAct :=
  [enters 1 (indication 0x85), goes 1, goes 1, goes 1, enters 2 (.ack 0x85), goes 2, goes 1, goes 1]

/-- A tid is listed twice, nine messages are listed, and a message is transmitted that was removed. -/
theorem transport_retransmission_unsafe :
    (∃ t, runSteps transportTaskStep transportTasksInit twoSenders = some t ∧
      ¬ (t.shared.sendList.map fun node => node.msg.tid).Nodup) ∧
    (∃ t, runSteps transportTaskStep transportTasksInit nineMessages = some t ∧
      t.shared.sendList.length = vendorSendMsgMax + 1) ∧
    (∃ t, runSteps transportTaskStep transportTasksInit earlyAck = some t ∧
      t.shared.log = [.append 0 2, .result 0 .success, .remove 0, .transmit (some 0) 0x85]) ∧
    ∀ a ∈ twoSenders ++ nineMessages ++ earlyAck, a.env.mallocOk = true := by
  refine ⟨⟨_, rfl, by decide⟩, ?_, ⟨_, rfl, by decide⟩, by decide⟩
  have hlength : (runSteps transportTaskStep transportTasksInit nineMessages).map
      (fun t => t.shared.sendList.length) = some (vendorSendMsgMax + 1) := by
    decide +kernel
  obtain ⟨t, hrun, hlen⟩ := Option.map_eq_some_iff.1 hlength
  exact ⟨t, hrun, hlen⟩

end GenieSdk.Analysis
