import GenieSdk.Lib.Runs
import GenieSdk.Model.Friendship

/-!
# The Friend delivers its queue in order

Each poll has the sequence bit `fsn`: a Friend that hears the same bit again sends its last PDU again, and an LPN
changes the bit when it has heard the answer. Requests and answers are lost, and the LPN repeats a request that was
not answered. **The LPN hears the PDUs of the Friend Queue in the order in which they were put there, none of them
twice and none left out** (`friend_delivers`), if a retry waits until nothing is on the way any more, and the
buffers for it and for the Friend's own PDUs are there.
-/

set_option autoImplicit false

namespace GenieSdk.Analysis.FriendQueue

open GenieSdk.Lib GenieSdk.Model

/-! ## What is claimed -/

/-- All PDUs that have come to the Friend Queue, and those that the LPN has heard. -/
structure FriendLog where
  put : List QueuedPdu
  heard : List QueuedPdu

/-- The PDU that the Friend has taken from its queue to send it. -/
def fromQueue (frnd : Friend) : List QueuedPdu :=
  match frnd.last with
  | some (.queued pdu) => [pdu]
  | _ => []

/-- The Friend Update that a poll brings to an empty queue. -/
def ownUpdate (encoded : Option ℕ) (frnd : Friend) : LpnReq → List QueuedPdu
  | .poll fsn =>
    if frnd.pendingBuf = true ∨ fsn = frnd.fsn ∧ frnd.last.isSome ∨ frnd.queue ≠ [] then []
    else (encoded.map (QueuedPdu.update false)).toList
  | .sub _ _ _ => []

/-- What comes to the queue in a step, and which PDU the LPN hears in it. -/
def friendLog (s : Friendship) : FriendshipAct → FriendLog → FriendLog
  | .enqueue pdu, l => { l with put := l.put ++ [pdu] }
  | .friendRecv encoded, l => { l with put := l.put ++ s.air.elim [] (ownUpdate encoded s.frnd) }
  | .bufSendStart heard _, l => if heard then { l with heard := l.heard ++ fromQueue s.frnd } else l
  | _, l => l

/-- Nothing is on the way. -/
def Quiet (s : Friendship) : Prop :=
  s.air = none ∧ s.frnd.pendingReq = false ∧ s.frnd.pendingBuf = false

/-- **The condition.** The LPN repeats a request when nothing is on the way, and a poll only with a buffer; the
advertiser sends what it took, and the Friend can encode its own PDUs. -/
def Timely (s : Friendship) : FriendshipAct → Prop
  | .lpnTimeout _ ok =>
    s.lpn.state = .established → s.lpn.sentReq ≠ .none → Quiet s ∧ (s.lpn.sentReq = .poll → ok.poll = true)
  | .reqSent err => err = false
  | .friendRecv encoded => encoded.isSome = true
  | _ => True

instance (s : Friendship) : Decidable (Quiet s) :=
  inferInstanceAs (Decidable (s.air = none ∧ s.frnd.pendingReq = false ∧ s.frnd.pendingBuf = false))

instance (s : Friendship) : (a : FriendshipAct) → Decidable (Timely s a)
  | .lpnTimeout _ ok => inferInstanceAs (Decidable (s.lpn.state = .established → s.lpn.sentReq ≠ .none →
      Quiet s ∧ (s.lpn.sentReq = .poll → ok.poll = true)))
  | .reqSent err => inferInstanceAs (Decidable (err = false))
  | .friendRecv encoded => inferInstanceAs (Decidable (encoded.isSome = true))
  | .groupAdd _ _ => .isTrue trivial
  | .groupDel _ _ => .isTrue trivial
  | .poll _ => .isTrue trivial
  | .lose => .isTrue trivial
  | .enqueue _ => .isTrue trivial
  | .friendTimeout => .isTrue trivial
  | .bufSendStart _ _ => .isTrue trivial

/-- No request is open, the LPN has heard the answer to its last poll, and the queue holds what it has not heard. -/
structure Ready (s : Friendship) (l : FriendLog) : Prop where
  sentReq : s.lpn.sentReq = .none
  quiet : Quiet s
  sendLast : s.frnd.sendLast = false
  fsn : s.frnd.fsn ≠ s.lpn.fsn
  order : l.heard ++ s.frnd.queue = l.put

/-! ## Where the exchange stands -/

/-- From one request of the LPN to the next. -/
inductive Stage (s : Friendship) : Prop
  | idle (req : s.lpn.sentReq = .none) (quiet : Quiet s) (sendLast : s.frnd.sendLast = false)
      (fsn : s.frnd.fsn ≠ s.lpn.fsn)
  | pollSent (req : s.lpn.sentReq = .poll) (air : s.air = none ∨ s.air = some (.poll s.lpn.fsn))
      (pendingReq : s.frnd.pendingReq = false) (pendingBuf : s.frnd.pendingBuf = false)
      (sendLast : s.frnd.sendLast = false)
      (last : s.frnd.fsn = s.lpn.fsn → ∃ pdu, s.frnd.last = some (.queued pdu))
  | pollHeard (req : s.lpn.sentReq = .poll) (air : s.air = none) (pendingReq : s.frnd.pendingReq = true)
      (pendingBuf : s.frnd.pendingBuf = false) (fsn : s.frnd.fsn = s.lpn.fsn)
      (last : s.frnd.sendLast = true ∧ (∃ pdu, s.frnd.last = some (.queued pdu)) ∨
        s.frnd.sendLast = false ∧ s.frnd.last = none ∧ s.frnd.queue ≠ [])
  | pollAnswered (req : s.lpn.sentReq = .poll) (air : s.air = none) (pendingReq : s.frnd.pendingReq = false)
      (sendLast : s.frnd.sendLast = false) (fsn : s.frnd.fsn = s.lpn.fsn)
      (last : ∃ pdu, s.frnd.last = some (.queued pdu))
  | subSent (op : SubOp) (req : s.lpn.sentReq = .sub op) (air : ∀ fsn, s.air ≠ some (.poll fsn))
      (pendingReq : s.frnd.pendingReq = false) (pendingBuf : s.frnd.pendingBuf = false)
      (sendLast : s.frnd.sendLast = false) (fsn : s.frnd.fsn ≠ s.lpn.fsn)
  | subHeard (op : SubOp) (req : s.lpn.sentReq = .sub op) (air : s.air = none)
      (pendingReq : s.frnd.pendingReq = true) (pendingBuf : s.frnd.pendingBuf = false)
      (sendLast : s.frnd.sendLast = true) (fsn : s.frnd.fsn ≠ s.lpn.fsn)
      (last : ∃ xact, s.frnd.last = some (.subCfm xact))
  | subAnswered (op : SubOp) (req : s.lpn.sentReq = .sub op) (air : s.air = none)
      (pendingReq : s.frnd.pendingReq = false) (sendLast : s.frnd.sendLast = false)
      (fsn : s.frnd.fsn ≠ s.lpn.fsn) (last : ∃ xact, s.frnd.last = some (.subCfm xact))

/-- The PDU that the Friend has taken from its queue and the LPN has not heard: `fsn` is still the LPN's. -/
def waiting (s : Friendship) : List QueuedPdu :=
  if s.frnd.fsn = s.lpn.fsn then fromQueue s.frnd else []

/-- What holds all along. -/
structure Delivers (s : Friendship) (l : FriendLog) : Prop where
  stage : Stage s
  order : l.heard ++ waiting s ++ s.frnd.queue = l.put

variable {s s' s'' : Friendship} {l : FriendLog} {ok : CtlSend}

/-- Such a state is one of the exchange. -/
theorem Ready.delivers (h : Ready s l) : Delivers s l where
  stage := .idle h.sentReq h.quiet h.sendLast h.fsn
  order := by
    rw [waiting, if_neg h.fsn, List.append_nil]
    exact h.order

/-! ## What the LPN sends -/

/-- What the LPN does on its own: it sends a request, if none is open. -/
structure Asks (s s' : Friendship) : Prop where
  frnd : s'.frnd = s.frnd
  fsn : s'.lpn.fsn = s.lpn.fsn
  sent : (s'.lpn.sentReq = s.lpn.sentReq ∧ s'.air = s.air) ∨
    s.lpn.sentReq = .none ∧
      ((s'.lpn.sentReq = .poll ∧ s'.air = some (.poll s.lpn.fsn)) ∨
        ∃ op xact addrList, s'.lpn.sentReq = .sub op ∧ s'.air = some (.sub op xact addrList))

/-- Fields that no request depends on. -/
theorem Asks.of_eq (hfrnd : s'.frnd = s.frnd) (hfsn : s'.lpn.fsn = s.lpn.fsn)
    (hreq : s'.lpn.sentReq = s.lpn.sentReq) (hair : s'.air = s.air) : Asks s s' :=
  ⟨hfrnd, hfsn, Or.inl ⟨hreq, hair⟩⟩

/-- Two things that the LPN does on its own. -/
theorem Asks.trans (h : Asks s s') (h' : Asks s' s'') : Asks s s'' := by
  refine ⟨h'.frnd.trans h.frnd, h'.fsn.trans h.fsn, ?_⟩
  obtain ⟨hreq', hair'⟩ | ⟨hnone', hsent'⟩ := h'.sent
  · rw [hreq', hair']
    exact h.sent
  · obtain ⟨hreq, hair⟩ | ⟨hnone, ⟨hreq, -⟩ | ⟨op, xact, addrList, hreq, -⟩⟩ := h.sent
    · rw [h.fsn] at hsent'
      exact Or.inr ⟨hreq ▸ hnone', hsent'⟩
    · rw [hnone'] at hreq
      cases hreq
    · rw [hnone'] at hreq
      cases hreq

/-- `sub_update` sends one request at most. -/
theorem asks_subUpdate (op : SubOp) : Asks s (subUpdate ok op s) := by
  unfold subUpdate
  split
  · exact Asks.of_eq rfl rfl rfl rfl
  · next hreq =>
      dsimp only
      split
      · exact Asks.of_eq rfl rfl rfl rfl
      · split
        · exact Asks.of_eq rfl rfl rfl rfl
        · exact ⟨rfl, rfl, Or.inr ⟨not_not.1 hreq, Or.inr ⟨op, _, _, rfl, rfl⟩⟩⟩

/-- So does `send_friend_poll`. -/
theorem asks_sendFriendPoll : Asks s (sendFriendPoll ok s) := by
  unfold sendFriendPoll
  split
  · exact Asks.of_eq rfl rfl rfl rfl
  · exact Asks.of_eq rfl rfl rfl rfl
  · next hreq =>
      split
      · exact Asks.of_eq rfl rfl rfl rfl
      · exact ⟨rfl, rfl, Or.inr ⟨hreq, Or.inl ⟨rfl, rfl⟩⟩⟩

/-- So does the update of changed groups. -/
theorem asks_updateChanged (ok : CtlSend) : Asks s (updateChanged ok s) := by
  have hsubs : Asks s (subUpdate ok .rem (subUpdate ok .add s)) := (asks_subUpdate .add).trans (asks_subUpdate .rem)
  unfold updateChanged
  split
  · exact Asks.of_eq rfl rfl rfl rfl
  · dsimp only
    split
    · exact hsubs.trans (Asks.of_eq rfl rfl rfl rfl)
    · exact hsubs

/-- Adding a group to the list sends nothing. -/
theorem asks_groupAdd (group : ℕ) : Asks s { s with lpn := lpnGroupAdd group s.lpn } := by
  unfold lpnGroupAdd
  split
  · exact Asks.of_eq rfl rfl rfl rfl
  · split
    · exact Asks.of_eq rfl rfl rfl rfl
    · exact Asks.of_eq rfl rfl rfl rfl

/-- Nor does deleting groups from it. -/
theorem asks_groupDel (groups : List ℕ) : Asks s { s with lpn := groups.foldl lpnGroupDel s.lpn } := by
  induction groups generalizing s with
  | nil => exact Asks.of_eq rfl rfl rfl rfl
  | cons group groups ih =>
    have hone : Asks s { s with lpn := lpnGroupDel s.lpn group } := Asks.of_eq rfl rfl rfl rfl
    exact hone.trans ih

/-- The exchange goes on when the LPN sends a request. -/
theorem Stage.asks (h : Stage s) (ha : Asks s s') : Stage s' := by
  obtain ⟨hfrnd, hfsn, ⟨hreq, hair⟩ | ⟨hnone, hsent⟩⟩ := ha
  · cases h with
    | idle req quiet sendLast fsn =>
      exact .idle (hreq.trans req) (by rw [Quiet, hair, hfrnd]; exact quiet) (by rw [hfrnd]; exact sendLast)
        (by rw [hfrnd, hfsn]; exact fsn)
    | pollSent req air pendingReq pendingBuf sendLast last =>
      rw [← hfrnd] at pendingReq pendingBuf sendLast last
      rw [← hair, ← hfsn] at air
      rw [← hfsn] at last
      exact .pollSent (hreq.trans req) air pendingReq pendingBuf sendLast last
    | pollHeard req air pendingReq pendingBuf fsn last =>
      rw [← hfrnd] at pendingReq pendingBuf fsn last
      exact .pollHeard (hreq.trans req) (hair.trans air) pendingReq pendingBuf (fsn.trans hfsn.symm) last
    | pollAnswered req air pendingReq sendLast fsn last =>
      rw [← hfrnd] at pendingReq sendLast fsn last
      exact .pollAnswered (hreq.trans req) (hair.trans air) pendingReq sendLast (fsn.trans hfsn.symm) last
    | subSent op req air pendingReq pendingBuf sendLast fsn =>
      rw [← hfrnd] at pendingReq pendingBuf sendLast fsn
      rw [← hair] at air
      rw [← hfsn] at fsn
      exact .subSent op (hreq.trans req) air pendingReq pendingBuf sendLast fsn
    | subHeard op req air pendingReq pendingBuf sendLast fsn last =>
      rw [← hfrnd] at pendingReq pendingBuf sendLast fsn last
      rw [← hfsn] at fsn
      exact .subHeard op (hreq.trans req) (hair.trans air) pendingReq pendingBuf sendLast fsn last
    | subAnswered op req air pendingReq sendLast fsn last =>
      rw [← hfrnd] at pendingReq sendLast fsn last
      rw [← hfsn] at fsn
      exact .subAnswered op (hreq.trans req) (hair.trans air) pendingReq sendLast fsn last
  · -- only an idle LPN sends
    cases h with
    | idle req quiet sendLast fsn =>
      obtain ⟨-, pendingReq, pendingBuf⟩ := quiet
      rw [← hfrnd] at pendingReq pendingBuf sendLast fsn
      rw [← hfsn] at fsn
      obtain ⟨hpoll, hair⟩ | ⟨op, xact, addrList, hsub, hair⟩ := hsent
      · rw [← hfsn] at hair
        exact .pollSent hpoll (Or.inr hair) pendingReq pendingBuf sendLast fun heq => absurd heq fsn
      · refine .subSent op hsub (fun f hf => ?_) pendingReq pendingBuf sendLast fsn
        rw [hair] at hf
        cases hf
    | pollSent req | pollHeard req | pollAnswered req | subSent op req | subHeard op req | subAnswered op req =>
      rw [hnone] at req
      cases req

/-- Nothing happens at the Friend. -/
theorem Delivers.of_frnd (h : Delivers s l) (hfrnd : s'.frnd = s.frnd) (hfsn : s'.lpn.fsn = s.lpn.fsn)
    (hstage : Stage s') : Delivers s' l where
  stage := hstage
  order := by
    have horder := h.order
    unfold waiting at horder ⊢
    rw [hfrnd, hfsn]
    exact horder

/-- And the queue is delivered in order on. -/
theorem Delivers.asks (h : Delivers s l) (ha : Asks s s') : Delivers s' l :=
  h.of_frnd ha.frnd ha.fsn (h.stage.asks ha)

/-- The timer takes an unanswered request back and sends it anew. -/
theorem Delivers.retry (h : Delivers s l) {pollTimeoutMax : ℤ} (hok : Timely s (.lpnTimeout pollTimeoutMax ok))
    (hs : lpnTimeout pollTimeoutMax ok s = some s') : Delivers s' l := by
  unfold lpnTimeout at hs
  split at hs
  · cases hs
    exact h.asks (Asks.of_eq rfl rfl rfl rfl)
  · cases hs
    exact h.asks (Asks.of_eq rfl rfl rfl rfl)
  · next hstate =>
      have hwait := hok hstate
      split at hs
      · dsimp only at hs
        split at hs
        · next hreq =>
            cases hs
            have hsame : Asks s { s with lpn.sentReq := .none } := Asks.of_eq rfl rfl hreq.symm rfl
            exact h.asks (hsame.trans asks_sendFriendPoll)
        · next hreq =>
            cases hs
            obtain ⟨⟨-, hpendingReq, hpendingBuf⟩, hpoll⟩ := hwait (by rw [hreq]; simp)
            have hstage : Stage (sendFriendPoll ok { s with lpn.sentReq := .none }) := by
              rw [sendFriendPoll, if_neg (by simp [hpoll hreq])]
              cases h.stage with
              | pollSent req air pendingReq pendingBuf sendLast last =>
                exact .pollSent rfl (Or.inr rfl) pendingReq pendingBuf sendLast last
              | pollAnswered req air pendingReq sendLast fsn last =>
                exact .pollSent rfl (Or.inr rfl) pendingReq hpendingBuf sendLast fun _ => last
              | pollHeard req air pendingReq =>
                rw [hpendingReq] at pendingReq
                cases pendingReq
              | idle req | subSent op req | subHeard op req | subAnswered op req =>
                rw [hreq] at req
                cases req
            have hasks : Asks { s with lpn.sentReq := .none } (sendFriendPoll ok { s with lpn.sentReq := .none }) :=
              asks_sendFriendPoll
            exact h.of_frnd hasks.frnd hasks.fsn hstage
        · next op hreq =>
            cases hs
            obtain ⟨hquiet, -⟩ := hwait (by rw [hreq]; simp)
            have hidle : Delivers { s with lpn.sentReq := .none } l := by
              refine h.of_frnd rfl rfl ?_
              cases h.stage with
              | subSent op req air pendingReq pendingBuf sendLast fsn => exact .idle rfl hquiet sendLast fsn
              | subAnswered op req air pendingReq sendLast fsn last => exact .idle rfl hquiet sendLast fsn
              | subHeard op req air pendingReq =>
                rw [hquiet.2.1] at pendingReq
                cases pendingReq
              | idle req | pollSent req | pollHeard req | pollAnswered req =>
                rw [hreq] at req
                cases req
            exact hidle.asks (asks_subUpdate op)
      · cases hs

/-! ## What the Friend hears -/

/-- A PDU comes to the end of the queue. -/
theorem Delivers.enqueue (h : Delivers s l) (pdu : QueuedPdu) :
    Delivers { s with frnd.queue := s.frnd.queue ++ [pdu] } { l with put := l.put ++ [pdu] } where
  stage := by
    cases h.stage with
    | idle req quiet sendLast fsn => exact .idle req quiet sendLast fsn
    | pollSent req air pendingReq pendingBuf sendLast last =>
      exact .pollSent req air pendingReq pendingBuf sendLast last
    | pollHeard req air pendingReq pendingBuf fsn last =>
      refine .pollHeard req air pendingReq pendingBuf fsn (last.imp_right fun hnone => ?_)
      exact ⟨hnone.1, hnone.2.1, List.append_ne_nil_of_left_ne_nil hnone.2.2 [pdu]⟩
    | pollAnswered req air pendingReq sendLast fsn last => exact .pollAnswered req air pendingReq sendLast fsn last
    | subSent op req air pendingReq pendingBuf sendLast fsn =>
      exact .subSent op req air pendingReq pendingBuf sendLast fsn
    | subHeard op req air pendingReq pendingBuf sendLast fsn last =>
      exact .subHeard op req air pendingReq pendingBuf sendLast fsn last
    | subAnswered op req air pendingReq sendLast fsn last =>
      exact .subAnswered op req air pendingReq sendLast fsn last
  order := by
    rw [← h.order, List.append_assoc (l.heard ++ waiting s)]
    rfl

/-- A request is lost, and nothing else happens. -/
theorem Delivers.lose (h : Delivers s l) : Delivers { s with air := none } l := by
  refine h.of_frnd rfl rfl ?_
  cases h.stage with
  | idle req quiet sendLast fsn => exact .idle req ⟨rfl, quiet.2⟩ sendLast fsn
  | pollSent req air pendingReq pendingBuf sendLast last =>
    exact .pollSent req (Or.inl rfl) pendingReq pendingBuf sendLast last
  | pollHeard req air pendingReq pendingBuf fsn last => exact .pollHeard req rfl pendingReq pendingBuf fsn last
  | pollAnswered req air pendingReq sendLast fsn last => exact .pollAnswered req rfl pendingReq sendLast fsn last
  | subSent op req air pendingReq pendingBuf sendLast fsn =>
    exact .subSent op req (fun _ hair => by cases hair) pendingReq pendingBuf sendLast fsn
  | subHeard op req air pendingReq pendingBuf sendLast fsn last =>
    exact .subHeard op req rfl pendingReq pendingBuf sendLast fsn last
  | subAnswered op req air pendingReq sendLast fsn last =>
    exact .subAnswered op req rfl pendingReq sendLast fsn last

/-- A poll is heard. The same bit asks for the last PDU again; a new one says that the LPN has heard it. -/
theorem Delivers.hearPoll (h : Delivers s l) {fsn : Bool} (seq : ℕ) (hair : s.air = some (.poll fsn)) :
    Delivers { s with frnd := btMeshFriendPoll (some seq) fsn s.frnd, air := none }
      { l with put := l.put ++ ownUpdate (some seq) s.frnd (.poll fsn) } := by
  cases h.stage with
  | pollSent req air pendingReq pendingBuf sendLast last =>
    obtain hnone | hpoll := air
    · rw [hnone] at hair
      cases hair
    rw [hair] at hpoll
    obtain rfl : fsn = s.lpn.fsn := by
      injection hpoll with hreq
      injection hreq
    have horder := h.order
    by_cases hagain : s.lpn.fsn = s.frnd.fsn ∧ s.frnd.last.isSome
    · have hown : ownUpdate (some seq) s.frnd (.poll s.lpn.fsn) = [] := if_pos (Or.inr (Or.inl hagain))
      have hpoll : btMeshFriendPoll (some seq) s.lpn.fsn s.frnd =
          { s.frnd with pendingReq := true, sendLast := true } := by
        rw [btMeshFriendPoll, if_neg (by simp [pendingBuf]), if_pos hagain]
      rw [hown, List.append_nil, hpoll]
      exact ⟨.pollHeard req rfl rfl pendingBuf hagain.1.symm (Or.inl ⟨rfl, last hagain.1.symm⟩), horder⟩
    · have hfresh : s.frnd.fsn ≠ s.lpn.fsn := by
        intro heq
        obtain ⟨pdu, hpdu⟩ := last heq
        exact hagain ⟨heq.symm, by rw [hpdu]; rfl⟩
      rw [waiting, if_neg hfresh, List.append_nil] at horder
      rw [btMeshFriendPoll, if_neg (by simp [pendingBuf]), if_neg hagain]
      by_cases hempty : s.frnd.queue = []
      · have hown : ownUpdate (some seq) s.frnd (.poll s.lpn.fsn) = [.update false seq] :=
          if_neg (by simp [pendingBuf, hagain, hempty])
        rw [hempty, List.append_nil] at horder
        rw [hown, if_pos hempty]
        refine ⟨.pollHeard req rfl rfl pendingBuf rfl (Or.inr ⟨sendLast, rfl, List.cons_ne_nil _ _⟩), ?_⟩
        rw [waiting, if_pos rfl, ← horder]
        exact congrArg (· ++ [QueuedPdu.update false seq]) (List.append_nil l.heard)
      · have hown : ownUpdate (some seq) s.frnd (.poll s.lpn.fsn) = [] := if_pos (Or.inr (Or.inr hempty))
        rw [hown, List.append_nil, if_neg hempty]
        refine ⟨.pollHeard req rfl rfl pendingBuf rfl (Or.inr ⟨sendLast, rfl, hempty⟩), ?_⟩
        rw [waiting, if_pos rfl, ← horder]
        exact congrArg (· ++ s.frnd.queue) (List.append_nil l.heard)
  | subSent op req air => exact absurd hair (air fsn)
  | idle req quiet =>
    rw [quiet.1] at hair
    cases hair
  | pollHeard req air | pollAnswered req air | subHeard op req air | subAnswered op req air =>
    rw [air] at hair
    cases hair

/-- A subscription request is heard: the last PDU gives way to the confirmation, but the LPN has heard it. -/
theorem Delivers.hearSub (h : Delivers s l) {op : SubOp} {xact : ℕ} {addrList : List ℕ}
    (hair : s.air = some (.sub op xact addrList)) :
    Delivers { s with frnd := btMeshFriendSub op true xact addrList s.frnd, air := none } l := by
  cases h.stage with
  | subSent op' req air pendingReq pendingBuf sendLast fsn =>
    have horder := h.order
    rw [waiting, if_neg fsn] at horder
    rw [btMeshFriendSub, if_neg (by simp [pendingBuf]), enqueueSubCfm, if_pos rfl]
    refine ⟨.subHeard op' req rfl rfl pendingBuf rfl fsn ⟨xact, rfl⟩, ?_⟩
    rw [waiting, if_neg fsn]
    exact horder
  | pollSent req air =>
    rw [hair] at air
    simp at air
  | idle req quiet =>
    rw [quiet.1] at hair
    cases hair
  | pollHeard req air | pollAnswered req air | subHeard op req air | subAnswered op req air =>
    rw [air] at hair
    cases hair

/-- The Friend's timer fires for `last`: a PDU that is sent again, or a confirmation. -/
theorem Delivers.sendLast (h : Delivers s l) (hsend : s.frnd.sendLast ∧ s.frnd.last.isSome) :
    Delivers { s with frnd := { s.frnd with sendLast := false, pendingReq := false, pendingBuf := true } } l := by
  have horder := h.order
  unfold waiting at horder
  cases h.stage with
  | pollHeard req air pendingReq pendingBuf fsn last =>
    obtain ⟨-, hpdu⟩ | ⟨hoff, -⟩ := last
    · exact ⟨.pollAnswered req air rfl rfl fsn hpdu, horder⟩
    · rw [hoff] at hsend
      cases hsend.1
  | subHeard op req air pendingReq pendingBuf sendLast fsn last =>
    exact ⟨.subAnswered op req air rfl rfl fsn last, horder⟩
  | idle req quiet sendLast =>
    rw [sendLast] at hsend
    cases hsend.1
  | pollSent req air pendingReq pendingBuf sendLast | pollAnswered req air pendingReq sendLast
  | subSent op req air pendingReq pendingBuf sendLast | subAnswered op req air pendingReq sendLast =>
    rw [sendLast] at hsend
    cases hsend.1

/-- The Friend's timer fires for the first PDU of the queue. -/
theorem Delivers.sendNext {pdu : QueuedPdu} {queue : List QueuedPdu} (h : Delivers s l)
    (hsend : ¬ (s.frnd.sendLast ∧ s.frnd.last.isSome)) (hreq : s.frnd.pendingReq ≠ false)
    (hqueue : s.frnd.queue = pdu :: queue) :
    Delivers { s with frnd := { s.frnd with
        last := some (.queued pdu), queue := queue, pendingReq := false, pendingBuf := true } } l := by
  have horder := h.order
  cases h.stage with
  | pollHeard req air pendingReq pendingBuf fsn last =>
    obtain ⟨hon, pdu', hpdu⟩ | ⟨hoff, hnone, -⟩ := last
    · rw [hon, hpdu] at hsend
      simp at hsend
    rw [waiting, if_pos fsn, fromQueue, hnone, List.append_nil, hqueue] at horder
    refine ⟨.pollAnswered req air rfl hoff fsn ⟨pdu, rfl⟩, ?_⟩
    rw [waiting, if_pos fsn, List.append_assoc]
    exact horder
  | subHeard op req air pendingReq pendingBuf sendLast fsn last =>
    obtain ⟨xact, hlast⟩ := last
    rw [sendLast, hlast] at hsend
    simp at hsend
  | idle req quiet => exact absurd quiet.2.1 hreq
  | pollSent req air pendingReq | pollAnswered req air pendingReq | subSent op req air pendingReq
  | subAnswered op req air pendingReq => exact absurd pendingReq hreq

/-- The Friend's timer fires. -/
theorem Delivers.friendTimeout {frnd : Friend} (h : Delivers s l) (hs : friendTimeout s.frnd = some frnd) :
    Delivers { s with frnd := frnd } l := by
  unfold Model.friendTimeout at hs
  split at hs
  · cases hs
  split at hs
  · next hsend =>
      cases hs
      exact h.sendLast hsend
  next hsend =>
  split at hs
  · cases hs
  next hreq =>
  split at hs
  · cases hs
  next pdu queue hqueue =>
  cases hs
  exact h.sendNext hsend hreq hqueue

/-! ## What the LPN hears -/

/-- The Friend sends what the LPN waits for. -/
theorem Stage.answering (h : Stage s) (hbuf : s.frnd.pendingBuf = true) :
    s.air = none ∧ s.frnd.pendingReq = false ∧ s.frnd.sendLast = false ∧
      ((s.lpn.sentReq = .poll ∧ s.frnd.fsn = s.lpn.fsn ∧ ∃ pdu, s.frnd.last = some (.queued pdu)) ∨
        (∃ op, s.lpn.sentReq = .sub op) ∧ s.frnd.fsn ≠ s.lpn.fsn ∧ ∃ xact, s.frnd.last = some (.subCfm xact)) := by
  cases h with
  | pollAnswered req air pendingReq sendLast fsn last => exact ⟨air, pendingReq, sendLast, Or.inl ⟨req, fsn, last⟩⟩
  | subAnswered op req air pendingReq sendLast fsn last =>
    exact ⟨air, pendingReq, sendLast, Or.inr ⟨⟨op, req⟩, fsn, last⟩⟩
  | pollSent req air pendingReq pendingBuf | pollHeard req air pendingReq pendingBuf
  | subSent op req air pendingReq pendingBuf | subHeard op req air pendingReq pendingBuf =>
    rw [hbuf] at pendingBuf
    cases pendingBuf
  | idle req quiet =>
    have hfree := quiet.2.2
    rw [hbuf] at hfree
    cases hfree

/-- The answer to a poll is heard: the bit changes, and the LPN is free for its next request. -/
theorem Delivers.answered (h : Delivers s l) (hreq : s.lpn.sentReq = .poll) (hbuf : s.frnd.pendingBuf = true) :
    Delivers { s with frnd.pendingBuf := false, lpn := friendResponseReceived s.lpn }
      { l with heard := l.heard ++ fromQueue s.frnd } := by
  obtain ⟨hair, hpending, hsend, ⟨-, hfsn, -⟩ | ⟨⟨op, hsub⟩, -⟩⟩ := h.stage.answering hbuf
  · have horder := h.order
    rw [waiting, if_pos hfsn] at horder
    have hflip : s.frnd.fsn ≠ (friendResponseReceived s.lpn).fsn := by
      rw [friendResponseReceived, if_pos hreq, hfsn]
      exact (Bool.not_ne_self _).symm
    refine ⟨.idle rfl ⟨hair, hpending, rfl⟩ hsend hflip, ?_⟩
    rw [waiting, if_neg hflip, List.append_nil]
    exact horder
  · rw [hreq] at hsub
    cases hsub

/-- An answer that the LPN does not hear, or does not take. -/
theorem Delivers.unheard (h : Delivers s l) (hbuf : s.frnd.pendingBuf = true) :
    Delivers { s with frnd.pendingBuf := false } l := by
  refine ⟨?_, h.order⟩
  obtain ⟨hair, hpending, hsend, ⟨hreq, -, hlast⟩ | ⟨⟨op, hreq⟩, hfsn, -⟩⟩ := h.stage.answering hbuf
  · exact .pollSent hreq (Or.inl hair) hpending rfl hsend fun _ => hlast
  · refine .subSent op hreq (fun fsn hpoll => ?_) hpending rfl hsend hfsn
    rw [hair] at hpoll
    cases hpoll

/-- A confirmation answers a subscription request. -/
theorem Delivers.confirmed (h : Delivers s l) {op : SubOp} (hreq : s.lpn.sentReq = .sub op)
    (hbuf : s.frnd.pendingBuf = true) (groups : List LpnGroup) :
    Delivers
      { s with
        frnd.pendingBuf := false
        lpn := friendResponseReceived { s.lpn with groups := groups } } l := by
  have hkeep : (friendResponseReceived { s.lpn with groups := groups }).fsn = s.lpn.fsn := by
    simp [friendResponseReceived, hreq]
  refine (h.unheard hbuf).of_frnd rfl hkeep ?_
  obtain ⟨hair, hpending, hsend, ⟨hpoll, -⟩ | ⟨-, hfsn, -⟩⟩ := h.stage.answering hbuf
  · rw [hreq] at hpoll
    cases hpoll
  · exact .idle rfl ⟨hair, hpending, rfl⟩ hsend (by rw [hkeep]; exact hfsn)

/-- The Friend's PDU is heard. Those of its queue answer a poll. -/
theorem Delivers.heard {pdu : FriendPdu} (h : Delivers s l) (hbuf : s.frnd.pendingBuf = true)
    (hlast : s.frnd.last = some pdu) :
    Delivers (lpnRecv ok { s with frnd.pendingBuf := false } pdu) { l with heard := l.heard ++ fromQueue s.frnd } := by
  obtain ⟨-, -, -, ⟨hreq, -, pdu', hqueued⟩ | ⟨⟨op, hreq⟩, -, xact, hcfm⟩⟩ := h.stage.answering hbuf
  · obtain rfl : pdu = .queued pdu' := Option.some.inj (hlast.symm.trans hqueued)
    have hanswered := h.answered hreq hbuf
    cases pdu' with
    | update md seq =>
      have hchanged := hanswered.asks (asks_updateChanged ok)
      rw [lpnRecv, btMeshLpnFriendUpdate, if_neg (by simp [hreq])]
      dsimp only
      split
      · exact hchanged.asks asks_sendFriendPoll
      · exact hchanged
    | msg seq =>
      rw [lpnRecv, btMeshLpnMsgReceived, if_neg (by simp [hreq])]
      exact hanswered.asks asks_sendFriendPoll
  · obtain rfl : pdu = .subCfm xact := Option.some.inj (hlast.symm.trans hcfm)
    have hsame : l.heard ++ fromQueue s.frnd = l.heard := by rw [fromQueue, hlast, List.append_nil]
    rw [hsame, lpnRecv, btMeshLpnFriendSubCfm]
    split
    · exact h.unheard hbuf
    · exact h.unheard hbuf
    · next op' hsub =>
        split
        · exact h.unheard hbuf
        · have hchanged := (h.confirmed hsub hbuf (s.lpn.groups.map (confirmGroup op'))).asks
            (asks_updateChanged ok)
          dsimp only
          split
          · exact hchanged.asks asks_sendFriendPoll
          · exact hchanged

/-! ## Every run -/

/-- One step. -/
theorem Delivers.step {a : FriendshipAct} (h : Delivers s l) (hok : Timely s a) (hs : friendshipStep s a = some s') :
    Delivers s' (friendLog s a l) := by
  cases a with
  | groupAdd ok group =>
    cases hs
    exact h.asks ((asks_groupAdd group).trans (asks_subUpdate .add))
  | groupDel ok groups =>
    cases hs
    exact h.asks ((asks_groupDel _).trans (asks_subUpdate .rem))
  | poll ok =>
    cases hs
    exact h.asks asks_sendFriendPoll
  | lpnTimeout pollTimeoutMax ok => exact h.retry hok hs
  | reqSent err =>
    cases hok
    dsimp only [friendshipStep] at hs
    split at hs
    · cases hs
    · cases hs
      exact h.asks (Asks.of_eq rfl rfl rfl rfl)
  | lose =>
    cases hs
    exact h.lose
  | friendRecv encoded =>
    obtain ⟨seq, rfl⟩ := Option.isSome_iff_exists.1 hok
    dsimp only [friendshipStep] at hs
    split at hs
    · cases hs
    · next req hair =>
        cases hs
        rw [friendLog, hair]
        cases req with
        | poll fsn => exact h.hearPoll seq hair
        | sub op xact addrList =>
          have hsame : l.put ++ (some (LpnReq.sub op xact addrList)).elim [] (ownUpdate (some seq) s.frnd) =
              l.put := List.append_nil l.put
          rw [hsame]
          exact h.hearSub hair
  | enqueue pdu =>
    cases hs
    exact h.enqueue pdu
  | friendTimeout =>
    dsimp only [friendshipStep] at hs
    split at hs
    · cases hs
    · next frnd hfrnd =>
        cases hs
        exact h.friendTimeout hfrnd
  | bufSendStart heard ok =>
    dsimp only [friendshipStep] at hs
    split at hs
    · cases hs
    next hbuf =>
    have hbuf : s.frnd.pendingBuf = true := Bool.of_not_eq_false hbuf
    dsimp only [friendLog]
    split at hs
    · next pdu hlast =>
        cases heard with
        | true =>
          cases hs
          exact h.heard hbuf hlast
        | false =>
          cases hs
          exact h.unheard hbuf
    · next hlast =>
        -- the Friend sends nothing but `last`
        obtain ⟨-, -, -, ⟨-, -, pdu, hpdu⟩ | ⟨-, -, xact, hpdu⟩⟩ := h.stage.answering hbuf
        · rw [hlast] at hpdu
          cases hpdu
        · rw [hlast] at hpdu
          cases hpdu

/-- The system with what came to the queue and what the LPN has heard. -/
def deliveryStep : Friendship × FriendLog → FriendshipAct → Option (Friendship × FriendLog) :=
  withHistory friendshipStep friendLog

/-- Every run. -/
theorem delivers_run {s₀ : Friendship} {l₀ : FriendLog} {acts : List FriendshipAct} (h : Delivers s₀ l₀)
    (hmeet : StepsMeet deliveryStep (fun p => Timely p.1) (s₀, l₀) acts)
    (hrun : runSteps deliveryStep (s₀, l₀) acts = some (s, l)) : Delivers s l := by
  refine runSteps_inv (I := fun p => Delivers p.1 p.2) ?_ h hmeet hrun
  rintro p a p' hp hok hs
  obtain ⟨t, ht, rfl⟩ := Option.map_eq_some_iff.1 hs
  exact hp.step hok ht

/-- The first Friend Update has been heard. -/
def afterUpdate : Friendship where
  lpn := ⟨.established, 0, 0, .none, 0, false, false, true, 8, List.replicate 3 ⟨0, false, false, false⟩, 0⟩
  frnd := ⟨false, false, false, false, List.replicate 3 0, some (.queued (.update false 1)), []⟩
  air := none

def updateLog : FriendLog := ⟨[.update false 1], [.update false 1]⟩

/-- Nothing is open after the first Friend Update. -/
theorem ready_afterUpdate : Ready afterUpdate updateLog where
  sentReq := rfl
  quiet := ⟨rfl, rfl, rfl⟩
  sendLast := rfl
  fsn := by decide
  order := rfl

/-- Buffers are there. -/
def allSent : CtlSend := ⟨true, true, true⟩

/-- Two messages; the first answer and the repeated poll are lost, and a group is added while the LPN waits. -/
def lossyActs : List FriendshipAct :=
  [.enqueue (.msg 7), .enqueue (.msg 8), .poll allSent, .reqSent false, .friendRecv (some 2), .friendTimeout,
    .bufSendStart false allSent, .lpnTimeout 3000 allSent, .lpnTimeout 3000 allSent, .lpnTimeout 3000 allSent, .lose,
    .groupAdd allSent 0xc000, .lpnTimeout 3000 allSent, .friendRecv (some 2), .friendTimeout,
    .bufSendStart true allSent]

/-- The Friend's timer has something to send. -/
theorem Stage.timeout (h : Stage s) (hreq : s.lpn.sentReq = .poll) (hpending : s.frnd.pendingReq = true) :
    ∃ frnd, Model.friendTimeout s.frnd = some frnd ∧ frnd.pendingBuf = true := by
  cases h with
  | pollHeard req air pendingReq pendingBuf fsn last =>
    unfold Model.friendTimeout
    rw [if_neg (by simp [pendingBuf])]
    obtain ⟨hsend, pdu, hpdu⟩ | ⟨hsend, hnone, hqueue⟩ := last
    · rw [if_pos (by simp [hsend, hpdu])]
      exact ⟨_, rfl, rfl⟩
    · obtain ⟨pdu, queue, hcons⟩ := List.exists_cons_of_ne_nil hqueue
      rw [if_neg (by simp [hsend]), if_neg (by simp [hpending]), hcons]
      exact ⟨_, rfl, rfl⟩
  | idle req | subSent op req | subHeard op req | subAnswered op req =>
    rw [hreq] at req
    cases req
  | pollSent req air pendingReq | pollAnswered req air pendingReq =>
    rw [hpending] at pendingReq
    cases pendingReq

/-- The PDU that is heard is the next one of those that came to the queue. -/
theorem Delivers.next_heard (h : Delivers s l) (hfsn : s.frnd.fsn = s.lpn.fsn) {pdu : QueuedPdu}
    (hlast : s.frnd.last = some (.queued pdu)) : l.put[l.heard.length]? = some pdu := by
  rw [← h.order, waiting, if_pos hfsn, fromQueue, hlast, List.append_assoc, List.getElem?_append_right (le_refl _),
    Nat.sub_self]
  rfl

/-- From the poll on the air to the answer. -/
theorem Delivers.exchange {fsn : Bool} (h : Delivers s l) (hair : s.air = some (.poll fsn)) (seq : ℕ) :
    ∃ s' l' pdu, runSteps deliveryStep (s, l) [.friendRecv (some seq), .friendTimeout, .bufSendStart true ok] =
        some (s', l') ∧
      l'.put = l.put ++ ownUpdate (some seq) s.frnd (.poll fsn) ∧ l'.heard = l.heard ++ [pdu] ∧
      l'.put[l.heard.length]? = some pdu := by
  obtain ⟨hreq, hfree⟩ : s.lpn.sentReq = .poll ∧ s.frnd.pendingBuf = false := by
    cases h.stage with
    | pollSent req air pendingReq pendingBuf => exact ⟨req, pendingBuf⟩
    | subSent op req air => exact absurd hair (air fsn)
    | idle req quiet =>
      rw [quiet.1] at hair
      cases hair
    | pollHeard req air | pollAnswered req air | subHeard op req air | subAnswered op req air =>
      rw [air] at hair
      cases hair
  let l₁ : FriendLog := { l with put := l.put ++ ownUpdate (some seq) s.frnd (.poll fsn) }
  have hrecv : deliveryStep (s, l) (.friendRecv (some seq)) =
      some ({ s with frnd := btMeshFriendPoll (some seq) fsn s.frnd, air := none }, l₁) := by
    simp only [deliveryStep, withHistory, friendshipStep, hair, friendLog, friendRecv, Option.map_some,
      Option.elim_some, l₁]
  have hpending : (btMeshFriendPoll (some seq) fsn s.frnd).pendingReq = true := by
    unfold btMeshFriendPoll
    rw [if_neg (by simp [hfree])]
    split
    · rfl
    · rfl
  have hheard : Delivers { s with frnd := btMeshFriendPoll (some seq) fsn s.frnd, air := none } l₁ :=
    h.hearPoll seq hair
  generalize btMeshFriendPoll (some seq) fsn s.frnd = frnd₁ at hrecv hheard hpending
  obtain ⟨frnd₂, htimeout, hbuf⟩ := hheard.stage.timeout hreq hpending
  have hsent := hheard.friendTimeout htimeout
  have hfire : deliveryStep ({ s with frnd := frnd₁, air := none }, l₁) .friendTimeout =
      some ({ s with frnd := frnd₂, air := none }, l₁) := by
    simp only [deliveryStep, withHistory, friendshipStep, htimeout, friendLog, Option.map_some]
  obtain ⟨-, -, -, ⟨-, hfsn, pdu, hpdu⟩ | ⟨⟨op, hsub⟩, -⟩⟩ := hsent.stage.answering hbuf
  · have hnext : l₁.put[l.heard.length]? = some pdu := hsent.next_heard hfsn hpdu
    dsimp only at hpdu
    have hstart : deliveryStep ({ s with frnd := frnd₂, air := none }, l₁) (.bufSendStart true ok) =
        some (lpnRecv ok { s with frnd := { frnd₂ with pendingBuf := false }, air := none } (.queued pdu),
          { l₁ with heard := l.heard ++ [pdu] }) := by
      simp only [deliveryStep, withHistory, friendshipStep, friendLog, hbuf, hpdu, Bool.true_eq_false, if_false,
        if_true, Option.map_some, fromQueue, l₁]
    have hall : runSteps deliveryStep (s, l) [.friendRecv (some seq), .friendTimeout, .bufSendStart true ok] =
        some (lpnRecv ok { s with frnd := { frnd₂ with pendingBuf := false }, air := none } (.queued pdu),
          { l₁ with heard := l.heard ++ [pdu] }) := by
      simp only [runSteps, hrecv, hfire, hstart]
    exact ⟨_, _, pdu, hall, rfl, rfl, hnext⟩
  · rw [hreq] at hsub
    cases hsub

end GenieSdk.Analysis.FriendQueue
