import GenieSdk.Analysis.TransportHistory

/-!
# Late retransmissions

`retransmit_timer_cb` is to arm its timer for the message that is due first. It keeps one variable
for the delay and writes it anew for each message it comes to, so that **the delay is the one of the
message the walk ends with** (`retransmitLoop_delay`): the first one that is given up, and otherwise
the last of the list. The timer is in time exactly if that delay suits every message that stays
(`retransmission_in_time_iff`).
-/

set_option autoImplicit false

namespace GenieSdk.Analysis

open GenieSdk.Lib
open GenieSdk.Model

section Walk

variable (uptime : ℕ → ℤ)

/-- The delay that suits one message: its retry period, or its deadline where that is the smaller
number and not past. The deadline is an uptime, not a time that is left. -/
def delayOf (k : ℕ) (node : TransportNode) : ℕ :=
  if IsDue uptime k node then node.msg.retryPeriod
  else if node.timeout < node.msg.retryPeriod then (node.timeout % 2 ^ 32).toNat
  else node.msg.retryPeriod

/-- The message as it is listed after it is resent. -/
def resentNode (k : ℕ) (node : TransportNode) : TransportNode :=
  { node with
    leftRetry := node.leftRetry - 1
    timeout := uptime (2 * k + 1) + node.msg.retryPeriod }

/-- The walk over `l`, which counts its messages from `k` on, ends with `last`, number `m` of `l`:
the first one that is given up, and otherwise the last one. -/
structure EndsWalk (k : ℕ) (l : List TransportNode) (m : ℕ) (last : TransportNode) : Prop where
  listed : l[m]? = some last
  earlier : ∀ i node, i < m → l[i]? = some node → ¬ IsGivenUp uptime (k + i) node
  ends : m + 1 = l.length ∨ IsGivenUp uptime (k + m) last

variable {uptime}

/-- **every walk ends** with one of its messages. -/
theorem EndsWalk.exists (k : ℕ) (l : List TransportNode) (hne : l ≠ []) :
    ∃ m last, EndsWalk uptime k l m last := by
  induction l generalizing k with
  | nil => exact absurd rfl hne
  | cons node rest ih =>
    by_cases hgiven : IsGivenUp uptime k node
    · exact ⟨0, node, rfl, fun i _ hi => absurd hi (Nat.not_lt_zero i), Or.inr hgiven⟩
    · by_cases hrest : rest = []
      · refine ⟨0, node, rfl, fun i _ hi => absurd hi (Nat.not_lt_zero i), Or.inl ?_⟩
        rw [hrest]
        rfl
      · obtain ⟨m, last, hlisted, hearlier, hends⟩ := ih (k + 1) hrest
        refine ⟨m + 1, last, hlisted, ?_, ?_⟩
        · intro i other hi hother
          cases i with
          | zero =>
            cases hother
            exact hgiven
          | succ i =>
            have hlater := hearlier i other (by omega) hother
            rwa [show k + 1 + i = k + (i + 1) by omega] at hlater
        · rcases hends with hends | hends
          · exact Or.inl (by rw [List.length_cons, hends])
          · exact Or.inr (by rwa [show k + 1 + m = k + (m + 1) by omega] at hends)

/-- The walk ends in the tail where it ends there in the whole list. -/
theorem EndsWalk.tail {k m : ℕ} {node last : TransportNode} {rest : List TransportNode}
    (h : EndsWalk uptime k (node :: rest) (m + 1) last) : EndsWalk uptime (k + 1) rest m last where
  listed := h.listed
  earlier := by
    intro i other hi hother
    have hlater := h.earlier (i + 1) other (by omega) hother
    rwa [show k + 1 + i = k + (i + 1) by omega]
  ends := by
    rcases h.ends with hends | hends
    · exact Or.inl (by simpa using hends)
    · exact Or.inr (by rwa [show k + 1 + m = k + (m + 1) by omega])

/-- What one message makes of `nearest`. -/
theorem nearest_eq_delayOf {k : ℕ} {node : TransportNode} (h : ¬ IsDue uptime k node) :
    (if node.timeout < node.msg.retryPeriod then (node.timeout % 2 ^ 32).toNat
      else node.msg.retryPeriod) = delayOf uptime k node := by
  unfold delayOf
  rw [if_neg h]

/-- **the delay** is the one of the message the walk ends with, whatever came before. -/
theorem retransmitLoop_delay {k m nearest : ℕ} {l : List TransportNode} {last : TransportNode}
    (h : EndsWalk uptime k l m last) :
    (retransmitLoop uptime k l nearest).2.2 = delayOf uptime (k + m) last := by
  induction l generalizing k m nearest with
  | nil => cases h.listed
  | cons node rest ih =>
    unfold retransmitLoop
    cases m with
    | zero =>
      obtain rfl : node = last := Option.some.inj h.listed
      by_cases hdue : IsDue uptime k node
      · have hdelay : delayOf uptime k node = node.msg.retryPeriod := if_pos hdue
        rw [if_pos (show node.timeout ≤ uptime (2 * k) from hdue)]
        by_cases hleft : node.leftRetry = 0
        · rw [if_pos hleft]
          exact hdelay.symm
        · have hrest : rest = [] := by
            rcases h.ends with hlen | hgiven
            · exact List.eq_nil_of_length_eq_zero (by simpa using hlen.symm)
            · exact absurd hgiven.2 hleft
          rw [if_neg hleft, hrest]
          exact hdelay.symm
      · have hrest : rest = [] := by
          rcases h.ends with hlen | hgiven
          · exact List.eq_nil_of_length_eq_zero (by simpa using hlen.symm)
          · exact absurd hgiven.1 hdue
        rw [if_neg (show ¬ node.timeout ≤ uptime (2 * k) from hdue), hrest]
        exact nearest_eq_delayOf hdue
    | succ m =>
      have hfirst : ¬ IsGivenUp uptime k node := h.earlier 0 node (by omega) rfl
      rw [show k + (m + 1) = k + 1 + m by omega]
      by_cases hdue : IsDue uptime k node
      · rw [if_pos (show node.timeout ≤ uptime (2 * k) from hdue),
          if_neg fun hleft => hfirst ⟨hdue, hleft⟩]
        exact ih h.tail
      · rw [if_neg (show ¬ node.timeout ≤ uptime (2 * k) from hdue)]
        exact ih h.tail

/-- **the list after the walk** holds, up to the message the walk ends with, each message
that is due as it is resent, and every other message unchanged. -/
theorem forall_mem_retransmitLoop {k m nearest : ℕ} {l : List TransportNode} {last : TransportNode}
    {P : TransportNode → Prop} (h : EndsWalk uptime k l m last) :
    (∀ node ∈ (retransmitLoop uptime k l nearest).1, P node) ↔
      ∀ i node, l[i]? = some node →
        (i ≤ m → IsDue uptime (k + i) node → node.leftRetry ≠ 0 →
          P (resentNode uptime (k + i) node)) ∧
        (¬ (i ≤ m ∧ IsDue uptime (k + i) node) → P node) := by
  induction l generalizing k m nearest with
  | nil => cases h.listed
  | cons node rest ih =>
    have hcons (Q : ℕ → TransportNode → Prop) :
        (∀ i other, (node :: rest)[i]? = some other → Q i other) ↔
          Q 0 node ∧ ∀ i other, rest[i]? = some other → Q (i + 1) other := by
      refine ⟨fun hall => ⟨hall 0 node rfl, fun i other => hall (i + 1) other⟩, ?_⟩
      rintro ⟨hhead, htail⟩ i other hother
      cases i with
      | zero =>
        cases hother
        exact hhead
      | succ i => exact htail i other hother
    rw [hcons]
    unfold retransmitLoop
    by_cases hgiven : IsGivenUp uptime k node
    · -- the walk ends here, and the rest is not looked at
      obtain rfl : m = 0 := by
        by_contra hm
        exact h.earlier 0 node (by omega) rfl hgiven
      rw [if_pos (show node.timeout ≤ uptime (2 * k) from hgiven.1), if_pos hgiven.2]
      constructor
      · intro hall
        refine ⟨⟨fun _ _ hleft => absurd hgiven.2 hleft, fun hnot => absurd ⟨le_rfl, hgiven.1⟩ hnot⟩,
          fun i other hother => ⟨fun hi => absurd hi (by omega), fun _ => ?_⟩⟩
        exact hall other (List.mem_of_getElem? hother)
      · rintro ⟨-, hrest⟩ other hother
        obtain ⟨i, hi⟩ := List.mem_iff_getElem?.1 hother
        exact (hrest i other hi).2 fun hle => absurd hle.1 (by omega)
    · -- the message stays, and the walk goes on with the rest, if there is any
      have hrest : ∀ near, (∀ other ∈ (retransmitLoop uptime (k + 1) rest near).1, P other) ↔
          ∀ i other, rest[i]? = some other →
            (i + 1 ≤ m → IsDue uptime (k + (i + 1)) other → other.leftRetry ≠ 0 →
              P (resentNode uptime (k + (i + 1)) other)) ∧
            (¬ (i + 1 ≤ m ∧ IsDue uptime (k + (i + 1)) other) → P other) := by
        intro near
        cases m with
        | zero =>
          have hnil : rest = [] := by
            rcases h.ends with hlen | hend
            · exact List.eq_nil_of_length_eq_zero (by simpa using hlen.symm)
            · obtain rfl : node = last := Option.some.inj h.listed
              exact absurd hend hgiven
          subst hnil
          exact ⟨fun _ i other hother => (by cases hother), fun _ other hother => (by cases hother)⟩
        | succ m =>
          rw [ih h.tail]
          refine forall_congr' fun i => forall_congr' fun other => ?_
          rw [show k + 1 + i = k + (i + 1) by omega, Nat.succ_le_succ_iff]
      by_cases hdue : IsDue uptime k node
      · have hleft : node.leftRetry ≠ 0 := fun hleft => hgiven ⟨hdue, hleft⟩
        rw [if_pos (show node.timeout ≤ uptime (2 * k) from hdue), if_neg hleft]
        dsimp only
        rw [List.forall_mem_cons, hrest]
        refine and_congr_left' ⟨fun hhead => ⟨fun _ _ _ => hhead, fun hnot =>
          absurd ⟨Nat.zero_le m, hdue⟩ hnot⟩, fun hhead => hhead.1 (Nat.zero_le m) hdue hleft⟩
      · rw [if_neg (show ¬ node.timeout ≤ uptime (2 * k) from hdue)]
        dsimp only
        rw [List.forall_mem_cons, hrest]
        refine and_congr_left' ⟨fun hhead => ⟨fun _ hnot => absurd hnot hdue, fun _ => hhead⟩,
          fun hhead => hhead.2 fun hnot => hdue hnot.2⟩

end Walk

/-- **The condition** on the list, on the uptimes that the callback reads and on the time `now` at
which the timer is armed: the delay that the message the walk ends with asks for is no longer than
what is left to each message that stays. That is its retry period since the resend for a message
that is due and comes no later than the last one, and the time until its deadline for any other. -/
def LastSuitsAll (uptime : ℕ → ℤ) (now : ℤ) (initCount : ℕ) (l : List TransportNode) : Prop :=
  ∃ m last, EndsWalk uptime 0 l m last ∧
    ∀ i node, l[i]? = some node →
      (i ≤ m → IsDue uptime i node → node.leftRetry ≠ 0 →
        (kTimerStart initCount (delayOf uptime m last) : ℤ) ≤
          max 0 (node.msg.retryPeriod - (now - uptime (2 * i + 1)))) ∧
      (¬ (i ≤ m ∧ IsDue uptime i node) →
        (kTimerStart initCount (delayOf uptime m last) : ℤ) ≤ max 0 (node.timeout - now))

/-- The list and the timer after the callback. -/
theorem retransmitTimerCb_eq {s s' : TransportState} {task : ℕ} {env : TransportEnv}
    (h : retransmitTimerCb s task env = some s') (hne : s'.sendList ≠ []) :
    s'.sendList = (retransmitLoop env.uptime 0 s.sendList 0).1 ∧
      s'.timerTimeout = (retransmitLoop env.uptime 0 s.sendList 0).2.2 := by
  unfold retransmitTimerCb at h
  split at h
  · cases h
  · next hwalk =>
    obtain ⟨hl, -, -, rfl⟩ := retransmitLocked_spec hwalk
    cases h
    unfold startRetryTimer at hne ⊢
    dsimp only at hne ⊢
    rw [if_neg hne]
    exact ⟨hl, rfl⟩

/-- **Retransmissions in time.** When the callback returns with messages in the list, its timer runs
for no longer than is left at `now` to each of them if and only if the message that the walk ends
with asks for a delay that suits them all. -/
theorem retransmission_in_time_iff (s s' : TransportState) (task : ℕ) (env : TransportEnv)
    (now : ℤ) (initCount : ℕ) (hrun : retransmitTimerCb s task env = some s')
    (hne : s'.sendList ≠ []) :
    (∀ node ∈ s'.sendList,
        (kTimerStart initCount s'.timerTimeout : ℤ) ≤ max 0 (node.timeout - now)) ↔
      LastSuitsAll env.uptime now initCount s.sendList := by
  obtain ⟨hlist, htimer⟩ := retransmitTimerCb_eq hrun hne
  have hsome : s.sendList ≠ [] := by
    intro hnil
    rw [hlist, hnil] at hne
    exact hne rfl
  have hsuits {m : ℕ} {last : TransportNode} (h : EndsWalk env.uptime 0 s.sendList m last) :
      (∀ node ∈ s'.sendList,
          (kTimerStart initCount s'.timerTimeout : ℤ) ≤ max 0 (node.timeout - now)) ↔
        ∀ i node, s.sendList[i]? = some node →
          (i ≤ m → IsDue env.uptime i node → node.leftRetry ≠ 0 →
            (kTimerStart initCount (delayOf env.uptime m last) : ℤ) ≤
              max 0 (node.msg.retryPeriod - (now - env.uptime (2 * i + 1)))) ∧
          (¬ (i ≤ m ∧ IsDue env.uptime i node) →
            (kTimerStart initCount (delayOf env.uptime m last) : ℤ) ≤
              max 0 (node.timeout - now)) := by
    rw [htimer, retransmitLoop_delay h, hlist, forall_mem_retransmitLoop h]
    have hleft (i : ℕ) (node : TransportNode) : (resentNode env.uptime i node).timeout - now =
        node.msg.retryPeriod - (now - env.uptime (2 * i + 1)) := by
      unfold resentNode
      dsimp only
      omega
    simp only [Nat.zero_add, hleft]
  constructor
  · intro hintime
    obtain ⟨m, last, hends⟩ := @EndsWalk.exists env.uptime 0 s.sendList hsome
    exact ⟨m, last, hends, (hsuits hends).1 hintime⟩
  · rintro ⟨m, last, hends, hall⟩
    exact (hsuits hends).2 hall

/-- A message with a period of 600 ms that is not listed yet. -/
def periodMsg (tid : UInt8) : TransportMsg where
  resultCb := false
  retry := 2
  opid := vendorOpAttrIndicate
  tid := tid
  dstAddr := 0xF000
  retryPeriod := 600
  data := [1]

/-- The uptime stands at `now` during a call. -/
def envAt (now : ℤ) : TransportEnv where
  provisioned := true
  mallocOk := true
  rand := 0
  uptime := fun _ => now
  modelSend := 0

/-- One message is sent at 0 and due at 600. -/
theorem retransmission_in_time_one :
    ∃ s s', runSteps transportStep genieTransportInit [⟨1, envAt 0, .sendModel (periodMsg 0x80)⟩] =
        some s ∧ retransmitTimerCb s 2 (envAt 600) = some s' ∧ s'.sendList ≠ [] ∧
      ∀ node ∈ s'.sendList,
        (kTimerStart 600 s'.timerTimeout : ℤ) ≤ max 0 (node.timeout - 600) := by
  obtain ⟨s, hs⟩ : ∃ s, runSteps transportStep genieTransportInit
      [⟨1, envAt 0, .sendModel (periodMsg 0x80)⟩] = some s := ⟨_, rfl⟩
  obtain ⟨s', hs'⟩ : ∃ s', retransmitTimerCb s 2 (envAt 600) = some s' := by
    cases hs
    exact ⟨_, rfl⟩
  have hne : s'.sendList ≠ [] := by
    cases hs
    cases hs'
    decide
  refine ⟨s, s', hs, hs', hne, ?_⟩
  refine (retransmission_in_time_iff s s' 2 (envAt 600) 600 600 hs' hne).2 ?_
  have hlist : s.sendList = [⟨0, 2, 600, periodMsg 0x80⟩] := by
    cases hs
    rfl
  rw [hlist]
  refine ⟨0, ⟨0, 2, 600, periodMsg 0x80⟩, ⟨rfl, fun i _ hi => absurd hi (Nat.not_lt_zero i),
    Or.inl rfl⟩, ?_⟩
  intro i node hnode
  cases i with
  | zero =>
    obtain rfl := Option.some.inj hnode
    decide
  | succ i => cases hnode

/-- One message is sent at 0, another at 500, both with a period of 600 ms. At 600 the first one is
resent and the second one has 500 ms left; the timer is armed for 600 ms. -/
theorem retransmission_late :
    ¬ ∀ (s s' : TransportState) (task : ℕ) (now : ℤ) (initCount : ℕ),
      retransmitTimerCb s task (envAt now) = some s' → s'.sendList ≠ [] →
      ∀ node ∈ s'.sendList,
        (kTimerStart initCount s'.timerTimeout : ℤ) ≤ max 0 (node.timeout - now) := by
  intro hall
  obtain ⟨s, hs⟩ : ∃ s, runSteps transportStep genieTransportInit
      [⟨1, envAt 0, .sendModel (periodMsg 0x80)⟩, ⟨1, envAt 500, .sendModel (periodMsg 0x81)⟩] =
      some s := ⟨_, rfl⟩
  obtain ⟨s', hs'⟩ : ∃ s', retransmitTimerCb s 2 (envAt 600) = some s' := by
    cases hs
    exact ⟨_, rfl⟩
  have hlate := hall s s' 2 600 600 hs' (by cases hs; cases hs'; decide)
  cases hs
  cases hs'
  revert hlate
  decide

end GenieSdk.Analysis
