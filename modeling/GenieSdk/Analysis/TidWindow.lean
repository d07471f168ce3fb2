import GenieSdk.Lib.Runs
import GenieSdk.Model.TidQueue

/-!
# The window of message ids

The ring always holds the last accepted messages, oldest first; in the beginning zeroes stand for
those that are missing. **A call finds a repetition exactly if one of the last accepted messages is
the same and less than the period old** (`tid_window`), as long as the end of that period is compared
in one round of the 32-bit clock.
-/

set_option autoImplicit false

namespace GenieSdk.Analysis

open GenieSdk.Lib
open GenieSdk.Model

/-- The queue, and the messages it has accepted so far. -/
structure TidRun where
  queue : TidQueue
  accepted : List TidCall
  deriving DecidableEq, Repr

def tidRunInit : TidRun := ⟨tidQueueInit, []⟩

/-- A call, and what becomes of it. -/
def tidStep (s : TidRun) (c : TidCall) : Option TidRun :=
  match genieTransportCheckTid s.queue c with
  | (.tidRepeat, queue) => some ⟨queue, s.accepted⟩
  | (.success, queue) => some ⟨queue, s.accepted ++ [c]⟩

/-- The last messages that were accepted, as many as the queue holds. -/
def TidRun.lastAccepted (s : TidRun) : List TidCall :=
  s.accepted.drop (s.accepted.length - recvMsgTidQueueSize)

/-- The same id, element and source. -/
def SameMessage (c c' : TidCall) : Prop :=
  c.tid = c'.tid ∧ tidSrcAddr c.srcAddr = tidSrcAddr c'.srcAddr ∧ c.elemId = c'.elemId

instance (c c' : TidCall) : Decidable (SameMessage c c') := inferInstanceAs (Decidable (_ ∧ _))

/-- When a message may be accepted again. -/
def tidExpiry (c : TidCall) : ℕ := c.uptime + genieTransportDeduplicateDuration

/-- One of the last accepted messages is the same and not expired. -/
def IsRepeat (s : TidRun) (c : TidCall) : Prop :=
  ∃ c' ∈ s.lastAccepted, SameMessage c' c ∧ c.uptime < tidExpiry c'

instance (s : TidRun) (c : TidCall) : Decidable (IsRepeat s c) :=
  inferInstanceAs (Decidable (∃ c' ∈ _, _))

/-- The low 32 bits of `t` and the expiry compare as the times themselves do: they lie in one round of
the clock, or the expiry lies in an earlier round at a reading that `t` has reached. -/
def OneRound (expiry t : ℕ) : Prop :=
  t / 2 ^ 32 = expiry / 2 ^ 32 ∨
    expiry / 2 ^ 32 < t / 2 ^ 32 ∧ expiry % 2 ^ 32 ≤ t % 2 ^ 32

instance (expiry t : ℕ) : Decidable (OneRound expiry t) := inferInstanceAs (Decidable (_ ∨ _))

/-- The message is the same as the zeroes that stand in the queue at first. -/
def IsZero (c : TidCall) : Prop := c.tid = 0 ∧ tidSrcAddr c.srcAddr = 0 ∧ c.elemId = 0

instance (c : TidCall) : Decidable (IsZero c) := inferInstanceAs (Decidable (_ ∧ _))

/-- The clock compares right for each of the last accepted messages that is the same, and the message
is not taken for the zeroes. -/
def ClockSound (s : TidRun) (c : TidCall) : Prop :=
  (∀ c' ∈ s.lastAccepted, SameMessage c' c → OneRound (tidExpiry c') c.uptime) ∧
    (s.accepted.length < recvMsgTidQueueSize → IsZero c →
      genieTransportDeduplicateDuration ≤ c.uptime % 2 ^ 32)

instance (s : TidRun) (c : TidCall) : Decidable (ClockSound s c) :=
  inferInstanceAs (Decidable (_ ∧ _))

/-- **What the queue holds**: zeroes and then the accepted messages, the last ones of both. -/
def TidInv (s : TidRun) : Prop :=
  RecentRing.HasPushed (List.replicate recvMsgTidQueueSize ⟨0, 0, 0, 0⟩)
    (s.accepted.map TidCall.record) s.queue

/-- The invariant holds at the start. -/
theorem tidInv_init : TidInv tidRunInit := RecentRing.hasPushed_filled (by decide)

/-- Every call keeps the invariant. -/
theorem TidInv.step {s s' : TidRun} {c : TidCall} (h : TidInv s) (hstep : tidStep s c = some s') :
    TidInv s' := by
  unfold tidStep genieTransportCheckTid at hstep
  by_cases hloop : tidLoop s.queue c recvMsgTidQueueSize s.queue.next <
      s.queue.next + recvMsgTidQueueSize
  · rw [if_pos hloop] at hstep
    cases hstep
    exact h
  · rw [if_neg hloop] at hstep
    cases hstep
    unfold TidInv
    rw [List.map_append]
    exact RecentRing.HasPushed.push h

/-- The loop ends early exactly at a record it stops at. -/
theorem tidLoop_lt_iff (q : TidQueue) (c : TidCall) (fuel i : ℕ) :
    tidLoop q c fuel i < i + fuel ↔
      ∃ j < fuel, tidRepeats c (q.slots.getD ((i + j) % recvMsgTidQueueSize) ⟨0, 0, 0, 0⟩) := by
  induction fuel generalizing i with
  | zero => simp [tidLoop]
  | succ fuel ih =>
    unfold tidLoop
    by_cases hhit : tidRepeats c (q.slots.getD (i % recvMsgTidQueueSize) ⟨0, 0, 0, 0⟩)
    · rw [if_pos hhit]
      exact iff_of_true (by omega) ⟨0, Nat.succ_pos fuel, hhit⟩
    · rw [if_neg hhit, show i + (fuel + 1) = i + 1 + fuel by omega, ih (i + 1)]
      constructor
      · rintro ⟨j, hj, hr⟩
        exact ⟨j + 1, by omega, by rwa [show i + (j + 1) = i + 1 + j by omega]⟩
      · rintro ⟨j, hj, hr⟩
        cases j with
        | zero => exact absurd hr hhit
        | succ j => exact ⟨j, by omega, by rwa [show i + 1 + j = i + (j + 1) by omega]⟩

/-- The loop comes to every slot. -/
theorem tidLoop_repeats_iff {q : TidQueue} (c : TidCall) (hsize : q.slots.length = recvMsgTidQueueSize) :
    tidLoop q c recvMsgTidQueueSize q.next < q.next + recvMsgTidQueueSize ↔
      ∃ r ∈ q.recent, tidRepeats c r := by
  rw [tidLoop_lt_iff]
  simp only [RecentRing.mem_recent]
  unfold recvMsgTidQueueSize at *
  constructor
  · rintro ⟨j, -, hr⟩
    have hlt : (q.next + j) % 5 < q.slots.length := by
      rw [hsize]
      exact Nat.mod_lt _ (by norm_num)
    rw [List.getD_eq_getElem _ _ hlt] at hr
    exact ⟨_, List.getElem_mem hlt, hr⟩
  · rintro ⟨r, hmem, hr⟩
    obtain ⟨k, hk, rfl⟩ := List.getElem_of_mem hmem
    refine ⟨(k + 5 - q.next % 5) % 5, Nat.mod_lt _ (by norm_num), ?_⟩
    have hslot : (q.next + (k + 5 - q.next % 5) % 5) % 5 = k := by omega
    rwa [hslot, List.getD_eq_getElem _ _ hk]

/-- In one round the clock is right. -/
theorem OneRound.lt_iff {c' c : TidCall} (h : OneRound (tidExpiry c') c.uptime) :
    c.uptime % 2 ^ 32 < (c'.record.time + genieTransportDeduplicateDuration) % 2 ^ 32 ↔
      c.uptime < tidExpiry c' := by
  have hexpiry : (c'.record.time + genieTransportDeduplicateDuration) % 2 ^ 32 =
      tidExpiry c' % 2 ^ 32 := by
    show (c'.uptime % 2 ^ 32 + _) % 2 ^ 32 = (c'.uptime + _) % 2 ^ 32
    rw [Nat.mod_add_mod]
  rw [hexpiry]
  unfold OneRound at h
  omega

/-- The records of the queue, the zeroes apart. -/
theorem TidInv.recent_eq {s : TidRun} (h : TidInv s) :
    s.queue.recent = List.replicate (recvMsgTidQueueSize - s.accepted.length) ⟨0, 0, 0, 0⟩ ++
      s.lastAccepted.map TidCall.record := by
  rw [RecentRing.HasPushed.recent_eq h, List.length_map, List.drop_append, List.drop_replicate,
    List.length_replicate, TidRun.lastAccepted, List.map_drop]

/-- What the loop finds, if the clock is sound. -/
theorem TidInv.repeats_iff {s : TidRun} (h : TidInv s) {c : TidCall} (hc : ClockSound s c) :
    (∃ r ∈ s.queue.recent, tidRepeats c r) ↔ IsRepeat s c := by
  obtain ⟨hround, hzero⟩ := hc
  rw [h.recent_eq]
  constructor
  · rintro ⟨r, hmem, hsame, hlt⟩
    rcases List.mem_append.1 hmem with hin | hin
    · -- a zero: it does not repeat a message when the clock is sound
      obtain ⟨hne, rfl⟩ := List.mem_replicate.1 hin
      obtain ⟨htid, haddr, helem⟩ := hsame
      have hle := hzero (by omega) ⟨htid.symm, haddr.symm, helem.symm⟩
      rw [Nat.zero_add] at hlt
      unfold genieTransportDeduplicateDuration at hle hlt
      omega
    · obtain ⟨c', hc', rfl⟩ := List.mem_map.1 hin
      exact ⟨c', hc', hsame, (hround c' hc' hsame).lt_iff.1 hlt⟩
  · rintro ⟨c', hc', hsame, hlt⟩
    exact ⟨c'.record, List.mem_append_right _ (List.mem_map_of_mem hc'), hsame,
      (hround c' hc' hsame).lt_iff.2 hlt⟩

/-- **The window.** After any calls, a call at which the clock is sound returns that the message is a
repetition exactly if one of the last accepted messages is the same and not expired, and nothing
changes then; otherwise it records the message in the place of the oldest record. -/
theorem tid_window (calls : List TidCall) (c : TidCall) (s : TidRun)
    (hrun : runSteps tidStep tidRunInit calls = some s) (hclock : ClockSound s c) :
    ((genieTransportCheckTid s.queue c).1 = .tidRepeat ↔ IsRepeat s c) ∧
      (IsRepeat s c → (genieTransportCheckTid s.queue c).2 = s.queue) ∧
      (¬ IsRepeat s c → (genieTransportCheckTid s.queue c).1 = .success ∧
        (genieTransportCheckTid s.queue c).2.recent = s.queue.recent.tail ++ [c.record]) := by
  have hinv : TidInv s :=
    runSteps_inv (P := fun _ _ => True) (I := TidInv) (fun _ _ _ h _ hc => h.step hc) tidInv_init
      (stepsMeet_of_forall (fun _ _ _ => trivial) _) hrun
  have hloop := (tidLoop_repeats_iff c (hinv.size.trans (List.length_replicate))).trans
    (hinv.repeats_iff hclock)
  unfold genieTransportCheckTid
  by_cases hrep : IsRepeat s c
  · rw [if_pos (hloop.2 hrep)]
    exact ⟨iff_of_true rfl hrep, fun _ => rfl, fun hno => absurd hrep hno⟩
  · rw [if_neg (fun hlt => hrep (hloop.1 hlt))]
    refine ⟨iff_of_false (by simp) hrep, fun hyes => absurd hyes hrep, fun _ => ⟨rfl, ?_⟩⟩
    exact RecentRing.recent_push hinv.wf

/-- A speaker sends a message again after two seconds, with another of its addresses. -/
theorem tid_window_repeat :
    ∃ s, runSteps tidStep tidRunInit [⟨1000, 0x0001, 0x81, 0⟩] = some s ∧
      ClockSound s ⟨3000, 0x0002, 0x81, 0⟩ ∧
      (genieTransportCheckTid s.queue ⟨3000, 0x0002, 0x81, 0⟩).1 = .tidRepeat := by
  obtain ⟨s, hrun⟩ : ∃ s, runSteps tidStep tidRunInit [⟨1000, 0x0001, 0x81, 0⟩] = some s := ⟨_, rfl⟩
  obtain ⟨hclock, hrep⟩ : ClockSound s ⟨3000, 0x0002, 0x81, 0⟩ ∧
      IsRepeat s ⟨3000, 0x0002, 0x81, 0⟩ := by
    cases hrun
    decide
  exact ⟨s, hrun, hclock, (tid_window _ _ s hrun hclock).1.2 hrep⟩

/-- A message arrives a second before the clock wraps, and again half a second later. -/
theorem tid_window_wraps :
    ¬ ∀ (calls : List TidCall) (c : TidCall) (s : TidRun),
      (calls ++ [c]).Pairwise (fun a b => a.uptime ≤ b.uptime) →
      runSteps tidStep tidRunInit calls = some s →
      ((genieTransportCheckTid s.queue c).1 = .tidRepeat ↔ IsRepeat s c) := by
  intro hall
  have h := hall [⟨4294966296, 0x0001, 0x81, 0⟩] ⟨4294966796, 0x0001, 0x81, 0⟩ _ (by decide) rfl
  revert h
  decide

end GenieSdk.Analysis
