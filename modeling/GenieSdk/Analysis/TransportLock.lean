import GenieSdk.Model.Transport

/-!
# The transport lock

How every call of `genie_transport.c` changes the nesting count of `transport_mutex`. Two returns
leave the mutex locked: `transport_remove_by_tid` when it finds the message, and
`genie_transport_append_mesg` when the allocation fails. `KeepsLock` says that a call takes
neither, and a call is balanced exactly then.
-/

set_option autoImplicit false

namespace GenieSdk.Analysis

open GenieSdk.Lib
open GenieSdk.Model

/-- How many levels of `transport_mutex` a task holds. -/
def lockLevel (s : TransportState) (task : ℕ) : ℕ :=
  if s.mutexTask = some task then s.ownerNested else 0

/-- The tid that `genie_transport_send_model` sends a message under. -/
def sentTid (s : TransportState) (env : TransportEnv) (msg : TransportMsg) : UInt8 :=
  if msg.tid = 0 then (genieTransportGenTid s env).1 else msg.tid

/-- The message that `genie_transport_send_model` gets to, if it gets past its checks. -/
def sentMsg (s : TransportState) (env : TransportEnv) (msg : TransportMsg) : TransportMsg :=
  { msg with tid := sentTid s env msg }

/-- `genie_transport_send_model` gets past its checks. -/
def Sends (s : TransportState) (env : TransportEnv) (msg : TransportMsg) : Prop :=
  msg.data ≠ [] ∧ env.provisioned = true ∧ msg.opid ∈ transportOps ∧
    ¬ tidOutOfRange (sentMsg s env msg)

/-- The append finds room but no memory. -/
def AppendLeaks (s : TransportState) (env : TransportEnv) : Prop :=
  s.sendList.length < vendorSendMsgMax ∧ env.mallocOk = false

/-- **When a call gives the lock back**: no message is found to be removed, and no allocation
fails. -/
def KeepsLock (s : TransportState) (a : TransportAct) : Prop :=
  match a.call with
  | .sendModel msg => Sends s a.env msg →
      genieTransportFindByTid s (sentTid s a.env msg) = none ∧
        ¬ (wantsAppend msg ∧ AppendLeaks s a.env)
  | .appendMesg _ => ¬ AppendLeaks s a.env
  | .removeByTid tid => genieTransportFindByTid s tid = none
  | .retransmitTimerCb => True
  | .ack _ => True

instance (s : TransportState) (env : TransportEnv) : Decidable (AppendLeaks s env) :=
  inferInstanceAs (Decidable (_ ∧ _))

instance (s : TransportState) (env : TransportEnv) (msg : TransportMsg) :
    Decidable (Sends s env msg) :=
  inferInstanceAs (Decidable (_ ∧ _))

instance (s : TransportState) (a : TransportAct) : Decidable (KeepsLock s a) := by
  unfold KeepsLock
  split <;> infer_instance

/-- `s'` has the lock of `s`. -/
def SameLock (s s' : TransportState) : Prop :=
  s'.mutexTask = s.mutexTask ∧ s'.ownerNested = s.ownerNested

/-- `s'` has one level more than `s`, held by `task`. -/
structure LockedOnce (s s' : TransportState) (task : ℕ) : Prop where
  owner : s'.mutexTask = some task
  level : s'.ownerNested = lockLevel s task + 1
  free : s.mutexTask = none ∨ s.mutexTask = some task

/-- The mutex is held as often. -/
theorem SameLock.level {s s' : TransportState} (h : SameLock s s') (u : ℕ) :
    lockLevel s' u = lockLevel s u := by
  unfold lockLevel
  rw [h.1, h.2]

/-- A state with the same mutex. -/
theorem LockedOnce.congr {s s₁ s₂ : TransportState} {task : ℕ} (h : LockedOnce s s₁ task)
    (hs : SameLock s₁ s₂) : LockedOnce s s₂ task where
  owner := hs.1.trans h.owner
  level := hs.2.trans h.level
  free := h.free

/-- The level of the task that locked. -/
theorem LockedOnce.lockLevel_self {s s' : TransportState} {task : ℕ} (h : LockedOnce s s' task) :
    lockLevel s' task = lockLevel s task + 1 := by
  rw [lockLevel, if_pos h.owner, h.level]

/-- A successful lock takes one level and touches nothing else. -/
theorem transportLock_spec {s s' : TransportState} {task : ℕ}
    (h : transportLock s task = some s') :
    LockedOnce s s' task ∧ s'.sendList = s.sendList ∧ s'.allocs = s.allocs ∧ s'.log = s.log := by
  unfold transportLock at h
  split at h
  · next hnone =>
    cases h
    exact ⟨⟨rfl, by simp [lockLevel, hnone], .inl hnone⟩, rfl, rfl, rfl⟩
  · next owner howner =>
    split at h
    · next heq =>
      subst heq
      split at h
      · cases h
      · cases h
        exact ⟨⟨howner, by simp [lockLevel, howner], .inr howner⟩, rfl, rfl, rfl⟩
    · cases h

/-- The unlock gives the level back. -/
theorem LockedOnce.unlock {s s' : TransportState} {task : ℕ} (h : LockedOnce s s' task) :
    (∀ u, lockLevel (transportUnlock s' task) u = lockLevel s u) ∧
      (s.mutexTask = none → (transportUnlock s' task).mutexTask = none) := by
  have hsub : s'.ownerNested - 1 = lockLevel s task := by
    rw [h.level]
    rfl
  have hother : ∀ u, u ≠ task → lockLevel s u = 0 := by
    intro u hu
    rcases h.free with hfree | hown
    · simp [lockLevel, hfree]
    · simp [lockLevel, hown, Ne.symm hu]
  unfold transportUnlock
  rw [if_pos h.owner, hsub]
  by_cases hpos : 0 < lockLevel s task
  · rw [if_pos hpos]
    refine ⟨fun u => ?_, fun hnone => ?_⟩
    · by_cases hu : u = task
      · subst hu
        rw [lockLevel, if_pos h.owner]
      · rw [hother u hu, lockLevel, if_neg]
        rw [h.owner]
        exact fun heq => hu (Option.some.inj heq).symm
    · simp [lockLevel, hnone] at hpos
  · rw [if_neg hpos]
    refine ⟨fun u => ?_, fun _ => rfl⟩
    by_cases hu : u = task
    · subst hu
      simp only [lockLevel, reduceCtorEq, if_false] at hpos ⊢
      omega
    · rw [hother u hu]
      rfl

/-- What a call does to the lock: it gives back what it took, or it leaks a level. -/
def LockEffect (s s' : TransportState) (task : ℕ) (leaks : Prop) : Prop :=
  (¬ leaks → (∀ u, lockLevel s' u = lockLevel s u) ∧
    (s.mutexTask = none → s'.mutexTask = none)) ∧
  (leaks → lockLevel s task < lockLevel s' task)

/-- Nothing is done. -/
theorem LockEffect.refl (s : TransportState) (task : ℕ) {leaks : Prop} (h : ¬ leaks) :
    LockEffect s s task leaks :=
  ⟨fun _ => ⟨fun _ => rfl, id⟩, fun hl => absurd hl h⟩

/-- A call that works under the lock and then unlocks. -/
theorem LockEffect.balanced {s s₁ s₂ : TransportState} {task : ℕ} {leaks : Prop}
    (h : LockedOnce s s₁ task) (hs : SameLock s₁ s₂) (hl : ¬ leaks) :
    LockEffect s (transportUnlock s₂ task) task leaks :=
  ⟨fun _ => (h.congr hs).unlock, fun hl' => absurd hl' hl⟩

/-- A call that returns under the lock. -/
theorem LockEffect.leaked {s s₁ s₂ : TransportState} {task : ℕ} {leaks : Prop}
    (h : LockedOnce s s₁ task) (hs : SameLock s₁ s₂) (hl : leaks) : LockEffect s s₂ task leaks := by
  refine ⟨fun hl' => absurd hl hl', fun _ => ?_⟩
  rw [(h.congr hs).lockLevel_self]
  exact Nat.lt_succ_self _

/-- Work that leaves the lock alone. -/
theorem LockEffect.congr_right {s s₁ s₂ : TransportState} {task : ℕ} {leaks : Prop}
    (h : LockEffect s s₁ task leaks) (hs : SameLock s₁ s₂) : LockEffect s s₂ task leaks := by
  refine ⟨fun hl => ⟨fun u => ?_, fun hnone => ?_⟩, fun hl => ?_⟩
  · rw [hs.level]
    exact (h.1 hl).1 u
  · rw [hs.1]
    exact (h.1 hl).2 hnone
  · rw [hs.level]
    exact h.2 hl

/-- The effect from a state with the same mutex. -/
theorem LockEffect.congr_left {s₀ s s' : TransportState} {task : ℕ} {leaks : Prop}
    (h : LockEffect s s' task leaks) (hs : SameLock s₀ s) : LockEffect s₀ s' task leaks := by
  refine ⟨fun hl => ⟨fun u => ?_, fun hnone => ?_⟩, fun hl => ?_⟩
  · rw [← hs.level]
    exact (h.1 hl).1 u
  · exact (h.1 hl).2 (hs.1.trans hnone)
  · rw [← hs.level]
    exact h.2 hl

/-- The effect with another name for the leak. -/
theorem LockEffect.imp {s s' : TransportState} {task : ℕ} {leaks leaks' : Prop}
    (h : LockEffect s s' task leaks) (hl : leaks ↔ leaks') : LockEffect s s' task leaks' :=
  ⟨fun hn => h.1 (fun hp => hn (hl.1 hp)), fun hp => h.2 (hl.2 hp)⟩

/-- Two calls one after the other. -/
theorem LockEffect.trans {s s₁ s₂ : TransportState} {task : ℕ} {p q : Prop}
    (h₁ : LockEffect s s₁ task p) (h₂ : LockEffect s₁ s₂ task q) :
    LockEffect s s₂ task (p ∨ q) := by
  refine ⟨fun hl => ?_, fun hl => ?_⟩
  · obtain ⟨hp, hq⟩ := not_or.1 hl
    refine ⟨fun u => ((h₂.1 hq).1 u).trans ((h₁.1 hp).1 u), fun hnone => ?_⟩
    exact (h₂.1 hq).2 ((h₁.1 hp).2 hnone)
  · by_cases hp : p
    · have hlt : lockLevel s task < lockLevel s₁ task := h₁.2 hp
      by_cases hq : q
      · exact hlt.trans (h₂.2 hq)
      · rw [(h₂.1 hq).1 task]
        exact hlt
    · have hlt : lockLevel s₁ task < lockLevel s₂ task := h₂.2 (hl.resolve_left hp)
      rwa [(h₁.1 hp).1 task] at hlt

/-- `check_retry_timer` leaves the mutex. -/
theorem checkRetryTimer_sameLock (s : TransportState) (period : ℕ) :
    SameLock s (checkRetryTimer s period) := by
  unfold checkRetryTimer
  split <;> exact ⟨rfl, rfl⟩

/-- Without memory no message is made. -/
theorem generate_none (s : TransportState) {env : TransportEnv} (msg : TransportMsg)
    (h : env.mallocOk = false) : genieTransportMsgNodeGenerate s env msg = none := by
  simp [genieTransportMsgNodeGenerate, h]

/-- The node of a message starts with all its retries. -/
theorem generate_some (s : TransportState) {env : TransportEnv} (msg : TransportMsg)
    (h : env.mallocOk = true) :
    genieTransportMsgNodeGenerate s env msg =
      some
        { id := s.allocs, leftRetry := min msg.retry vendorModelMsgMaxRetryTimes
          timeout := env.uptime 0 + msg.retryPeriod
          msg := { msg with retry := min msg.retry vendorModelMsgMaxRetryTimes } } := by
  have hmin : (if vendorModelMsgMaxRetryTimes < msg.retry then vendorModelMsgMaxRetryTimes
      else msg.retry) = min msg.retry vendorModelMsgMaxRetryTimes := by
    split <;> omega
  simp only [genieTransportMsgNodeGenerate, h, if_true, hmin]

/-- The part under the mutex leaks on a failed allocation. -/
theorem appendLocked_lockEffect {s s' : TransportState} {task : ℕ} {env : TransportEnv}
    {msg : TransportMsg} {id : Option ℕ} (hroom : s.sendList.length < vendorSendMsgMax)
    (h : transportAppendLocked s task env msg = some (id, s')) :
    LockEffect s s' task (AppendLeaks s env) := by
  unfold transportAppendLocked at h
  split at h
  · cases h
  · next s₁ hlock =>
    obtain ⟨hlocked, -, -, -⟩ := transportLock_spec hlock
    cases hm : env.mallocOk with
    | false =>
      rw [generate_none s₁ msg hm] at h
      cases h
      exact .leaked hlocked ⟨rfl, rfl⟩ ⟨hroom, hm⟩
    | true =>
      have hno : ¬ AppendLeaks s env := by
        intro hleak
        rw [hleak.2] at hm
        cases hm
      rw [generate_some s₁ msg hm] at h
      simp only [Option.some.injEq, Prod.mk.injEq] at h
      obtain ⟨-, rfl⟩ := h
      exact .balanced hlocked ⟨rfl, rfl⟩ hno

/-- So does `genie_transport_append_mesg`. -/
theorem append_lockEffect {s s' : TransportState} {task : ℕ} {env : TransportEnv}
    {msg : TransportMsg} {id : Option ℕ}
    (h : genieTransportAppendMesg s task env msg = some (id, s')) :
    LockEffect s s' task (AppendLeaks s env) := by
  unfold genieTransportAppendMesg at h
  split at h
  · next hfull =>
    cases h
    exact .refl s task (fun hleak => absurd hleak.1 (by omega))
  · next hroom =>
    split at h
    · cases h
    · next hlocked =>
      cases h
      exact appendLocked_lockEffect (not_le.1 hroom) hlocked
    · next hlocked =>
      cases h
      exact (appendLocked_lockEffect (not_le.1 hroom) hlocked).congr_right (checkRetryTimer_sameLock _ _)

/-- `transport_remove_by_tid` leaks when it finds the message. -/
theorem removeByTid_lockEffect {s s' : TransportState} {task : ℕ} {tid : UInt8}
    (h : transportRemoveByTid s task tid = some s') :
    LockEffect s s' task (genieTransportFindByTid s tid ≠ none) := by
  unfold transportRemoveByTid at h
  split at h
  · next hnil =>
    cases h
    exact .refl s task (by simp [genieTransportFindByTid, hnil])
  · unfold transportRemoveLocked at h
    split at h
    · cases h
    · next s₁ hlock =>
      obtain ⟨hlocked, hlist, -, -⟩ := transportLock_spec hlock
      have hfind : genieTransportFindByTid s₁ tid = genieTransportFindByTid s tid := by
        simp only [genieTransportFindByTid, hlist]
      rw [hfind] at h
      split at h
      · next node hnode =>
        cases h
        exact .leaked hlocked ⟨rfl, rfl⟩ (by simp [hnode])
      · next hnone =>
        cases h
        exact .balanced hlocked ⟨rfl, rfl⟩ (by simp [hnone])

/-- The acknowledgement gives the lock back on every path. -/
theorem ack_lockEffect {s s' : TransportState} {task : ℕ} {tid : UInt8}
    (h : genieTransportAck s task tid = some s') : LockEffect s s' task False := by
  unfold genieTransportAck at h
  split at h
  · cases h
    exact .refl s task id
  · unfold transportAckLocked at h
    split at h
    · cases h
    · next s₁ hlock =>
      obtain ⟨hlocked, -, -, -⟩ := transportLock_spec hlock
      split at h
      · cases h
        exact .balanced hlocked ⟨rfl, rfl⟩ id
      · cases h
        exact .balanced hlocked ⟨rfl, rfl⟩ id

/-- So does the timer. -/
theorem retransmit_lockEffect {s s' : TransportState} {task : ℕ} {env : TransportEnv}
    (h : retransmitTimerCb s task env = some s') : LockEffect s s' task False := by
  unfold retransmitTimerCb retransmitLocked at h
  cases hlock : transportLock s task with
  | none => simp [hlock] at h
  | some s₁ =>
    obtain ⟨hlocked, -, -, -⟩ := transportLock_spec hlock
    simp only [hlock, Option.some.injEq] at h
    subst h
    have hsame : SameLock s₁
        (TransportState.record { s₁ with sendList := (retransmitLoop env.uptime 0 s₁.sendList 0).1 }
          (retransmitLoop env.uptime 0 s₁.sendList 0).2.1) := ⟨rfl, rfl⟩
    exact (LockEffect.balanced hlocked hsame id).congr_right ⟨rfl, rfl⟩

/-- The removal of an older message leaks when there is one. -/
theorem removeOld_lockEffect {s s' : TransportState} {task : ℕ} {tid : UInt8}
    (h : transportRemoveOld s task tid = some s') :
    LockEffect s s' task (genieTransportFindByTid s tid ≠ none) := by
  unfold transportRemoveOld at h
  split at h
  · exact removeByTid_lockEffect h
  · next hnone =>
    cases h
    exact .refl s task (by simpa using hnone)

/-- The first send gives the mutex back, unless its append leaks it. -/
theorem firstSend_lockEffect {s s' : TransportState} {task : ℕ} {env : TransportEnv}
    {msg : TransportMsg} {r : ℤ} (h : transportFirstSend s task env msg = some (r, s')) :
    LockEffect s s' task (wantsAppend msg ∧ AppendLeaks s env) := by
  unfold transportFirstSend at h
  split at h
  · next hwants =>
    split at h
    · cases h
    · next id s₁ happ =>
      cases h
      exact ((append_lockEffect happ).congr_right ⟨rfl, rfl⟩).imp (by simp [hwants])
  · next hwants =>
    cases h
    exact .congr_right (.refl s task (fun hleak => hwants hleak.1)) ⟨rfl, rfl⟩

/-- If there is an older message its removal has leaked already, so whether the call
leaks is decided by the state before. -/
theorem sendTid_lockEffect {s s' : TransportState} {task : ℕ} {env : TransportEnv}
    {msg : TransportMsg} {r : ℤ} (h : transportSendTid s task env msg = some (r, s')) :
    LockEffect s s' task
      (genieTransportFindByTid s msg.tid ≠ none ∨ (wantsAppend msg ∧ AppendLeaks s env)) := by
  unfold transportSendTid at h
  split at h
  · cases h
  · next s₁ hrem =>
    refine ((removeOld_lockEffect hrem).trans (firstSend_lockEffect h)).imp ?_
    by_cases hfind : genieTransportFindByTid s msg.tid = none
    · have hsame : s₁ = s := by
        simpa [transportRemoveOld, hfind] using hrem.symm
      rw [hsame]
    · simp [hfind]

/-- `genie_transport_send_model` past its checks is `transportSendTid`. -/
theorem sendModel_lockEffect {s s' : TransportState} {task : ℕ} {env : TransportEnv}
    {msg : TransportMsg} {r : ℤ} (h : genieTransportSendModel s task env msg = some (r, s')) :
    LockEffect s s' task
      (Sends s env msg ∧ (genieTransportFindByTid s (sentTid s env msg) ≠ none ∨
        (wantsAppend msg ∧ AppendLeaks s env))) := by
  unfold genieTransportSendModel at h
  split at h
  · next hbad =>
    cases h
    refine .refl s task (fun hleak => ?_)
    rcases hbad with hdata | hprov
    · exact hleak.1.1 hdata
    · simp [hleak.1.2.1] at hprov
  · next hgood =>
    obtain ⟨hdata, hprov⟩ := not_or.1 hgood
    split at h
    · next hop =>
      have hsent : ∀ (s₀ : TransportState), SameLock s s₀ → s₀.sendList = s.sendList →
          (if tidOutOfRange (sentMsg s env msg) then some (-1, s₀)
            else transportSendTid s₀ task env (sentMsg s env msg)) = some (r, s') →
          LockEffect s s' task
            (Sends s env msg ∧ (genieTransportFindByTid s (sentTid s env msg) ≠ none ∨
              (wantsAppend msg ∧ AppendLeaks s env))) := by
        intro s₀ hsame hlist hrun
        split at hrun
        · next hout =>
          cases hrun
          exact (LockEffect.refl s task (fun hleak => hleak.1.2.2.2 hout)).congr_right hsame
        · next hin =>
          have heff := (sendTid_lockEffect hrun).congr_left hsame
          refine heff.imp ?_
          have hs : Sends s env msg := ⟨hdata, by simpa using hprov, hop, hin⟩
          simp only [genieTransportFindByTid, AppendLeaks, hlist, hs, true_and]
          rfl
      by_cases htid : msg.tid = 0
      · simp only [htid, if_true] at h
        refine hsent (genieTransportGenTid s env).2 ⟨rfl, rfl⟩ rfl ?_
        simpa only [sentMsg, sentTid, htid, if_true] using h
      · simp only [htid, if_false] at h
        refine hsent s ⟨rfl, rfl⟩ rfl ?_
        simpa only [sentMsg, sentTid, htid, if_false] using h
    · next hop =>
      cases h
      exact .refl s task (fun hleak => hop hleak.1.2.2.1)

/-- Every call, in one statement. -/
theorem transportStep_lockEffect {s s' : TransportState} {a : TransportAct}
    (h : transportStep s a = some s') : LockEffect s s' a.task (¬ KeepsLock s a) := by
  unfold transportStep at h
  unfold KeepsLock
  cases hcall : a.call with
  | sendModel msg =>
    simp only [hcall, Option.map_eq_some_iff] at h ⊢
    obtain ⟨⟨r, s₁⟩, hsend, rfl⟩ := h
    exact (sendModel_lockEffect hsend).imp (by tauto)
  | appendMesg msg =>
    simp only [hcall, Option.map_eq_some_iff] at h ⊢
    obtain ⟨⟨id, s₁⟩, happ, rfl⟩ := h
    exact (append_lockEffect happ).imp not_not.symm
  | removeByTid tid =>
    simp only [hcall] at h ⊢
    exact removeByTid_lockEffect h
  | retransmitTimerCb =>
    simp only [hcall] at h ⊢
    exact (retransmit_lockEffect h).imp (by simp)
  | ack tid =>
    simp only [hcall] at h ⊢
    exact (ack_lockEffect h).imp (by simp)

/-- **The lock is balanced exactly when nothing leaks.** A call that returns leaves every task's
nesting count of `transport_mutex` as it was if and only if it meets `KeepsLock`; and in every run
of calls that all meet it, no task owns the mutex between the calls. -/
theorem transport_lock_balanced (s : TransportState) (a : TransportAct) (s' : TransportState)
    (h : transportStep s a = some s') :
    ((∀ u, lockLevel s' u = lockLevel s u) ↔ KeepsLock s a) ∧
    ∀ (as : List TransportAct) (s : TransportState),
      StepsMeet transportStep KeepsLock genieTransportInit as →
        runSteps transportStep genieTransportInit as = some s → s.mutexTask = none := by
  refine ⟨?_, fun as s hmeet hrun => ?_⟩
  · have heff := transportStep_lockEffect h
    refine ⟨fun hsame => ?_, fun hk => (heff.1 (not_not.2 hk)).1⟩
    by_contra hk
    exact absurd (hsame a.task) (heff.2 hk).ne'
  · refine runSteps_inv (I := fun s => s.mutexTask = none) ?_ rfl hmeet hrun
    intro s a s' hnone hk h
    exact ((transportStep_lockEffect h).1 (not_not.2 hk)).2 hnone

/-- Task 1 sends an indication that is listed for retransmission. -/
def sendIndication : TransportAct where
  task := 1
  env := { provisioned := true, mallocOk := true, rand := 7, uptime := fun _ => 0, modelSend := 0 }
  call := .sendModel
    { resultCb := true, retry := 2, opid := vendorOpAttrIndicate, tid := 0x85, dstAddr := 0xF000
      retryPeriod := 600, data := [0x00, 0x01, 0x01] }

/-- One indication is sent: the mutex is given back. -/
theorem transport_lock_balanced_one_send :
    StepsMeet transportStep KeepsLock genieTransportInit [sendIndication] ∧
      ∃ s, transportStep genieTransportInit sendIndication = some s ∧ s.sendList.length = 1 ∧
        ((∀ u, lockLevel s u = lockLevel genieTransportInit u) ↔
          KeepsLock genieTransportInit sendIndication) ∧ s.mutexTask = none := by
  have hmeet : StepsMeet transportStep KeepsLock genieTransportInit [sendIndication] := by decide
  exact ⟨hmeet, _, rfl, by decide, (transport_lock_balanced _ _ _ rfl).1,
    (transport_lock_balanced genieTransportInit sendIndication _ rfl).2 [sendIndication] _ hmeet rfl⟩

/-- The same indication sent twice: the second send finds the first one listed, removes it and
keeps the lock. -/
theorem transport_lock_leaked :
    ¬ ∀ (s : TransportState) (a : TransportAct) (s' : TransportState),
      transportStep s a = some s' → ∀ u, lockLevel s' u = lockLevel s u := by
  intro hall
  have hfirst : ∃ s, transportStep genieTransportInit sendIndication = some s ∧
      ∃ s', transportStep s sendIndication = some s' ∧ lockLevel s 1 = 0 ∧ lockLevel s' 1 = 1 :=
    ⟨_, rfl, _, rfl, by decide, by decide⟩
  obtain ⟨s, -, s', h, h0, h1⟩ := hfirst
  have := hall s sendIndication s' h 1
  omega

end GenieSdk.Analysis
