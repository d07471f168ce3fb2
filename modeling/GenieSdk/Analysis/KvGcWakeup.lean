import GenieSdk.Model.KvGcWait

/-!
# Wake-ups of setters waiting for a collection

A setter that has seen `gc_trigger` set will take `gc_sem` without looking again. Such a setter
is *due*; the setters that are due outnumber the tokens of `gc_sem` only while some collection
will still give. `GcWaitInv` says so, and every step keeps it unless it falls into one of the
four windows excluded by `KeepsWakeup`:

* a finished collection finds `gc_waiter = 0` while a setter stands between its test of
  `gc_trigger` and `gc_waiter++`;
* `give_all` wakes the blocked setters, or adds a single token, while further setters are still
  on their way to `gc_sem`;
* `kv_trigger_gc` resets `gc_waiter` under a setter that is counted and not yet woken;
* the 8-bit `gc_waiter` wraps.
-/

set_option autoImplicit false

namespace GenieSdk.Analysis

open GenieSdk.Lib GenieSdk.Model

/-- How many tasks stand at one of the places `p`. -/
def tasksAt {α : Type} (p : α → Bool) (l : List α) : ℕ := l.countP p

/-- Setters between their test of `gc_trigger` and `krhino_sem_take`. -/
def onTheWay (s : GcWaitState) : ℕ :=
  tasksAt (· == .countWaiter) s.setters + tasksAt (· == .takeSem) s.setters

/-- Setters that will need a token or a wake-up. -/
def dueSetters (s : GcWaitState) : ℕ := onTheWay s + tasksAt (· == .blocked) s.setters

/-- Collections that have still to clear `gc_trigger`. -/
def beforeClear (pc : GcPc) : Bool := pc == .lockMutex || pc == .collect || pc == .clearTrigger

/-- Collections that have cleared `gc_trigger` and have still to test `gc_waiter`. -/
def beforeTest (pc : GcPc) : Bool := pc == .unlockMutex || pc == .testWaiter

/-- A setter is blocked on `gc_sem`, `gc_trigger` is 0 and every collection is over. -/
def LostWakeup (s : GcWaitState) : Prop :=
  .blocked ∈ s.setters ∧ s.gcTrigger = 0 ∧ ∀ pc ∈ s.gcs, pc = .deleted

instance (s : GcWaitState) : Decidable (LostWakeup s) := by
  unfold LostWakeup
  infer_instance

/-- The step falls into none of the four windows. -/
def KeepsWakeup (s : GcWaitState) : GcWaitAct → Prop
  | .setter i runGc =>
    (s.setters[i]? = some .countWaiter → s.gcWaiter < 255) ∧
    (s.setters[i]? = some .store → runGc = true → s.gcTrigger = 0 →
      dueSetters s ≤ s.semCount ∨ .giveAll ∈ s.gcs)
  | .gc j =>
    (s.gcs[j]? = some .testWaiter → s.gcWaiter = 0 →
      s.gcTrigger ≠ 0 ∨ dueSetters s ≤ s.semCount) ∧
    (s.gcs[j]? = some .giveAll →
      (s.gcTrigger ≠ 0 ∧ 0 < s.gcWaiter) ∨ onTheWay s ≤ semAfterGiveAll s)

instance (s : GcWaitState) (a : GcWaitAct) : Decidable (KeepsWakeup s a) := by
  cases a <;> unfold KeepsWakeup <;> infer_instance

/-- Some collection will still give, having seen or being about to see a waiter. -/
def WillGive (s : GcWaitState) : Prop :=
  0 < tasksAt (· == .giveAll) s.gcs ∨
    ((s.gcTrigger ≠ 0 ∨ 0 < tasksAt beforeTest s.gcs) ∧
      (0 < s.gcWaiter ∨ 0 < tasksAt (· == .countWaiter) s.setters))

structure GcWaitInv (s : GcWaitState) : Prop where
  idle : s.gcTrigger = 0 → tasksAt beforeClear s.gcs = 0
  running : s.gcTrigger ≠ 0 → tasksAt beforeClear s.gcs = 1
  blocked : 0 < tasksAt (· == .blocked) s.setters → s.semCount = 0
  due : s.semCount < dueSetters s → WillGive s

/-- Moving the task at `i` from `a` to `b`. -/
theorem tasksAt_set {α : Type} {l : List α} {i : ℕ} {a : α} (h : l[i]? = some a) (b : α)
    (p : α → Bool) :
    tasksAt p (l.set i b) + (if p a then 1 else 0) = tasksAt p l + (if p b then 1 else 0) :=
  countP_set_add b p h

/-- A task that is there counts. -/
theorem tasksAt_pos_of_mem {α : Type} {l : List α} {a : α} {p : α → Bool} (h : a ∈ l)
    (hp : p a = true) : 0 < tasksAt p l :=
  List.countP_pos_iff.2 ⟨a, h, hp⟩

/-- Where no task is, none counts. -/
theorem tasksAt_eq_zero {α : Type} {l : List α} {p : α → Bool} (h : ∀ a ∈ l, p a = false) :
    tasksAt p l = 0 :=
  List.countP_eq_zero.2 (fun a ha => by simp [h a ha])

/-- The invariant holds at the start. -/
theorem gcWaitInv_init (n : ℕ) (bootGc : Bool) : GcWaitInv (gcWaitInit n bootGc) := by
  have hset : (gcWaitInit n bootGc).setters = List.replicate n .testTrigger := by
    cases bootGc <;> rfl
  have hcount : ∀ p : SetterPc → Bool, p .testTrigger = false →
      tasksAt p (gcWaitInit n bootGc).setters = 0 := by
    intro p hp
    apply tasksAt_eq_zero
    intro x hx
    rw [hset] at hx
    rw [List.eq_of_mem_replicate hx, hp]
  refine ⟨?_, ?_, ?_, ?_⟩
  · intro h
    cases bootGc with
    | false => rfl
    | true => cases h
  · intro h
    cases bootGc with
    | false => exact absurd rfl h
    | true => rfl
  · intro h
    rw [hcount _ rfl] at h
    omega
  · intro h
    rw [dueSetters, onTheWay, hcount _ rfl, hcount _ rfl, hcount _ rfl] at h
    omega

/-- A setter at one of these places will take `gc_sem` without another look at `gc_trigger`. -/
def committed (pc : SetterPc) : Bool := pc == .countWaiter || pc == .takeSem || pc == .blocked

/-- A move between places where the setter is not committed changes nothing the
invariant reads. -/
theorem GcWaitInv.moveUncommitted {s s' : GcWaitState} {i : ℕ} {pc pc' : SetterPc}
    (hi : GcWaitInv s) (hpc : s.setters[i]? = some pc) (hfrom : committed pc = false)
    (hto : committed pc' = false) (hset : s'.setters = s.setters.set i pc')
    (hgcs : s'.gcs = s.gcs) (htrig : s'.gcTrigger = s.gcTrigger)
    (hwait : s'.gcWaiter = s.gcWaiter) (hsem : s'.semCount = s.semCount) : GcWaitInv s' := by
  have hsame : ∀ p : SetterPc → Bool, (∀ q, p q = true → committed q = true) →
      tasksAt p s'.setters = tasksAt p s.setters := by
    intro p hp
    have hmove := tasksAt_set hpc pc' p
    have h1 : p pc = false := by
      by_contra hc
      rw [hp pc (by simpa using hc)] at hfrom
      cases hfrom
    have h2 : p pc' = false := by
      by_contra hc
      rw [hp pc' (by simpa using hc)] at hto
      cases hto
    rw [hset]
    simpa [h1, h2] using hmove
  have h1 := hsame (· == .countWaiter) (by simp [committed])
  have h2 := hsame (· == .takeSem) (by simp [committed])
  have h3 := hsame (· == .blocked) (by simp [committed])
  refine ⟨?_, ?_, ?_, ?_⟩
  · rw [hgcs, htrig]
    exact hi.idle
  · rw [hgcs, htrig]
    exact hi.running
  · rw [h3, hsem]
    exact hi.blocked
  · have hdue := hi.due
    unfold WillGive dueSetters onTheWay at hdue ⊢
    rw [h1, h2, h3, hsem, hgcs, htrig, hwait]
    exact hdue

/-- A committed setter moves on, or a setter commits. -/
theorem GcWaitInv.moveCommitted {s s' : GcWaitState} {i : ℕ} {pc pc' : SetterPc}
    (hi : GcWaitInv s) (hpc : s.setters[i]? = some pc)
    (hset : s'.setters = s.setters.set i pc') (hgcs : s'.gcs = s.gcs)
    (htrig : s'.gcTrigger = s.gcTrigger)
    (hmove : (pc = .testTrigger ∧ pc' = .countWaiter ∧ s.gcTrigger ≠ 0 ∧
          s'.gcWaiter = s.gcWaiter ∧ s'.semCount = s.semCount) ∨
      (pc = .countWaiter ∧ pc' = .takeSem ∧ 0 < s'.gcWaiter ∧ s'.semCount = s.semCount) ∨
      (pc = .takeSem ∧ pc' = .lockMutex ∧
          s'.gcWaiter = s.gcWaiter ∧ s'.semCount + 1 = s.semCount) ∨
      (pc = .takeSem ∧ pc' = .blocked ∧
          s'.gcWaiter = s.gcWaiter ∧ s'.semCount = 0 ∧ s.semCount = 0)) : GcWaitInv s' := by
  have hcw := tasksAt_set hpc pc' (· == .countWaiter)
  have hts := tasksAt_set hpc pc' (· == .takeSem)
  have hbl := tasksAt_set hpc pc' (· == .blocked)
  have hblk := hi.blocked
  have hdue := hi.due
  unfold WillGive dueSetters onTheWay at hdue
  have hnum : (0 < tasksAt (· == .blocked) s'.setters → s'.semCount = 0) ∧
      (s'.semCount < dueSetters s' → WillGive s') := by
    unfold WillGive dueSetters onTheWay
    rw [hset, hgcs, htrig]
    rcases hmove with ⟨rfl, rfl, hmove⟩ | ⟨rfl, rfl, hmove⟩ | ⟨rfl, rfl, hmove⟩ | ⟨rfl, rfl, hmove⟩
    all_goals
      simp only [beq_iff_eq, reduceCtorEq, if_false, if_true, Nat.add_zero] at hcw hts hbl
      omega
  refine ⟨?_, ?_, hnum.1, hnum.2⟩
  · rw [hgcs, htrig]
    exact hi.idle
  · rw [hgcs, htrig]
    exact hi.running

/-- `kv_trigger_gc` may reset `gc_waiter` when nobody depends on it. -/
theorem GcWaitInv.triggerGc {s : GcWaitState} (hi : GcWaitInv s)
    (hk : s.gcTrigger = 0 → dueSetters s ≤ s.semCount ∨ .giveAll ∈ s.gcs) :
    GcWaitInv (kvTriggerGcWait s) := by
  unfold kvTriggerGcWait
  by_cases ht : s.gcTrigger = 0
  · rw [if_neg (not_not.2 ht)]
    have happ : ∀ p : GcPc → Bool,
        tasksAt p (s.gcs ++ [.lockMutex]) = tasksAt p s.gcs + if p .lockMutex then 1 else 0 := by
      intro p
      simp [tasksAt, List.countP_append, List.countP_singleton]
    refine ⟨?_, ?_, hi.blocked, ?_⟩
    · intro h
      cases h
    · intro _
      have := hi.idle ht
      simp only [happ, this]
      rfl
    · intro hd
      left
      rw [happ]
      rcases hk ht with hle | hg
      · exact absurd hd (by simpa [dueSetters, onTheWay] using hle)
      · have : 0 < tasksAt (· == .giveAll) s.gcs := tasksAt_pos_of_mem hg (by decide)
        omega
  · rw [if_pos ht]
    exact hi

/-- One statement of a setter. -/
theorem GcWaitInv.setter {s s' : GcWaitState} {i : ℕ} {runGc : Bool} {pc : SetterPc}
    (hi : GcWaitInv s) (hpc : s.setters[i]? = some pc) (hk : KeepsWakeup s (.setter i runGc))
    (h : setterStep s i runGc pc = some s') : GcWaitInv s' := by
  cases pc with
  | testTrigger =>
    cases h
    by_cases ht : s.gcTrigger = 0
    · rw [if_neg (not_not.2 ht)]
      exact hi.moveUncommitted hpc rfl rfl rfl rfl rfl rfl rfl
    · rw [if_pos ht]
      exact hi.moveCommitted hpc rfl rfl rfl (.inl ⟨rfl, rfl, ht, rfl, rfl⟩)
  | countWaiter =>
    cases h
    have hwrap := hk.1 hpc
    have hpos : 0 < (s.gcWaiter + 1) % 256 := by omega
    exact hi.moveCommitted hpc rfl rfl rfl (.inr (.inl ⟨rfl, rfl, hpos, rfl⟩))
  | takeSem =>
    unfold setterStep at h
    by_cases hsem : 0 < s.semCount
    · rw [if_pos hsem] at h
      cases h
      exact hi.moveCommitted hpc rfl rfl rfl
        (.inr (.inr (.inl ⟨rfl, rfl, rfl, Nat.sub_add_cancel hsem⟩)))
    · rw [if_neg hsem] at h
      cases h
      have hzero : s.semCount = 0 := by omega
      exact hi.moveCommitted hpc rfl rfl rfl
        (.inr (.inr (.inr ⟨rfl, rfl, rfl, hzero, hzero⟩)))
  | blocked => cases h
  | lockMutex =>
    unfold setterStep at h
    by_cases hm : s.mutex = none
    · rw [if_pos hm] at h
      cases h
      exact hi.moveUncommitted hpc rfl rfl rfl rfl rfl rfl rfl
    · rw [if_neg hm] at h
      cases h
  | store =>
    cases h
    cases runGc with
    | false => exact hi.moveUncommitted hpc rfl rfl rfl rfl rfl rfl rfl
    | true =>
      have htrig := hi.triggerGc (hk.2 hpc rfl)
      have hpc' : (kvTriggerGcWait s).setters[i]? = some .store := by
        unfold kvTriggerGcWait
        split <;> exact hpc
      exact htrig.moveUncommitted hpc' rfl rfl rfl rfl rfl rfl rfl
  | unlockMutex =>
    cases h
    exact hi.moveUncommitted hpc rfl rfl rfl rfl rfl rfl rfl

/-- A move of a collection that neither clears `gc_trigger` nor tests `gc_waiter` nor
gives. -/
theorem GcWaitInv.moveGc {s s' : GcWaitState} {j : ℕ} {pc pc' : GcPc} (hi : GcWaitInv s)
    (hpc : s.gcs[j]? = some pc) (hgcs : s'.gcs = s.gcs.set j pc')
    (hclear : beforeClear pc = beforeClear pc') (htest : beforeTest pc = beforeTest pc')
    (hgive : (pc == .giveAll) = (pc' == .giveAll)) (hset : s'.setters = s.setters)
    (htrig : s'.gcTrigger = s.gcTrigger) (hwait : s'.gcWaiter = s.gcWaiter)
    (hsem : s'.semCount = s.semCount) : GcWaitInv s' := by
  have h1 := tasksAt_set hpc pc' beforeClear
  have h2 := tasksAt_set hpc pc' beforeTest
  have h3 := tasksAt_set hpc pc' (· == .giveAll)
  rw [hclear, Nat.add_right_cancel_iff] at h1
  rw [htest, Nat.add_right_cancel_iff] at h2
  simp only [hgive, Nat.add_right_cancel_iff] at h3
  refine ⟨?_, ?_, ?_, ?_⟩
  · rw [hgcs, htrig, h1]
    exact hi.idle
  · rw [hgcs, htrig, h1]
    exact hi.running
  · rw [hset, hsem]
    exact hi.blocked
  · have hdue := hi.due
    unfold WillGive dueSetters onTheWay at hdue ⊢
    rw [hset, hsem, hgcs, htrig, hwait, h2, h3]
    exact hdue

/-- Clearing `gc_trigger` leaves a collection that has still to test `gc_waiter`. -/
theorem GcWaitInv.clearTrigger {s : GcWaitState} {j : ℕ} (hi : GcWaitInv s)
    (hpc : s.gcs[j]? = some .clearTrigger) :
    GcWaitInv ({ s with gcTrigger := 0 }.setGc j .unlockMutex) := by
  have h1 : tasksAt beforeClear (s.gcs.set j .unlockMutex) + 1 = tasksAt beforeClear s.gcs :=
    tasksAt_set hpc .unlockMutex beforeClear
  have h2 : tasksAt beforeTest (s.gcs.set j .unlockMutex) = tasksAt beforeTest s.gcs + 1 :=
    tasksAt_set hpc .unlockMutex beforeTest
  have h3 : tasksAt (· == .giveAll) (s.gcs.set j .unlockMutex) = tasksAt (· == .giveAll) s.gcs :=
    tasksAt_set hpc .unlockMutex (· == .giveAll)
  refine ⟨?_, ?_, hi.blocked, ?_⟩
  · intro _
    show tasksAt beforeClear (s.gcs.set j .unlockMutex) = 0
    -- at most one collection is before its clear, and it is this one
    by_cases ht : s.gcTrigger = 0
    · have := hi.idle ht
      omega
    · have := hi.running ht
      omega
  · intro h
    exact absurd rfl h
  · intro hd
    have hgive := hi.due hd
    unfold WillGive at hgive ⊢
    simp only [GcWaitState.setGc, h2, h3]
    omega

/-- A collection that has seen no waiter may leave when no setter is overlooked. -/
theorem GcWaitInv.testWaiter {s : GcWaitState} {j : ℕ} (hi : GcWaitInv s)
    (hpc : s.gcs[j]? = some .testWaiter)
    (hk : s.gcWaiter = 0 → s.gcTrigger ≠ 0 ∨ dueSetters s ≤ s.semCount) :
    GcWaitInv (s.setGc j (if 0 < s.gcWaiter then .giveAll else .taskDel)) := by
  by_cases hw : 0 < s.gcWaiter
  · rw [if_pos hw]
    have h1 : tasksAt beforeClear (s.gcs.set j .giveAll) = tasksAt beforeClear s.gcs :=
      tasksAt_set hpc .giveAll beforeClear
    have h3 : tasksAt (· == .giveAll) (s.gcs.set j .giveAll) =
        tasksAt (· == .giveAll) s.gcs + 1 := tasksAt_set hpc .giveAll (· == .giveAll)
    refine ⟨?_, ?_, hi.blocked, ?_⟩
    · exact fun ht => h1.trans (hi.idle ht)
    · exact fun ht => h1.trans (hi.running ht)
    · intro _
      left
      show 0 < tasksAt (· == .giveAll) (s.gcs.set j .giveAll)
      omega
  · rw [if_neg hw]
    have h1 : tasksAt beforeClear (s.gcs.set j .taskDel) = tasksAt beforeClear s.gcs :=
      tasksAt_set hpc .taskDel beforeClear
    have h3 : tasksAt (· == .giveAll) (s.gcs.set j .taskDel) = tasksAt (· == .giveAll) s.gcs :=
      tasksAt_set hpc .taskDel (· == .giveAll)
    refine ⟨?_, ?_, hi.blocked, ?_⟩
    · exact fun ht => h1.trans (hi.idle ht)
    · exact fun ht => h1.trans (hi.running ht)
    · intro hd
      have hdue : s.semCount < dueSetters s := hd
      have hgive := hi.due hdue
      have hlater : s.gcTrigger ≠ 0 := (hk (by omega)).resolve_right (by omega)
      unfold WillGive at hgive ⊢
      simp only [GcWaitState.setGc, h3]
      omega

/-- Waking tasks moves none of those that count. -/
theorem tasksAt_map_wakeUp {p : SetterPc → Bool} (l : List SetterPc)
    (hp : ∀ pc, p (wakeUp pc) = p pc) : tasksAt p (l.map wakeUp) = tasksAt p l := by
  unfold tasksAt
  rw [List.countP_map]
  exact List.countP_congr (fun pc _ => by simp [hp pc])

/-- After `give_all` nobody is blocked; who is still on the way needs a token or a
later collection. -/
theorem GcWaitInv.giveAll {s : GcWaitState} {j : ℕ} (hi : GcWaitInv s)
    (hpc : s.gcs[j]? = some .giveAll)
    (hk : (s.gcTrigger ≠ 0 ∧ 0 < s.gcWaiter) ∨ onTheWay s ≤ semAfterGiveAll s) :
    GcWaitInv ((semGiveAll s).setGc j .taskDel) := by
  have h1 : tasksAt beforeClear (s.gcs.set j .taskDel) = tasksAt beforeClear s.gcs :=
    tasksAt_set hpc .taskDel beforeClear
  have hcw : tasksAt (· == .countWaiter) (s.setters.map wakeUp) =
      tasksAt (· == .countWaiter) s.setters :=
    tasksAt_map_wakeUp _ (by intro pc; cases pc <;> rfl)
  have hts : tasksAt (· == .takeSem) (s.setters.map wakeUp) = tasksAt (· == .takeSem) s.setters :=
    tasksAt_map_wakeUp _ (by intro pc; cases pc <;> rfl)
  have hbl : tasksAt (· == .blocked) (s.setters.map wakeUp) = 0 := by
    apply tasksAt_eq_zero
    intro pc hmem
    obtain ⟨q, -, rfl⟩ := List.mem_map.1 hmem
    cases q <;> rfl
  refine ⟨?_, ?_, ?_, ?_⟩
  · exact fun ht => h1.trans (hi.idle ht)
  · exact fun ht => h1.trans (hi.running ht)
  · intro h
    simp only [GcWaitState.setGc, semGiveAll, hbl] at h
    omega
  · intro h
    have hway : semAfterGiveAll s < onTheWay s := by
      simpa only [dueSetters, onTheWay, GcWaitState.setGc, semGiveAll, hcw, hts, hbl,
        Nat.add_zero] using h
    obtain ⟨ht, hw⟩ := hk.resolve_right (by omega)
    exact .inr ⟨.inl ht, .inl hw⟩

/-- One statement of a collection. -/
theorem GcWaitInv.gc {s s' : GcWaitState} {j : ℕ} {pc : GcPc} (hi : GcWaitInv s)
    (hpc : s.gcs[j]? = some pc) (hk : KeepsWakeup s (.gc j)) (h : gcStep s j pc = some s') :
    GcWaitInv s' := by
  cases pc with
  | lockMutex =>
    unfold gcStep at h
    by_cases hm : s.mutex = none
    · rw [if_pos hm] at h
      cases h
      exact hi.moveGc hpc rfl rfl rfl rfl rfl rfl rfl rfl
    · rw [if_neg hm] at h
      cases h
  | collect =>
    cases h
    exact hi.moveGc hpc rfl rfl rfl rfl rfl rfl rfl rfl
  | clearTrigger =>
    cases h
    exact hi.clearTrigger hpc
  | unlockMutex =>
    cases h
    exact hi.moveGc hpc rfl rfl rfl rfl rfl rfl rfl rfl
  | testWaiter =>
    cases h
    exact hi.testWaiter hpc (hk.1 hpc)
  | giveAll =>
    cases h
    exact hi.giveAll hpc (hk.2 hpc)
  | taskDel =>
    cases h
    exact hi.moveGc hpc rfl rfl rfl rfl rfl rfl rfl rfl
  | deleted => cases h

/-- Every step that keeps the wakeups keeps the invariant. -/
theorem GcWaitInv.step {s s' : GcWaitState} {a : GcWaitAct} (hi : GcWaitInv s)
    (hk : KeepsWakeup s a) (h : gcWaitStep s a = some s') : GcWaitInv s' := by
  cases a with
  | setter i runGc =>
    obtain ⟨pc, hpc, hstep⟩ := Option.bind_eq_some_iff.1 h
    exact hi.setter hpc hk hstep
  | gc j =>
    obtain ⟨pc, hpc, hstep⟩ := Option.bind_eq_some_iff.1 h
    exact hi.gc hpc hk hstep

/-- By the invariant no wakeup is lost. -/
theorem GcWaitInv.not_lost {s : GcWaitState} (hi : GcWaitInv s) : ¬ LostWakeup s := by
  rintro ⟨hmem, ht, hgcs⟩
  have hblk : 0 < tasksAt (· == .blocked) s.setters := tasksAt_pos_of_mem hmem rfl
  have hsem := hi.blocked hblk
  have hgive : tasksAt (· == .giveAll) s.gcs = 0 :=
    tasksAt_eq_zero (fun pc hpc => by rw [hgcs pc hpc]; rfl)
  have htest : tasksAt beforeTest s.gcs = 0 :=
    tasksAt_eq_zero (fun pc hpc => by rw [hgcs pc hpc]; rfl)
  have hwill : WillGive s := hi.due (by unfold dueSetters; omega)
  unfold WillGive at hwill
  omega

/-- **No lost wake-up outside the four windows.** In every run of any number of setters and of
the collections they trigger, if no step falls into a window of `KeepsWakeup` then no setter is
left blocked with `gc_trigger` clear and every collection over. -/
theorem gc_wakeup_not_lost (n : ℕ) (bootGc : Bool) (as : List GcWaitAct) (s : GcWaitState)
    (hmeet : StepsMeet gcWaitStep KeepsWakeup (gcWaitInit n bootGc) as)
    (hrun : runSteps gcWaitStep (gcWaitInit n bootGc) as = some s) : ¬ LostWakeup s := by
  have hinv : GcWaitInv s :=
    runSteps_inv (fun _ _ _ hi hk h => hi.step hk h) (gcWaitInv_init n bootGc) hmeet hrun
  exact hinv.not_lost

/-- A setter that blocks before the collection tests `gc_waiter` is woken. -/
theorem gc_wakeup_not_lost_two :
    StepsMeet gcWaitStep KeepsWakeup (gcWaitInit 2 true)
        [.setter 0 false, .gc 0, .setter 0 false, .gc 0, .setter 0 false, .gc 0, .gc 0, .gc 0] ∧
      ∃ s, runSteps gcWaitStep (gcWaitInit 2 true)
          [.setter 0 false, .gc 0, .setter 0 false, .gc 0, .setter 0 false, .gc 0, .gc 0, .gc 0]
            = some s ∧ .blocked ∈ s.setters ∧ ¬ LostWakeup s := by
  have hmeet : StepsMeet gcWaitStep KeepsWakeup (gcWaitInit 2 true)
      [.setter 0 false, .gc 0, .setter 0 false, .gc 0, .setter 0 false, .gc 0, .gc 0, .gc 0] := by
    decide
  exact ⟨hmeet, _, rfl, by decide, gc_wakeup_not_lost 2 true _ _ hmeet rfl⟩

/-- A single setter loses its wake-up: it has seen `gc_trigger` set by its own earlier call, and
the collection runs to its end before the setter has counted itself. -/
theorem gc_wakeup_lost :
    ¬ ∀ (n : ℕ) (bootGc : Bool) (as : List GcWaitAct) (s : GcWaitState),
      runSteps gcWaitStep (gcWaitInit n bootGc) as = some s → ¬ LostWakeup s := by
  intro hall
  refine hall 1 false
    [.setter 0 false, .setter 0 false, .setter 0 true, .setter 0 false, .setter 0 false,
      .gc 0, .gc 0, .gc 0, .gc 0, .gc 0, .gc 0, .setter 0 false, .setter 0 false] _ rfl ?_
  decide

end GenieSdk.Analysis
