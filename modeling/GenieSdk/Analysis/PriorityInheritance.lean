import GenieSdk.Analysis.PriorityCalls

/-!
# Priority inheritance over whole runs

Every step of the kernel keeps the priorities inherited, as long as no task is deleted a second time
while its old `mutex_list` still points at mutexes: such a deletion hands on mutexes that others own,
and the owners keep the priorities of those who waited for them.
-/

set_option autoImplicit false

namespace GenieSdk.Analysis.Rhino

open GenieSdk.Model.Rhino
open GenieSdk.Model (AllocFlag BlkState KStat)
open GenieSdk.Lib

section Deletion

variable {s s' s₁ : Kern} {del : Option ℕ} {task fuel : ℕ} {l : List ℕ}

/-- While the mutexes of a task are being freed, all others have inherited their priorities. -/
structure FreeingPrio (task : ℕ) (s : Kern) (l : List ℕ) : Prop where
  freeing : Freeing task s l
  inherits : Inherits s (WaitsOn s) (some task)

/-- The next mutex to be freed is nobody's, as far as the others are concerned. -/
theorem FreeingPrio.unowned {m : ℕ} (h : FreeingPrio task s (m :: l)) :
    Inherits s (WaitsBut s m) (some task) := by
  have hown : Owns s task m := (h.freeing.mem m).1 List.mem_cons_self
  apply h.inherits.unowned
  intro t ht
  rw [owns_unique s t task m ht hown]

/-- **All mutexes of a task are freed**, and those who get them are urgent enough. -/
theorem taskMutexFree_inherits (h : Inherits s (WaitsOn s) none) (ho : Owned s) (hk : KernOk s del)
    (hlive : Live (s.tasks task))
    (hc : taskMutexFree fuel s (s.tasks task).mutexList = some s₁) : FreeingPrio task s₁ [] := by
  obtain ⟨l, hl, hnodup, hmem⟩ := ho.chain task hlive (by simp)
  have h₀ : Freeing task s l :=
    ⟨⟨fun t ht _ => ho.chain t ht (by simp), ho.unique, ho.seed, ho.live, ho.free, ho.self⟩, hlive,
      hmem⟩
  refine (taskMutexFree_rule hk hl hnodup (I := FreeingPrio task) ⟨h₀, h.weaken (some task)⟩ ?_ ?_ hc).2
  · intro s m l _ hml hI hnil
    exact ⟨hI.freeing.free hml hnil, hI.unowned.setFree⟩
  · intro s s₁ m l w rest hk hml hI hlist hwake
    have hown : Owns s task m := (hI.freeing.mem m).1 List.mem_cons_self
    exact ⟨hI.freeing.hand hk hml hlist hwake, hI.unowned.hand hk hown.1 hlist hwake⟩

/-- Storage is written whose task is in no list: there is none before, or none after. -/
theorem Inherits.setStorage {exc : Option ℕ} {t' : KTask} (h : Inherits s (WaitsOn s) exc)
    (htasks : s'.tasks = Function.update s.tasks task t') (hobjs : s'.objs = s.objs)
    (hnone : ∀ m, task ∉ (s.objs m).blkList) (hexc : ∀ t, some t = exc → t = task)
    (hnew : Live t' → t'.prio = t'.bPrio ∧ ∀ m, ¬ Owns s task m) : Inherits s' (WaitsOn s') none := by
  have hother : ∀ t, t ≠ task → s'.tasks t = s.tasks t := by
    intro t ht
    rw [htasks, Function.update_of_ne ht]
  have hwaits : ∀ w t, WaitsOn s' w t ↔ WaitsOn s w t := by
    intro w t
    unfold WaitsOn Owns
    rw [hobjs]
  have hwaiter : ∀ w t, WaitsOn s w t → w ≠ task := by
    rintro w t ⟨m, -, hw⟩ rfl
    exact hnone m hw
  constructor
  · intro t ht _
    by_cases htt : t = task
    · subst htt
      rw [htasks, Function.update_self] at ht
      obtain ⟨hprio, hno⟩ := hnew ht
      have hbase : prioOf s' t = basePrio s' t := by
        simp only [prioOf, basePrio, htasks, Function.update_self]
        exact hprio
      rw [hbase]
      apply least_claims_alone
      intro w hw
      obtain ⟨m, hm, -⟩ := (hwaits w t).1 hw
      exact hno m hm
    · have hclaims : claims (basePrio s') (prioOf s') (WaitsOn s') t =
          claims (basePrio s) (prioOf s) (WaitsOn s) t := by
        apply claims_congr
        · simp only [basePrio, hother t htt]
        · exact fun w => hwaits w t
        · intro w hw
          simp only [prioOf, hother w (hwaiter w t hw)]
      have hprio : prioOf s' t = prioOf s t := by simp only [prioOf, hother t htt]
      rw [hclaims, hprio]
      rw [hother t htt] at ht
      exact h.least t ht fun heq => htt (hexc t heq)
  · apply h.ordered.congr
    · intro m hm
      rw [hobjs] at hm ⊢
      exact ⟨hm, rfl, List.Sublist.refl _⟩
    · intro m _ t ht
      have htt : t ≠ task := by
        rintro rfl
        rw [hobjs] at ht
        exact hnone m ht
      simp only [prioOf, hother t htt]

/-- The task that is deleted waits for nobody any more. -/
theorem taskDelSwitch_inherits (h : FreeingPrio task s []) (hk : KernOk s del)
    (hc : taskDelSwitch fuel s task = some (some s')) : Inherits s' (WaitsOn s') none := by
  have hk' : KernOk s' del := taskDelSwitch_ok hk hc
  obtain ⟨s₁, rfl, ⟨t', hstate, htasks, hobjs, -⟩ | ⟨hpend, hcancel⟩⟩ := taskDelSwitch_cases hc
  · apply Inherits.record
    have hdead : (s₁.tasks task).taskState = .deleted := by
      rw [htasks, Function.update_self]
      exact hstate
    refine h.inherits.setStorage htasks hobjs ?_ (fun t ht => Option.some.inj ht) ?_
    · intro m hm
      rw [← hobjs] at hm
      exact (pending_live (hk'.waiter hm).1).2 hdead
    · rintro ⟨-, hnot⟩
      exact absurd hstate hnot
  · obtain ⟨obj, hobj⟩ := (hk.tasks task).blkObj hpend
    have ho : Owned (cancelled s task .deleted (s.tasks task).blkState) :=
      h.freeing.kill (cancelled_tasks s task _ _) rfl (sublists_erase (cancelled_objs hobj _ _))
    apply Inherits.record
    apply pendCancel_inherits h.inherits hk hpend _ h.freeing.own.self (.inr (.inl rfl)) ho hcancel
    intro t ht
    exact ⟨Option.some.inj ht, rfl⟩

/-- Deleting a task keeps the inherited priorities right. -/
theorem Deletes.inherits (hc : Deletes fuel s task s') (h : Inherits s (WaitsOn s) none)
    (ho : Owned s) (hk : KernOk s del) (hlive : Live (s.tasks task)) :
    Inherits s' (WaitsOn s') none := by
  obtain ⟨s₁, hfree, hswitch⟩ := hc.switch ho hk hlive
  exact taskDelSwitch_inherits (taskMutexFree_inherits h ho hk hlive hfree)
    (taskMutexFree_ok hk hfree) hswitch

/-- So does creating one. -/
theorem taskCreate_inherits {prio ticks : ℕ} {autorun : Bool} {flag : AllocFlag} {st : KStat}
    (h : Inherits s (WaitsOn s) none) (hk : KernOk s none) (ho : Owned s)
    (hc : taskCreate s task prio ticks autorun flag = some (st, s')) :
    Inherits s' (WaitsOn s') none := by
  obtain rfl | ⟨hfree, -, htasks, hobjs, -, -, -⟩ := taskCreate_cases hc
  · exact h
  have hdead : ¬ Live (s.tasks task) := by
    rintro ⟨hseed, hdel⟩
    obtain hf | hf := hfree
    · exact hseed hf
    · exact hdel hf
  refine h.setStorage htasks hobjs ?_ (by simp) ?_
  · intro m hm
    exact hdead (pending_live (hk.waiter hm).1)
  · intro _
    exact ⟨rfl, fun m hm => hdead (ho.live task m hm)⟩

/-- Who waits for the semaphore of the dynamic tasks waits for no mutex. -/
theorem resSemGive_inherits (h : Inherits s (WaitsOn s) none) (hk : KernOk s none)
    (hc : resSemGive s = some s') : Inherits s' (WaitsOn s') none := by
  obtain rfl | ⟨htype, first, rest, hlist, hwake⟩ := resSemGive_cases hc
  · exact h
  have hmem : first ∈ (s.objs resSem).blkList := by
    rw [hlist]
    exact List.mem_cons_self
  apply h.same
  apply pendTaskEnd_samePrio hk _ hwake
  intro m hm
  rw [(hk.waiter hmem).2] at hm
  cases hm
  simp [htype]

end Deletion

section Steps

variable {s s' : Kern} {fuel : ℕ}

/-- **Every call** keeps the priorities inherited. -/
theorem kernCall_inherits {c : KernCall} (h : Inherits s (WaitsOn s) none) (hk : KernOk s none)
    (ho : Owned s) (hrun : 0 < s.intrptLevel ∨ (s.tasks s.active).taskState = .rdy)
    (hfirst : FirstDeletion s (.call c)) (hc : kernCall fuel s c = some s') :
    Inherits s' (WaitsOn s') none := by
  cases c with
  | taskCreate task prio ticks autorun flag =>
    obtain ⟨st, hc⟩ := map_snd_eq hc
    exact taskCreate_inherits h hk ho hc
  | taskDel given =>
    obtain ⟨st, hc⟩ := map_snd_eq hc
    obtain rfl | ⟨hallowed, hdel⟩ := krhinoTaskDel_cases hc
    · exact h
    · obtain hlive | rfl := hdel.cases ho (hfirst hallowed)
      · exact hdel.inherits h ho hk hlive
      · exact h
  | taskDynDel given =>
    obtain ⟨st, hc⟩ := map_snd_eq hc
    obtain rfl | ⟨-, hnot, s₀, hgive, hdel⟩ := krhinoTaskDynDel_cases hc
    · exact h
    · have h₀ := resSemGive_inherits h hk hgive
      have ho₀ : Owned s₀ := ho.same (resSemGive_sameOwn hk hgive)
      obtain hlive | rfl := hdel.cases ho₀ (dynDel_first hk hnot hgive)
      · exact hdel.inherits h₀ ho₀ (resSemGive_ok hk hgive) hlive
      · exact h₀
  | taskSleep ticks =>
    obtain ⟨st, hc⟩ := map_snd_eq hc
    obtain rfl | ⟨hintrpt, tickMatch, l, rq, -, -, rfl⟩ := krhinoTaskSleep_cases hc
    · exact h
    · have hrdy := hrun.resolve_left hintrpt
      exact h.same (samePrio_task (sleepingTask (s.tasks s.active) ticks tickMatch) rfl rfl rfl
        (fun _ => by simp [Live, hrdy]) rfl)
  | taskYield =>
    obtain ⟨st, hc⟩ := map_snd_eq hc
    obtain ⟨rq, -, heq⟩ := Option.map_eq_some_iff.1 hc
    cases heq
    exact h.same (samePrio_rest rfl rfl)
  | taskSuspend task =>
    obtain ⟨st, hc⟩ := map_snd_eq hc
    obtain ⟨-, rfl⟩ | ⟨-, t', rq, rfl, hre, -⟩ := krhinoTaskSuspend_cases (hk.tasks task) hc
    · exact h
    · exact h.same hre.samePrio
  | taskResume task =>
    obtain ⟨st, hc⟩ := map_snd_eq hc
    obtain ⟨-, rfl⟩ | ⟨-, t', rq, rfl, hre, -⟩ := krhinoTaskResume_cases (hk.tasks task) hc
    · exact h
    · exact h.same hre.samePrio
  | taskPriChange task pri =>
    obtain ⟨st, hc⟩ := map_snd_eq hc
    exact krhinoTaskPriChange_inherits h hk ho hc
  | taskWaitAbort task =>
    obtain ⟨st, hc⟩ := map_snd_eq hc
    exact krhinoTaskWaitAbort_inherits h hk ho hc
  | mutexCreate mutex flag => exact mutexCreate_inherits h hc
  | mutexDel mutex =>
    obtain ⟨st, hc⟩ := map_snd_eq hc
    exact mutexDel_inherits h hk ho hc
  | mutexDynDel mutex =>
    obtain ⟨st, hc⟩ := map_snd_eq hc
    exact mutexDel_inherits h hk ho hc
  | mutexLock mutex ticks =>
    obtain ⟨st, hc⟩ := map_snd_eq hc
    exact krhinoMutexLock_inherits h hk ho hrun hc
  | mutexUnlock mutex =>
    obtain ⟨st, hc⟩ := map_snd_eq hc
    exact krhinoMutexUnlock_inherits h hk ho hrun hc
  | blkObjCreate obj policy =>
    simp only [kernCall, blkObjCreate] at hc
    split_ifs at hc with hfree
    cases hc
    exact h.same (samePrio_setObj (by simp [not_not.1 hfree]) (by simp))
  | blkObjPend obj ticks =>
    obtain ⟨st, hc⟩ := map_snd_eq hc
    unfold blkObjPend at hc
    split_ifs at hc with hintrpt htype hticks hlock
    · cases hc
      exact h
    · cases hc
      exact h
    · cases hc
      exact h
    · cases hc
      exact h
    · obtain ⟨s₁, hpend, heq⟩ := Option.map_eq_some_iff.1 hc
      cases heq
      exact h.same (pendToBlkObj_samePrio (hrun.resolve_left hintrpt) (Nat.pos_of_ne_zero hticks)
        (by simp [not_not.1 htype]) hpend)
  | blkObjWake obj task =>
    obtain ⟨st, hc⟩ := map_snd_eq hc
    unfold blkObjWake at hc
    split_ifs at hc with htype hmem
    · cases hc
      exact h
    · obtain ⟨s₁, hwake, heq⟩ := Option.map_eq_some_iff.1 hc
      cases heq
      apply h.same
      apply pendTaskEnd_samePrio hk _ hwake
      intro m hm
      rw [(hk.waiter hmem).2] at hm
      cases hm
      simp [not_not.1 htype]
  | blkObjDel obj =>
    obtain ⟨st, hc⟩ := map_snd_eq hc
    unfold blkObjDel at hc
    split_ifs at hc with hintrpt htype
    · cases hc
      exact h
    · cases hc
      exact h
    · obtain ⟨s₁, hall, heq⟩ := Option.map_eq_some_iff.1 hc
      cases heq
      have hset : SamePrio s (s.setObj obj { s.objs obj with objType := .none }) :=
        samePrio_setObj (by simp [not_not.1 htype]) (by simp)
      exact pendTaskRmAll_inherits (h.same hset) (hk.beginDel obj) (by simp) hall
  | schedDisable =>
    cases hc
    unfold krhinoSchedDisable
    split_ifs
    all_goals exact h.same (samePrio_rest rfl rfl)
  | schedEnable =>
    cases hc
    unfold krhinoSchedEnable
    split_ifs
    all_goals exact h.same (samePrio_rest rfl rfl)
  | tickListUpdate ticks =>
    have hk₁ : KernOk { s with tickCount := GenieSdk.Model.addTime s.tickCount ticks } none :=
      ⟨hk.rq, hk.tick, hk.blk, hk.tasks, hk.dead⟩
    apply tickListLoop_inherits _ hk₁ _ hc
    · exact h.same (samePrio_rest rfl rfl)
    · exact ho.same (sameOwn_rest rfl rfl rfl)
  | timeSliceUpdate =>
    simp only [kernCall, timeSliceUpdate] at hc
    split at hc
    case h_1 =>
      cases hc
      exact h
    case h_2 =>
      cases hc
      exact h
    case h_3 first rest _ _ =>
      split_ifs at hc with hfifo hslice
      · cases hc
        exact h
      · cases hc
        exact h.same (samePrio_task _ rfl rfl rfl id rfl)
      · obtain ⟨rq, hrot, rfl⟩ := Option.map_eq_some_iff.1 hc
        exact h.same (samePrio_task _ rfl rfl rfl id rfl)

/-- Every step keeps them right, if no task is deleted twice. -/
theorem kernStep_inherits {a : KernAct} (h : Inherits s (WaitsOn s) none) (hk : KernOk s none)
    (ho : Owned s) (hfirst : FirstDeletion s a) (hc : kernStep fuel s a = some s') :
    Inherits s' (WaitsOn s') none := by
  obtain ⟨c, rfl, hrun, hcall⟩ | ⟨-, task, level, rfl⟩ := kernStep_cases hc
  · exact kernCall_inherits h hk ho hrun hfirst hcall
  · exact h.same (samePrio_rest rfl rfl)

/-- At the start no task inherits. -/
theorem krhinoStart_inherits : Inherits krhinoStart (WaitsOn krhinoStart) none := by
  refine ⟨?_, fun m hm => absurd hm (krhinoStart_type m), fun m hm => absurd hm (krhinoStart_type m)⟩
  intro t _ _
  have hbase : prioOf krhinoStart t = basePrio krhinoStart t := by
    simp only [prioOf, basePrio, krhinoStart, Function.update_apply]
    split
    · rfl
    · rfl
  rw [hbase]
  apply least_claims_alone
  rintro w ⟨m, hm, -⟩
  exact krhinoStart_type m hm.1

end Steps

section Runs

/-- **Priority inheritance**: the priority of a task is the least of its base priority and of the
priorities of all tasks that wait for a mutex it owns, and every mutex has its waiters in the order of
their priorities. -/
structure PriorityInv (s : Kern) : Prop where
  prio_least : ∀ t, Live (s.tasks t) → IsLeast
    (insert (s.tasks t).bPrio {q | ∃ w m, (s.objs m).objType = .mutex ∧
      (s.objs m).mutexTask = some t ∧ w ∈ (s.objs m).blkList ∧ (s.tasks w).prio = q}) (s.tasks t).prio
  blk_sorted : ∀ m, (s.objs m).objType = .mutex →
    (s.objs m).blkList.Pairwise fun a b => (s.tasks a).prio ≤ (s.tasks b).prio

/-- Inherited priorities that are right are what is claimed. -/
theorem Inherits.priorityInv {s : Kern} (h : Inherits s (WaitsOn s) none) : PriorityInv s := by
  refine ⟨?_, h.ordered.sorted⟩
  intro t ht
  have hset : claims (basePrio s) (prioOf s) (WaitsOn s) t = insert (s.tasks t).bPrio
      {q | ∃ w m, (s.objs m).objType = .mutex ∧ (s.objs m).mutexTask = some t ∧
        w ∈ (s.objs m).blkList ∧ (s.tasks w).prio = q} := by
    unfold claims
    congr 1
    ext q
    constructor
    · rintro ⟨w, ⟨m, hm, hw⟩, hq⟩
      exact ⟨w, m, hm.1, hm.2, hw, hq⟩
    · rintro ⟨w, m, hm, howner, hw, hq⟩
      exact ⟨w, ⟨m, ⟨hm, howner⟩, hw⟩, hq⟩
  rw [← hset]
  exact h.least t ht (by simp)

/-- A run in which no task is deleted again while its old list points at mutexes. -/
theorem kernRun_inherits {fuel : ℕ} {acts : List KernAct} {s : Kern}
    (hrun : runSteps (kernStep fuel) krhinoStart acts = some s)
    (hmeet : StepsMeet (kernStep fuel) FirstDeletion krhinoStart acts) :
    KernOk s none ∧ Owned s ∧ Inherits s (WaitsOn s) none := by
  refine @runSteps_inv _ _ (kernStep fuel) FirstDeletion
    (fun s => KernOk s none ∧ Owned s ∧ Inherits s (WaitsOn s) none) ?_ _ _ _ ?_ hmeet hrun
  · rintro s a s' ⟨hk, ho, h⟩ hfirst hstep
    exact ⟨kernStep_ok hk hstep, kernStep_owned ho hk hfirst hstep,
      kernStep_inherits h hk ho hfirst hstep⟩
  · exact ⟨krhinoStart_ok, krhinoStart_owned, krhinoStart_inherits⟩

/-- **Priority inheritance in every reachable state** of a run in which no task is deleted again
while its old `mutex_list` points at mutexes. -/
theorem priority_inheritance (fuel : ℕ) (acts : List KernAct) (s : Kern)
    (hrun : runSteps (kernStep fuel) krhinoStart acts = some s)
    (hmeet : StepsMeet (kernStep fuel) FirstDeletion krhinoStart acts) : PriorityInv s := by
  obtain ⟨-, -, h⟩ := kernRun_inherits hrun hmeet
  exact h.priorityInv

/-- Task 1 owns mutex 1, task 2 owns mutex 2 and waits for mutex 1, and task 3 waits for mutex 2. -/
theorem priority_inheritance_chain :
    ∃ s, runSteps (kernStep 9) krhinoStart
        [.call (.taskCreate 1 20 0 true .staticAlloc), .coreSched,
          .call (.mutexCreate 1 .staticAlloc), .call (.mutexCreate 2 .staticAlloc),
          .call (.mutexLock 1 waitForever), .call (.taskCreate 2 15 0 true .staticAlloc), .coreSched,
          .call (.mutexLock 2 waitForever), .call (.mutexLock 1 waitForever), .coreSched,
          .call (.taskCreate 3 5 0 true .staticAlloc), .coreSched,
          .call (.mutexLock 2 waitForever), .coreSched] = some s ∧
      (s.tasks 1).bPrio = 20 ∧ (s.tasks 1).prio = 5 ∧ (s.tasks 2).prio = 5 ∧
      (s.objs 1).blkList = [2] ∧ (s.objs 2).blkList = [3] ∧ PriorityInv s := by
  obtain ⟨s, hrun, hbase, hone, htwo, hlist, hlist'⟩ : ∃ s, runSteps (kernStep 9) krhinoStart
        [.call (.taskCreate 1 20 0 true .staticAlloc), .coreSched,
          .call (.mutexCreate 1 .staticAlloc), .call (.mutexCreate 2 .staticAlloc),
          .call (.mutexLock 1 waitForever), .call (.taskCreate 2 15 0 true .staticAlloc), .coreSched,
          .call (.mutexLock 2 waitForever), .call (.mutexLock 1 waitForever), .coreSched,
          .call (.taskCreate 3 5 0 true .staticAlloc), .coreSched,
          .call (.mutexLock 2 waitForever), .coreSched] = some s ∧
      (s.tasks 1).bPrio = 20 ∧ (s.tasks 1).prio = 5 ∧ (s.tasks 2).prio = 5 ∧
      (s.objs 1).blkList = [2] ∧ (s.objs 2).blkList = [3] := ⟨_, rfl, rfl, rfl, rfl, rfl, rfl⟩
  refine ⟨s, hrun, hbase, hone, htwo, hlist, hlist', priority_inheritance 9 _ s hrun ?_⟩
  apply stepsMeet_of_forall
  intro a ha s
  simp only [List.mem_cons, List.not_mem_nil, or_false] at ha
  obtain rfl | rfl | rfl | rfl | rfl | rfl | rfl | rfl | rfl | rfl | rfl | rfl | rfl | rfl := ha
  all_goals trivial

/-- Task 1 owns mutex 1, and there is task 2. -/
def ownerRun : List KernAct :=
  [.call (.taskCreate 1 20 0 true .staticAlloc), .coreSched, .call (.mutexCreate 1 .staticAlloc),
    .call (.mutexLock 1 waitForever), .call (.taskCreate 2 15 0 true .staticAlloc)]

/-- Task 2 gets mutex 1, and task 3 waits for it. -/
def successorRun : List KernAct :=
  [.coreSched, .call (.mutexLock 1 waitForever), .call (.taskCreate 3 5 0 true .staticAlloc),
    .coreSched, .call (.mutexLock 1 waitForever), .coreSched]

/-- The first deletion of task 1 meets the condition. -/
theorem staleRun_meets : StepsMeet (kernStep 9) FirstDeletion krhinoStart
    (ownerRun ++ [.call (.taskDel none)] ++ successorRun) := by
  obtain ⟨s₁, s₂, hrun₁, hrun₂, hactive, hstate⟩ : ∃ s₁ s₂,
      runSteps (kernStep 9) krhinoStart ownerRun = some s₁ ∧
      runSteps (kernStep 9) krhinoStart (ownerRun ++ [.call (.taskDel none)]) = some s₂ ∧
      s₁.active = 1 ∧ (s₁.tasks 1).taskState = .rdy := ⟨_, _, rfl, rfl, rfl, rfl⟩
  have hfirst : StepsMeet (kernStep 9) FirstDeletion krhinoStart ownerRun := by
    apply stepsMeet_of_forall
    intro a ha s
    simp only [ownerRun, List.mem_cons, List.not_mem_nil, or_false] at ha
    obtain rfl | rfl | rfl | rfl | rfl := ha
    all_goals trivial
  have hdel : StepsMeet (kernStep 9) FirstDeletion s₁ [.call (.taskDel none)] := by
    refine ⟨?_, fun _ _ => trivial⟩
    intro _ hdeleted
    rw [Option.getD_none, hactive, hstate] at hdeleted
    cases hdeleted
  apply (hfirst.append hrun₁ hdel).append hrun₂
  apply stepsMeet_of_forall
  intro a ha s
  simp only [successorRun, List.mem_cons, List.not_mem_nil, or_false] at ha
  obtain rfl | rfl | rfl | rfl | rfl | rfl := ha
  all_goals trivial

/-- Task 1 is deleted again. The mutex goes to task 3, and task 2, which owns none, stays as urgent as
task 3. -/
theorem priority_inheritance_stale :
    ∃ s, runSteps (kernStep 9) krhinoStart (ownerRun ++ [.call (.taskDel none)] ++ successorRun ++
        [.call (.taskDel (some 1))]) = some s ∧
      (s.tasks 2).taskState = .rdy ∧ (s.tasks 2).bPrio = 15 ∧ (s.tasks 2).prio = 5 ∧
      (s.objs 1).mutexTask = some 3 ∧ (∀ m, ¬ Owns s 2 m) ∧ ¬ PriorityInv s := by
  obtain ⟨s₀, s₁, hrun₀, hwake, hrun, hlist, hlink, hnext, hstate, htype, hstate', hbase, hprio⟩ :
      ∃ s₀ s₁, runSteps (kernStep 9) krhinoStart
        (ownerRun ++ [.call (.taskDel none)] ++ successorRun) = some s₀ ∧
      pendTaskWakeup s₀ 3 = some s₁ ∧
      runSteps (kernStep 9) krhinoStart (ownerRun ++ [.call (.taskDel none)] ++ successorRun ++
        [.call (.taskDel (some 1))]) = some (mutexHandTo s₁ 1 3) ∧
      (s₀.objs 1).blkList = [3] ∧ (s₀.tasks 2).mutexList = some 1 ∧ (s₀.objs 1).mutexList = none ∧
      (s₀.tasks 2).taskState = .rdy ∧ (s₀.objs 1).objType = .mutex ∧
      ((mutexHandTo s₁ 1 3).tasks 2).taskState = .rdy ∧ ((mutexHandTo s₁ 1 3).tasks 2).bPrio = 15 ∧
      ((mutexHandTo s₁ 1 3).tasks 2).prio = 5 :=
    ⟨_, _, rfl, rfl, rfl, rfl, rfl, rfl, rfl, rfl, rfl, rfl, rfl⟩
  obtain ⟨hk, ho, -⟩ := kernRun_inherits hrun₀ staleRun_meets
  obtain ⟨-, hsame, -⟩ := wakeFirst_spec hk hlist hwake
  -- before, task 2 owned mutex 1 and nothing else
  have hone : ∀ m, Owns s₀ 2 m → m = 1 := by
    intro m hm
    obtain ⟨l, hl, -, hmem⟩ := ho.chain 2 (by simp [Live, hstate]) (by simp)
    have hsingle : SList (links s₀) (s₀.tasks 2).mutexList [1] := ⟨hlink, hnext⟩
    rw [← hmem, hl.unique hsingle, List.mem_singleton] at hm
    exact hm
  have hno : ∀ m, ¬ Owns (mutexHandTo s₁ 1 3) 2 m := by
    intro m hm
    rw [owns_handTo ((hsame.type 1).2 htype)] at hm
    split at hm
    case isTrue => cases hm
    case isFalse hne => exact hne (hone m ((hsame.owns 2 m).1 hm))
  refine ⟨_, hrun, hstate', hbase, hprio, by simp [mutexHandTo], hno, ?_⟩
  intro h
  obtain ⟨hleast, -⟩ := h.prio_least 2 (by simp [Live, hstate'])
  rw [hbase, hprio] at hleast
  obtain heq | ⟨w, m, hm, howner, -⟩ := hleast
  · cases heq
  · exact hno m ⟨hm, howner⟩

end Runs

end GenieSdk.Analysis.Rhino
