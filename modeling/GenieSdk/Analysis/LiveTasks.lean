import GenieSdk.Analysis.MutexNesting

/-!
# The tasks that exist

Only `task_create` brings a task into existence, and a run is a finite list of steps. So in every
state that a run from `krhino_start` reaches, finitely many tasks exist, and every chain of owners
comes to an end or comes back.
-/

set_option autoImplicit false

namespace GenieSdk.Analysis.Rhino

open GenieSdk.Model.Rhino
open GenieSdk.Model (AllocFlag KStat)
open GenieSdk.Lib

/-- Every task that exists existed before. -/
def NoNewTask (s s' : Kern) : Prop := ∀ t, Live (s'.tasks t) → Live (s.tasks t)

section Calls

variable {s s' s₁ : Kern} {del : Option ℕ} {task mutex fuel : ℕ}

/-- Nothing is done. -/
theorem NoNewTask.refl (s : Kern) : NoNewTask s s := fun _ ht => ht

/-- Two steps that create no task. -/
theorem NoNewTask.trans (h : NoNewTask s s₁) (h' : NoNewTask s₁ s') : NoNewTask s s' :=
  fun t ht => h t (h' t ht)

/-- A step that leaves the owners creates none. -/
theorem SameOwn.noNewTask (h : SameOwn s s') : NoNewTask s s' := fun t => (h.live t).1

/-- Nor does one that changes priorities and lists. -/
theorem Frame.noNewTask (h : Frame s s') : NoNewTask s s' := fun t => (h.live t).1

/-- One task is written, and if it exists it did so before. -/
theorem noNewTask_of (t' : KTask) (htasks : s'.tasks = Function.update s.tasks task t')
    (hlive : Live t' → Live (s.tasks task)) : NoNewTask s s' := by
  intro t ht
  rw [htasks, Function.update_apply] at ht
  split at ht
  case isTrue heq =>
    rw [heq]
    exact hlive ht
  case isFalse => exact ht

/-- Nor does handing a mutex on. -/
theorem mutexHandTo_noNewTask : NoNewTask s (mutexHandTo s mutex task) :=
  @noNewTask_of s _ task { s.tasks task with mutexList := some mutex } rfl fun h => h

/-- Nor does `krhino_mutex_lock`. -/
theorem krhinoMutexLock_noNewTask {ticks : ℕ} {st : Option KStat} (hk : KernOk s none)
    (hrun : 0 < s.intrptLevel ∨ (s.tasks s.active).taskState = .rdy)
    (hc : krhinoMutexLock fuel s mutex ticks = some (st, s')) : NoNewTask s s' := by
  obtain rfl | ⟨hlevel, -, hcases⟩ := krhinoMutexLock_cases hc
  · exact NoNewTask.refl _
  have hrdy : (s.tasks s.active).taskState = .rdy := hrun.resolve_left (by omega)
  obtain ⟨-, rfl⟩ | ⟨-, -, rfl⟩ | ⟨owner, s₁, howner, hother, hticks, hraise, hpend⟩ := hcases
  · exact @mutexHandTo_noNewTask s s.active mutex
  · exact NoNewTask.refl s
  · exact (lockBlocked_sameOwn hk hrdy howner hother hticks hraise hpend).noNewTask

/-- Nor does `krhino_mutex_unlock`. -/
theorem krhinoMutexUnlock_noNewTask {st : KStat} (hk : KernOk s none)
    (hc : krhinoMutexUnlock fuel s mutex = some (st, s')) : NoNewTask s s' := by
  obtain rfl | ⟨-, -, -, ⟨-, rfl⟩ | ⟨-, s₁, hrel, hcases⟩⟩ := krhinoMutexUnlock_cases hc
  · exact NoNewTask.refl _
  · exact NoNewTask.refl s
  obtain ⟨hk₁, hframe⟩ := mutexRelease_ok (undoLock_ok hk) hrel
  have h₁ : NoNewTask s s₁ := hframe.noNewTask
  obtain ⟨-, rfl⟩ | ⟨w, rest, s₂, -, hwake, rfl⟩ := hcases
  · exact h₁
  · exact (h₁.trans (pendTaskEnd_sameOwn hk₁ hwake).noNewTask).trans mutexHandTo_noNewTask

/-- Nor does `mutex_del`. -/
theorem mutexDel_noNewTask {flag : AllocFlag} {st : KStat} (hk : KernOk s none)
    (hc : mutexDel fuel s mutex flag = some (st, s')) : NoNewTask s s' := by
  obtain rfl | ⟨-, s₁, hrel, hall⟩ := mutexDel_cases hc
  · exact NoNewTask.refl _
  have hk₀ : KernOk (clearType s mutex) (some mutex) := (hk.beginDel mutex).record _
  obtain ⟨-, rfl⟩ | ⟨owner, -, hrel⟩ := hrel
  · exact (pendTaskRmAll_sameOwn hk₀ hall).noNewTask
  · obtain ⟨hk₁, hframe⟩ := mutexRelease_ok hk₀ hrel
    exact NoNewTask.trans hframe.noNewTask (pendTaskRmAll_sameOwn hk₁ hall).noNewTask

/-- Nor does freeing the mutexes of a task. -/
theorem taskMutexFree_noNewTask {m : Option ℕ} (hk : KernOk s del)
    (hc : taskMutexFree fuel s m = some s') : NoNewTask s s' := by
  induction fuel generalizing s m with
  | zero => cases hc
  | succ fuel ih =>
    cases m with
    | none =>
      cases hc
      exact NoNewTask.refl _
    | some mutex =>
      unfold taskMutexFree at hc
      simp only at hc
      split at hc
      case h_1 =>
        have hrest := ih (hk.setOwner mutex none) hc
        exact hrest
      case h_2 next rest _ =>
        split at hc
        case h_1 => cases hc
        case h_2 s₁ hwake =>
          have hrest := ih (mutexHandTo_ok (pendTaskEnd_ok hk hwake)) hc
          exact ((pendTaskEnd_sameOwn hk hwake).noNewTask.trans mutexHandTo_noNewTask).trans hrest

/-- Nor does taking a task off its lists. -/
theorem taskDelSwitch_noNewTask (hk : KernOk s del)
    (hc : taskDelSwitch fuel s task = some (some s')) : NoNewTask s s' := by
  obtain ⟨s₁, rfl, ⟨t', hstate, htasks, -, -⟩ | ⟨hpend, hcancel⟩⟩ := taskDelSwitch_cases hc
  · exact noNewTask_of t' htasks fun h => absurd hstate h.2
  · obtain ⟨-, hframe⟩ := pendCancel_ok hk hpend (.inr (.inl rfl)) hcancel
    have hcancelled := @noNewTask_of s (cancelled s task .deleted (s.tasks task).blkState) task _
      (cancelled_tasks s task _ _) fun h => absurd rfl h.2
    exact hcancelled.trans hframe.noNewTask

/-- Nor does deleting a task. -/
theorem Deletes.noNewTask (hc : Deletes fuel s task s') (hk : KernOk s del) : NoNewTask s s' := by
  obtain ⟨s₁, hfree, ⟨-, rfl⟩ | hswitch⟩ := hc
  · exact taskMutexFree_noNewTask hk hfree
  · exact (taskMutexFree_noNewTask hk hfree).trans
      (taskDelSwitch_noNewTask (taskMutexFree_ok hk hfree) hswitch)

end Calls

section Runs

variable {s s' : Kern} {fuel : ℕ}

/-- **A step creates at most one task.** -/
theorem kernStep_newTask {a : KernAct} (hk : KernOk s none) (hc : kernStep fuel s a = some s') :
    ∃ task, ∀ t, Live (s'.tasks t) → t = task ∨ Live (s.tasks t) := by
  have hnone : NoNewTask s s' → ∃ task, ∀ t, Live (s'.tasks t) → t = task ∨ Live (s.tasks t) :=
    fun h => ⟨idleTask, fun t ht => .inr (h t ht)⟩
  obtain ⟨c, rfl, hrun, hcall⟩ | ⟨-, task, level, rfl⟩ := kernStep_cases hc
  · by_cases hplain : concernsOwners c = false
    · exact hnone (kernCall_sameOwn hk hrun hplain hcall).noNewTask
    · cases c with
      | taskCreate task prio ticks autorun flag =>
        obtain ⟨st, hcall⟩ := map_snd_eq hcall
        obtain rfl | ⟨-, -, htasks, -, -, -, -⟩ := taskCreate_cases hcall
        · exact hnone (NoNewTask.refl _)
        · refine ⟨task, fun t ht => ?_⟩
          rw [htasks, Function.update_apply] at ht
          split at ht
          case isTrue heq => exact .inl heq
          case isFalse => exact .inr ht
      | taskDel given =>
        obtain ⟨st, hcall⟩ := map_snd_eq hcall
        obtain rfl | ⟨-, hdel⟩ := krhinoTaskDel_cases hcall
        · exact hnone (NoNewTask.refl _)
        · exact hnone (hdel.noNewTask hk)
      | taskDynDel given =>
        obtain ⟨st, hcall⟩ := map_snd_eq hcall
        obtain rfl | ⟨-, -, s₀, hgive, hdel⟩ := krhinoTaskDynDel_cases hcall
        · exact hnone (NoNewTask.refl _)
        · exact hnone ((resSemGive_sameOwn hk hgive).noNewTask.trans
            (hdel.noNewTask (resSemGive_ok hk hgive)))
      | mutexCreate mutex flag =>
        obtain ⟨-, rfl⟩ := mutexCreate_cases hcall
        exact hnone (NoNewTask.refl s)
      | mutexDel mutex =>
        obtain ⟨st, hcall⟩ := map_snd_eq hcall
        exact hnone (mutexDel_noNewTask hk hcall)
      | mutexDynDel mutex =>
        obtain ⟨st, hcall⟩ := map_snd_eq hcall
        exact hnone (mutexDel_noNewTask hk hcall)
      | mutexLock mutex ticks =>
        obtain ⟨st, hcall⟩ := map_snd_eq hcall
        exact hnone (krhinoMutexLock_noNewTask hk hrun hcall)
      | mutexUnlock mutex =>
        obtain ⟨st, hcall⟩ := map_snd_eq hcall
        exact hnone (krhinoMutexUnlock_noNewTask hk hcall)
      | _ => exact absurd rfl hplain
  · exact hnone (NoNewTask.refl s)

/-- The idle task alone exists when the kernel starts. -/
theorem krhinoStart_tasks (t : ℕ) (ht : Live (krhinoStart.tasks t)) : t = idleTask := by
  by_contra hne
  simp only [krhinoStart, Function.update_of_ne hne] at ht
  exact ht.1 rfl

/-- **In every reachable state finitely many tasks exist.** -/
theorem kernRun_tasks {acts : List KernAct}
    (hrun : runSteps (kernStep fuel) krhinoStart acts = some s) :
    ∃ l : Finset ℕ, ∀ t, Live (s.tasks t) → t ∈ l := by
  refine (runSteps_inv (P := fun _ _ => True)
    (I := fun s => KernOk s none ∧ ∃ l : Finset ℕ, ∀ t, Live (s.tasks t) → t ∈ l) ?_ ?_
    (stepsMeet_of_forall (by simp) _) hrun).2
  · rintro s a s' ⟨hk, l, hl⟩ - hc
    obtain ⟨task, htask⟩ := kernStep_newTask hk hc
    refine ⟨kernStep_ok hk hc, insert task l, fun t ht => ?_⟩
    obtain rfl | ht := htask t ht
    · exact Finset.mem_insert_self _ _
    · exact Finset.mem_insert_of_mem (hl t ht)
  · exact ⟨krhinoStart_ok, {idleTask}, fun t ht => Finset.mem_singleton.2 (krhinoStart_tasks t ht)⟩

end Runs

end GenieSdk.Analysis.Rhino
