import GenieSdk.Analysis.KernelCalls
import GenieSdk.Lib.Runs

/-!
# Ready queue and list membership over whole runs

Every step of the kernel keeps `KernOk`. So in every state that a run from `krhino_start` reaches,
the ready queue is as its functions promise, and the state of each task says in which lists it is.
A task that is suspended and resumed equally often returns to its former place.
-/

set_option autoImplicit false

namespace GenieSdk.Analysis.Rhino

open GenieSdk.Model.Rhino
open GenieSdk.Model (AllocFlag BlkState KStat)
open GenieSdk.Lib

/-- What a call leaves in the state, from its status and state together. -/
theorem map_snd_eq {ω : Type} {x : Option (ω × Kern)} {s' : Kern} (h : x.map Prod.snd = some s') :
    ∃ st, x = some (st, s') := by
  obtain ⟨⟨st, s₁⟩, hx, rfl⟩ := Option.map_eq_some_iff.1 h
  exact ⟨st, hx⟩

section Steps

variable {s s' : Kern} {fuel : ℕ}

/-- Every call keeps the kernel right. -/
theorem kernCall_ok {c : KernCall} (h : KernOk s none)
    (hrun : 0 < s.intrptLevel ∨ (s.tasks s.active).taskState = .rdy)
    (hc : kernCall fuel s c = some s') : KernOk s' none := by
  cases c with
  | taskCreate task prio ticks autorun flag =>
    obtain ⟨st, hc⟩ := map_snd_eq hc
    exact taskCreate_ok h hc
  | taskDel given =>
    obtain ⟨st, hc⟩ := map_snd_eq hc
    obtain rfl | ⟨-, hdel⟩ := krhinoTaskDel_cases hc
    · exact h
    · exact hdel.ok h
  | taskDynDel given =>
    obtain ⟨st, hc⟩ := map_snd_eq hc
    obtain rfl | ⟨-, -, s₀, hgive, hdel⟩ := krhinoTaskDynDel_cases hc
    · exact h
    · exact hdel.ok (resSemGive_ok h hgive)
  | taskSleep ticks =>
    obtain ⟨st, hc⟩ := map_snd_eq hc
    exact krhinoTaskSleep_ok h hrun hc
  | taskYield =>
    obtain ⟨st, hc⟩ := map_snd_eq hc
    obtain ⟨rq, hrot, heq⟩ := Option.map_eq_some_iff.1 hc
    cases heq
    exact ⟨h.rq.headToTail hrot, h.tick, h.blk, h.tasks, h.dead⟩
  | taskSuspend task =>
    obtain ⟨st, hc⟩ := map_snd_eq hc
    exact krhinoTaskSuspend_ok h hc
  | taskResume task =>
    obtain ⟨st, hc⟩ := map_snd_eq hc
    exact krhinoTaskResume_ok h hc
  | taskPriChange task pri =>
    obtain ⟨st, hc⟩ := map_snd_eq hc
    exact krhinoTaskPriChange_ok h hc
  | taskWaitAbort task =>
    obtain ⟨st, hc⟩ := map_snd_eq hc
    exact krhinoTaskWaitAbort_ok h hc
  | mutexCreate mutex flag => exact mutexCreate_ok h hc
  | mutexDel mutex =>
    obtain ⟨st, hc⟩ := map_snd_eq hc
    exact mutexDel_ok h hc
  | mutexDynDel mutex =>
    obtain ⟨st, hc⟩ := map_snd_eq hc
    exact mutexDel_ok h hc
  | mutexLock mutex ticks =>
    obtain ⟨st, hc⟩ := map_snd_eq hc
    exact krhinoMutexLock_ok h hrun hc
  | mutexUnlock mutex =>
    obtain ⟨st, hc⟩ := map_snd_eq hc
    exact krhinoMutexUnlock_ok h hc
  | blkObjCreate obj policy => exact blkObjCreate_ok h hc
  | blkObjPend obj ticks =>
    obtain ⟨st, hc⟩ := map_snd_eq hc
    exact blkObjPend_ok h hrun hc
  | blkObjWake obj task =>
    obtain ⟨st, hc⟩ := map_snd_eq hc
    exact blkObjWake_ok h hc
  | blkObjDel obj =>
    obtain ⟨st, hc⟩ := map_snd_eq hc
    exact blkObjDel_ok h hc
  | schedDisable =>
    cases hc
    unfold krhinoSchedDisable
    split_ifs
    all_goals exact ⟨h.rq, h.tick, h.blk, h.tasks, h.dead⟩
  | schedEnable =>
    cases hc
    unfold krhinoSchedEnable
    split_ifs
    all_goals exact ⟨h.rq, h.tick, h.blk, h.tasks, h.dead⟩
  | tickListUpdate ticks => exact tickListUpdate_ok h hc
  | timeSliceUpdate => exact timeSliceUpdate_ok h hc

/-- The scheduler chooses the active task and nothing else. -/
theorem coreSched_cases (hc : coreSched s = some s') : ∃ task, s' = { s with active := task } := by
  unfold coreSched at hc
  split_ifs at hc
  · cases hc
    exact ⟨s.active, rfl⟩
  · cases hc
    exact ⟨s.active, rfl⟩
  · obtain ⟨task, -, rfl⟩ := Option.map_eq_some_iff.1 hc
    exact ⟨task, rfl⟩

/-- What a step is, when it is no call. -/
theorem kernStep_cases {a : KernAct} (hc : kernStep fuel s a = some s') :
    (∃ c, a = .call c ∧ (0 < s.intrptLevel ∨ (s.tasks s.active).taskState = .rdy) ∧
      kernCall fuel s c = some s') ∨
    ((∀ c, a ≠ .call c) ∧
      ∃ task level, s' = { s with active := task, intrptLevel := level }) := by
  cases a with
  | call c =>
    simp only [kernStep] at hc
    split at hc
    case isTrue hrun => exact .inl ⟨c, rfl, hrun, hc⟩
    case isFalse => cases hc
  | intrptEnter =>
    cases hc
    exact .inr ⟨by simp, s.active, s.intrptLevel + 1, rfl⟩
  | intrptExit =>
    simp only [kernStep, krhinoIntrptExit] at hc
    split at hc
    case isTrue => cases hc
    case isFalse =>
      obtain ⟨task, rfl⟩ := coreSched_cases hc
      exact .inr ⟨by simp, task, s.intrptLevel - 1, rfl⟩
  | coreSched =>
    obtain ⟨task, rfl⟩ := coreSched_cases hc
    exact .inr ⟨by simp, task, s.intrptLevel, rfl⟩

/-- **Every step of the kernel** keeps the lists and the task states together. -/
theorem kernStep_ok {a : KernAct} (h : KernOk s none) (hc : kernStep fuel s a = some s') :
    KernOk s' none := by
  obtain ⟨c, -, hrun, hcall⟩ | ⟨-, task, level, rfl⟩ := kernStep_cases hc
  · exact kernCall_ok h hrun hcall
  · exact ⟨h.rq, h.tick, h.blk, h.tasks, h.dead⟩

/-- The kernel is right at the start. -/
theorem krhinoStart_ok : KernOk krhinoStart none where
  rq := by
    have hready : (fun t => readyPrio (krhinoStart.tasks t)) =
        Function.update (fun _ => none) idleTask (some idlePri) := by
      unfold krhinoStart
      rw [comp_update]
      rfl
    rw [hready]
    exact runQueueOk_start (by decide)
  tick := by
    refine ⟨?_, List.nodup_nil⟩
    intro t
    simp only [krhinoStart, Function.update_apply]
    split
    · simp [Timed, Pending]
    · simp [Timed, Pending, KTask.zero]
  blk := by
    have hnil : ∀ o, (krhinoStart.objs o).blkList = [] := by
      intro o
      simp only [krhinoStart, Function.update_apply]
      split
      · rfl
      · rfl
    refine ⟨?_, ?_⟩
    · intro t o
      rw [hnil]
      simp only [krhinoStart, Function.update_apply]
      split
      · simp [waitsFor, Pending]
      · simp [waitsFor, Pending, KTask.zero]
    · intro o
      rw [hnil]
      exact List.nodup_nil
  tasks t := by
    simp only [krhinoStart, Function.update_apply]
    split
    · exact ⟨by decide, by decide, by simp [Timed, Pending, KTask.zero], by simp [Suspended],
        by simp [Pending]⟩
    · exact ⟨by decide, by decide, by simp [Timed, Pending, KTask.zero],
        by simp [Suspended, KTask.zero], by simp [Pending, KTask.zero]⟩
  dead o _ _ := by
    simp only [krhinoStart, Function.update_apply]
    split
    · rfl
    · rfl

/-- And in every run. -/
theorem kernRun_ok {acts : List KernAct}
    (hrun : runSteps (kernStep fuel) krhinoStart acts = some s) : KernOk s none :=
  runSteps_inv (P := fun _ _ => True) (fun _ _ _ h _ hc => kernStep_ok h hc) krhinoStart_ok
    (stepsMeet_of_forall (by simp) _) hrun

end Steps

section ReadyQueue

/-- The ready queue as its functions promise it, for the tasks of a kernel state. -/
structure ReadyQueueInv (s : Kern) : Prop where
  highest_least : IsLeast {p | s.rq.curListItem p ≠ []} s.rq.highestPri
  bit_iff : ∀ p < priMax, bitmapTest s.rq.taskBitMap p = true ↔ s.rq.curListItem p ≠ []
  ready_once : ∀ t, (s.tasks t).taskState = .rdy → (s.tasks t).prio < priMax ∧
    (s.rq.curListItem (s.tasks t).prio).count t = 1
  only_ready : ∀ t p, t ∈ s.rq.curListItem p →
    (s.tasks t).taskState = .rdy ∧ (s.tasks t).prio = p
  rotation : ∀ p rq', readyListHeadToTail s.rq p = some rq' →
    ∃ first rest, s.rq.curListItem p = first :: rest ∧ rq'.curListItem p = rest ++ [first] ∧
      ∀ q, (rq'.curListItem q).erase first = (s.rq.curListItem q).erase first

/-- A task is in the list of a priority if it is ready at that priority. -/
theorem KernOk.mem_ready_iff {s : Kern} {del : Option ℕ} (h : KernOk s del) (t p : ℕ) :
    t ∈ s.rq.curListItem p ↔ (s.tasks t).taskState = .rdy ∧ (s.tasks t).prio = p := by
  rw [h.rq.mem_iff, readyPrio]
  split
  case isTrue hs => simp [hs]
  case isFalse hs => simp [hs]

/-- **The ready queue in every reachable state.** Whatever calls tasks and interrupt handlers make,
in whatever order, `highest_pri` is the least priority with a task, the bitmap tells which lists
are empty, every ready task is once in the list of its priority, and a rotation keeps the order of
the other tasks. -/
theorem ready_queue_invariant (fuel : ℕ) (acts : List KernAct) (s : Kern)
    (hrun : runSteps (kernStep fuel) krhinoStart acts = some s) : ReadyQueueInv s := by
  have h : KernOk s none := kernRun_ok hrun
  refine ⟨h.rq.highest, fun p _ => h.rq.bit_iff p, ?_, ?_, ?_⟩
  · intro t ht
    refine ⟨(h.tasks t).prio_lt, ?_⟩
    apply List.count_eq_one_of_mem (h.rq.nodup _)
    exact (h.mem_ready_iff t _).2 ⟨ht, rfl⟩
  · intro t p htp
    exact (h.mem_ready_iff t p).1 htp
  · intro p rq' hrot
    exact readyListHeadToTail_order h.rq hrot

/-- Two tasks are created, one raises the priority of the other above its own, and gives way. -/
theorem ready_queue_invariant_five :
    ∃ s, runSteps (kernStep 9) krhinoStart
        [.call (.taskCreate 1 10 0 true .staticAlloc), .coreSched,
          .call (.taskCreate 2 20 0 true .staticAlloc), .call (.taskPriChange 2 5), .coreSched,
          .call .taskYield] = some s ∧
      s.rq.highestPri = 5 ∧ s.active = 2 ∧ ReadyQueueInv s := by
  obtain ⟨s, hrun, hhigh, hactive⟩ : ∃ s, runSteps (kernStep 9) krhinoStart
        [.call (.taskCreate 1 10 0 true .staticAlloc), .coreSched,
          .call (.taskCreate 2 20 0 true .staticAlloc), .call (.taskPriChange 2 5), .coreSched,
          .call .taskYield] = some s ∧ s.rq.highestPri = 5 ∧ s.active = 2 := ⟨_, rfl, rfl, rfl⟩
  exact ⟨s, hrun, hhigh, hactive, ready_queue_invariant 9 _ s hrun⟩

end ReadyQueue

section Suspensions

variable {s s₁ s₂ : Kern} {fuel task n : ℕ}

/-- A step that is no event for the task: neither its state nor what it waits for changes. -/
structure NoEvent (task : ℕ) (s s' : Kern) : Prop where
  taskState : (s'.tasks task).taskState = (s.tasks task).taskState
  suspendCount : (s'.tasks task).suspendCount = (s.tasks task).suspendCount
  blkObj : (s'.tasks task).blkObj = (s.tasks task).blkObj
  waitTicks : (s'.tasks task).waitTicks = (s.tasks task).waitTicks

/-- `n` calls among steps of the kernel that are no event for the task. -/
inductive Interleaved (fuel task : ℕ) (call : Kern → Kern → Prop) : ℕ → Kern → Kern → Prop
  | nil (s : Kern) : Interleaved fuel task call 0 s s
  | call {n : ℕ} {s s₁ s₂ : Kern} (hrest : Interleaved fuel task call n s s₁)
    (hcall : call s₁ s₂) : Interleaved fuel task call (n + 1) s s₂
  | other {n : ℕ} {s s₁ s₂ : Kern} {a : KernAct} (hrest : Interleaved fuel task call n s s₁)
    (hstep : kernStep fuel s₁ a = some s₂) (hquiet : NoEvent task s₁ s₂) :
    Interleaved fuel task call n s s₂

/-- A successful suspension of the task. -/
def Suspends (task : ℕ) (s s' : Kern) : Prop := krhinoTaskSuspend s task = some (.success, s')

/-- A resumption of the task, whatever it returns. -/
def Resumes (task : ℕ) (s s' : Kern) : Prop := ∃ st, krhinoTaskResume s task = some (st, s')

/-- What the task waits for, apart from suspensions. -/
structure SameWait (t t' : KTask) : Prop where
  base : baseState t'.taskState = baseState t.taskState
  blkObj : t'.blkObj = t.blkObj
  waitTicks : t'.waitTicks = t.waitTicks

/-- Two steps that leave the wait of a task. -/
theorem SameWait.trans {t₁ t₂ t₃ : KTask} (h : SameWait t₁ t₂) (h' : SameWait t₂ t₃) :
    SameWait t₁ t₃ :=
  ⟨h'.base.trans h.base, h'.blkObj.trans h.blkObj, h'.waitTicks.trans h.waitTicks⟩

/-- A step without an event of the task leaves its wait. -/
theorem NoEvent.sameWait (h : NoEvent task s s₁) : SameWait (s.tasks task) (s₁.tasks task) :=
  ⟨by rw [h.taskState], h.blkObj, h.waitTicks⟩

/-- And the depth of its suspension. -/
theorem NoEvent.depth_eq (h : NoEvent task s s₁) :
    depth (s₁.tasks task) = depth (s.tasks task) := by
  have hsusp : Suspended (s₁.tasks task) ↔ Suspended (s.tasks task) := by
    simp only [Suspended, h.taskState]
  simp only [depth, hsusp, h.suspendCount]

/-- A task is suspended if and only if its depth is not 0. -/
theorem TaskOk.depth_pos {t : KTask} (h : TaskOk t) : 0 < depth t ↔ Suspended t := by
  unfold depth
  split
  case isTrue hs =>
    have := (h.count hs).1
    exact ⟨fun _ => hs, fun _ => this⟩
  case isFalse hs => simp [hs]

/-- A suspension leaves the wait and is one deeper. -/
theorem suspends_spec (h : KernOk s none) (hc : Suspends task s s₁) :
    SameWait (s.tasks task) (s₁.tasks task) ∧
      depth (s₁.tasks task) = depth (s.tasks task) + 1 := by
  obtain ⟨hne, -⟩ | ⟨-, t', rq, rfl, hre, hsusp, hcount, -⟩ :=
    krhinoTaskSuspend_cases (h.tasks task) hc
  · exact absurd rfl hne
  · simp only [Function.update_self]
    refine ⟨⟨hre.base, hre.blkObj, hre.waitTicks⟩, ?_⟩
    rw [← hcount]
    simp [depth, hsusp]

/-- A resumption undoes one suspension, if there is one. -/
theorem resumes_spec (h : KernOk s none) (hc : Resumes task s s₁) :
    SameWait (s.tasks task) (s₁.tasks task) ∧
      depth (s₁.tasks task) = depth (s.tasks task) - 1 := by
  obtain ⟨st, hc⟩ := hc
  obtain ⟨hnot, rfl⟩ | ⟨hsusp, t', rq, rfl, hre, hcount, hiff, -⟩ :=
    krhinoTaskResume_cases (h.tasks task) hc
  · refine ⟨⟨rfl, rfl, rfl⟩, ?_⟩
    simp [depth, hnot]
  · simp only [Function.update_self]
    refine ⟨⟨hre.base, hre.blkObj, hre.waitTicks⟩, ?_⟩
    rw [depth, depth, if_pos hsusp, ← hcount, Nat.add_sub_cancel]
    split
    · rfl
    case isFalse hnot =>
      by_contra hne
      exact hnot (hiff.2 (Ne.symm hne))

/-- `n` suspensions. -/
theorem suspensions_spec (h : KernOk s none)
    (hs : Interleaved fuel task (Suspends task) n s s₁) :
    KernOk s₁ none ∧ SameWait (s.tasks task) (s₁.tasks task) ∧
      depth (s₁.tasks task) = depth (s.tasks task) + n := by
  induction hs with
  | nil => exact ⟨h, ⟨rfl, rfl, rfl⟩, rfl⟩
  | call hrest hcall ih =>
    obtain ⟨h₁, hwait, hdepth⟩ := ih h
    obtain ⟨hwait', hdepth'⟩ := suspends_spec h₁ hcall
    exact ⟨krhinoTaskSuspend_ok h₁ hcall, hwait.trans hwait', by omega⟩
  | other hrest hstep hquiet ih =>
    obtain ⟨h₁, hwait, hdepth⟩ := ih h
    exact ⟨kernStep_ok h₁ hstep, hwait.trans hquiet.sameWait, hquiet.depth_eq.trans hdepth⟩

/-- `n` resumptions of a task that is suspended at least so often. -/
theorem resumptions_spec (h : KernOk s none)
    (hs : Interleaved fuel task (Resumes task) n s s₁) :
    KernOk s₁ none ∧ SameWait (s.tasks task) (s₁.tasks task) ∧
      depth (s₁.tasks task) = depth (s.tasks task) - n := by
  induction hs with
  | nil => exact ⟨h, ⟨rfl, rfl, rfl⟩, rfl⟩
  | call hrest hcall ih =>
    obtain ⟨h₁, hwait, hdepth⟩ := ih h
    obtain ⟨hwait', hdepth'⟩ := resumes_spec h₁ hcall
    obtain ⟨st, hcall⟩ := hcall
    exact ⟨krhinoTaskResume_ok h₁ hcall, hwait.trans hwait', by omega⟩
  | other hrest hstep hquiet ih =>
    obtain ⟨h₁, hwait, hdepth⟩ := ih h
    exact ⟨kernStep_ok h₁ hstep, hwait.trans hquiet.sameWait, hquiet.depth_eq.trans hdepth⟩

/-- Base and suspension together are the state. -/
theorem state_of_base {t t' : KTask} (hbase : baseState t'.taskState = baseState t.taskState)
    (hsusp : Suspended t' ↔ Suspended t) : t'.taskState = t.taskState := by
  unfold Suspended at hsusp
  generalize t.taskState = a at *
  generalize t'.taskState = b at *
  cases a <;> cases b <;> simp_all [baseState]

/-- **As many resumptions as suspensions** restore the state of a task. -/
theorem suspensions_undone (h : KernOk s none)
    (hs : Interleaved fuel task (Suspends task) n s s₁)
    (hr : Interleaved fuel task (Resumes task) n s₁ s₂) :
    KernOk s₂ none ∧ (s₂.tasks task).taskState = (s.tasks task).taskState ∧
      (s₂.tasks task).blkObj = (s.tasks task).blkObj ∧
      (s₂.tasks task).waitTicks = (s.tasks task).waitTicks := by
  obtain ⟨h₁, hwait₁, hdepth₁⟩ := suspensions_spec h hs
  obtain ⟨h₂, hwait₂, hdepth₂⟩ := resumptions_spec h₁ hr
  have hwait := hwait₁.trans hwait₂
  have hdepth : depth (s₂.tasks task) = depth (s.tasks task) := by omega
  refine ⟨h₂, state_of_base hwait.base ?_, hwait.blkObj, hwait.waitTicks⟩
  rw [← (h₂.tasks task).depth_pos, ← (h.tasks task).depth_pos, hdepth]

end Suspensions

section Membership

variable {s : Kern} {del : Option ℕ}

/-- In which lists a task is, by its state. -/
structure MembershipInv (s : Kern) : Prop where
  ready_iff : ∀ t, (∃ p, t ∈ s.rq.curListItem p) ↔ (s.tasks t).taskState = .rdy
  tick_iff : ∀ t, t ∈ s.tickList ↔
    (s.tasks t).taskState = .sleep ∨ (s.tasks t).taskState = .sleepSuspended ∨
      (((s.tasks t).taskState = .pend ∨ (s.tasks t).taskState = .pendSuspended) ∧
        (s.tasks t).waitTicks ≠ waitForever)
  blk_iff : ∀ t o, t ∈ (s.objs o).blkList ↔
    ((s.tasks t).taskState = .pend ∨ (s.tasks t).taskState = .pendSuspended) ∧
      (s.tasks t).blkObj = some o
  blk_unique : ∀ t, (s.tasks t).taskState = .pend ∨ (s.tasks t).taskState = .pendSuspended →
    ∃! o, t ∈ (s.objs o).blkList
  suspend_count : ∀ t, (s.tasks t).taskState = .suspended ∨
    (s.tasks t).taskState = .pendSuspended ∨ (s.tasks t).taskState = .sleepSuspended →
    1 ≤ (s.tasks t).suspendCount

/-- The lists of a state say what the fields of its tasks say. -/
theorem KernOk.membership (h : KernOk s del) : MembershipInv s := by
  have hblk : ∀ t o, t ∈ (s.objs o).blkList ↔ Pending (s.tasks t) ∧ (s.tasks t).blkObj = some o := by
    intro t o
    rw [h.blk.mem_iff, waitsFor]
    split
    case isTrue hp => simp [hp]
    case isFalse hp => simp [hp]
  refine ⟨?_, h.tick.mem_iff, hblk, ?_, ?_⟩
  · intro t
    simp only [h.mem_ready_iff]
    constructor
    · rintro ⟨_, hs, -⟩
      exact hs
    · exact fun hs => ⟨_, hs, rfl⟩
  · intro t hp
    obtain ⟨o, ho⟩ := (h.tasks t).blkObj hp
    refine ⟨o, (hblk t o).2 ⟨hp, ho⟩, ?_⟩
    intro o' ho'
    have := ((hblk t o').1 ho').2
    rw [ho] at this
    exact (Option.some.inj this).symm
  · intro t hs
    exact ((h.tasks t).count hs).1

/-- **Task states and lists in every reachable state.** The state of a task says in which lists it
is, a suspended task is suspended at least once, and after equally many suspensions and
resumptions, with no other event for the task, it is in its former state and in the same lists. -/
theorem task_state_membership (fuel : ℕ) (acts : List KernAct) (s : Kern)
    (hrun : runSteps (kernStep fuel) krhinoStart acts = some s) :
    MembershipInv s ∧
      ∀ task n s₁ s₂, Interleaved fuel task (Suspends task) n s s₁ →
        Interleaved fuel task (Resumes task) n s₁ s₂ →
        (s₂.tasks task).taskState = (s.tasks task).taskState ∧
        ((∃ p, task ∈ s₂.rq.curListItem p) ↔ ∃ p, task ∈ s.rq.curListItem p) ∧
        (task ∈ s₂.tickList ↔ task ∈ s.tickList) ∧
        ∀ o, task ∈ (s₂.objs o).blkList ↔ task ∈ (s.objs o).blkList := by
  have h : KernOk s none := kernRun_ok hrun
  refine ⟨h.membership, ?_⟩
  intro task n s₁ s₂ hs hr
  obtain ⟨h₂, hstate, hobj, hticks⟩ := suspensions_undone h hs hr
  have hm := h.membership
  have hm₂ := h₂.membership
  refine ⟨hstate, ?_, ?_, ?_⟩
  · rw [hm₂.ready_iff, hm.ready_iff, hstate]
  · rw [hm₂.tick_iff, hm.tick_iff, hstate, hticks]
  · intro o
    rw [hm₂.blk_iff, hm.blk_iff, hstate, hobj]

/-- A task waits for a mutex with a timeout, and is suspended and resumed meanwhile. -/
theorem task_state_membership_wait :
    ∃ s s₁ s₂, runSteps (kernStep 9) krhinoStart
        [.call (.taskCreate 1 20 0 true .staticAlloc), .coreSched,
          .call (.mutexCreate 1 .staticAlloc), .call (.mutexLock 1 waitForever),
          .call (.taskCreate 2 10 0 true .staticAlloc), .coreSched,
          .call (.mutexLock 1 30), .coreSched] = some s ∧
      Suspends 2 s s₁ ∧ Resumes 2 s₁ s₂ ∧ MembershipInv s ∧
      (s.tasks 2).taskState = .pend ∧ (s₁.tasks 2).taskState = .pendSuspended ∧
      (s₂.tasks 2).taskState = .pend ∧ 2 ∈ s₂.tickList ∧ 2 ∈ (s₂.objs 1).blkList := by
  obtain ⟨s, s₁, s₂, hrun, hs, hr, hpend, hsusp, htick, hblk⟩ : ∃ s s₁ s₂,
      runSteps (kernStep 9) krhinoStart
        [.call (.taskCreate 1 20 0 true .staticAlloc), .coreSched,
          .call (.mutexCreate 1 .staticAlloc), .call (.mutexLock 1 waitForever),
          .call (.taskCreate 2 10 0 true .staticAlloc), .coreSched,
          .call (.mutexLock 1 30), .coreSched] = some s ∧
      krhinoTaskSuspend s 2 = some (.success, s₁) ∧ krhinoTaskResume s₁ 2 = some (.success, s₂) ∧
      (s.tasks 2).taskState = .pend ∧ (s₁.tasks 2).taskState = .pendSuspended ∧
      2 ∈ s.tickList ∧ 2 ∈ (s.objs 1).blkList :=
    ⟨_, _, _, rfl, rfl, rfl, rfl, rfl, by decide, by decide⟩
  obtain ⟨hinv, hundo⟩ := task_state_membership 9 _ s hrun
  obtain ⟨hstate, -, htick', hblk'⟩ :=
    hundo 2 1 s₁ s₂ (.call (.nil s) hs) (.call (.nil s₁) ⟨_, hr⟩)
  exact ⟨s, s₁, s₂, hrun, hs, ⟨_, hr⟩, hinv, hpend, hsusp, hstate.trans hpend, htick'.2 htick,
    (hblk' 1).2 hblk⟩

end Membership

end GenieSdk.Analysis.Rhino
