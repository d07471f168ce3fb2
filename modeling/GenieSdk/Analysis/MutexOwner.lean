import GenieSdk.Analysis.TaskMembership
import GenieSdk.Lib.SList

/-!
# The owners of mutexes

Each task's `mutex_list` threads the mutexes that it owns. `OwnOk` says so for all tasks, in a form
that can also be stated while a mutex is on its way from one owner to the next or a task is being
deleted. `SameOwn` holds between the states before and after
all those calls that have nothing to do with ownership.
-/

set_option autoImplicit false

namespace GenieSdk.Analysis.Rhino

open GenieSdk.Model.Rhino
open GenieSdk.Model (AllocFlag BlkState KStat)
open GenieSdk.Lib

/-- The task exists. -/
def Live (t : KTask) : Prop := t.taskState ≠ .seed ∧ t.taskState ≠ .deleted

/-- The mutex exists and the task owns it. -/
def Owns (s : Kern) (task mutex : ℕ) : Prop :=
  (s.objs mutex).objType = .mutex ∧ (s.objs mutex).mutexTask = some task

/-- The `mutex_list` fields of the mutexes. -/
def links (s : Kern) (mutex : ℕ) : Option ℕ := (s.objs mutex).mutexList

/-- The `mutex_list` of each task `t` holds the mutexes `m` with `own t m`; the task `dying` is not
considered. Between calls `own` is `Owns s`, within a call it can differ at one mutex. -/
structure OwnOk (s : Kern) (own : ℕ → ℕ → Prop) (dying : Option ℕ) : Prop where
  chain : ∀ t, Live (s.tasks t) → some t ≠ dying →
    ∃ l, SList (links s) (s.tasks t).mutexList l ∧ l.Nodup ∧ ∀ m, m ∈ l ↔ own t m
  unique : ∀ t u m, own t m → own u m → t = u
  seed : ∀ t, (s.tasks t).taskState = .seed → (s.tasks t).mutexList = none
  live : ∀ t m, Owns s t m → Live (s.tasks t)
  free : ∀ m, (s.objs m).objType = .mutex → (s.objs m).mutexTask = none → (s.objs m).blkList = []
  self : ∀ t m, Owns s t m → t ∉ (s.objs m).blkList

/-- The mutex has an owner, who is not the task. -/
def MayWait (o : KObj) (task : ℕ) : Prop := o.mutexTask ≠ none ∧ o.mutexTask ≠ some task

/-- The two states agree on all that concerns the ownership of mutexes. -/
structure SameOwn (s s' : Kern) : Prop where
  link : ∀ t, (s'.tasks t).mutexList = (s.tasks t).mutexList
  seed : ∀ t, (s'.tasks t).taskState = .seed ↔ (s.tasks t).taskState = .seed
  deleted : ∀ t, (s'.tasks t).taskState = .deleted ↔ (s.tasks t).taskState = .deleted
  type : ∀ m, (s'.objs m).objType = .mutex ↔ (s.objs m).objType = .mutex
  objLink : ∀ m, (s'.objs m).mutexList = (s.objs m).mutexList
  owner : ∀ m, (s.objs m).objType = .mutex → (s'.objs m).mutexTask = (s.objs m).mutexTask
  nested : ∀ m, (s.objs m).objType = .mutex → (s'.objs m).ownerNested = (s.objs m).ownerNested
  wait : ∀ m, (s.objs m).objType = .mutex → ∀ t ∈ (s'.objs m).blkList,
    t ∈ (s.objs m).blkList ∨ MayWait (s.objs m) t
  log : s'.log = s.log

section SameOwn

variable {s s' s₁ s₂ s₃ : Kern} {dying del : Option ℕ} {own : ℕ → ℕ → Prop}

/-- Nothing is done. -/
theorem SameOwn.refl (s : Kern) : SameOwn s s :=
  ⟨fun _ => rfl, fun _ => Iff.rfl, fun _ => Iff.rfl, fun _ => Iff.rfl, fun _ => rfl, fun _ _ => rfl,
    fun _ _ => rfl, fun _ _ _ h => .inl h, rfl⟩

/-- Two steps that leave the owners. -/
theorem SameOwn.trans (h : SameOwn s₁ s₂) (h' : SameOwn s₂ s₃) : SameOwn s₁ s₃ where
  link t := (h'.link t).trans (h.link t)
  seed t := (h'.seed t).trans (h.seed t)
  deleted t := (h'.deleted t).trans (h.deleted t)
  type m := (h'.type m).trans (h.type m)
  objLink m := (h'.objLink m).trans (h.objLink m)
  owner m hm := (h'.owner m ((h.type m).2 hm)).trans (h.owner m hm)
  nested m hm := (h'.nested m ((h.type m).2 hm)).trans (h.nested m hm)
  wait m hm t ht := by
    obtain ht | ⟨hsome, hother⟩ := h'.wait m ((h.type m).2 hm) t ht
    · exact h.wait m hm t ht
    · rw [h.owner m hm] at hsome hother
      exact .inr ⟨hsome, hother⟩
  log := h'.log.trans h.log

/-- Such a step leaves the tasks alive that are. -/
theorem SameOwn.live (h : SameOwn s s') (t : ℕ) : Live (s'.tasks t) ↔ Live (s.tasks t) := by
  unfold Live
  rw [ne_eq, ne_eq, h.seed, h.deleted]

/-- And the mutexes with the tasks that own them. -/
theorem SameOwn.owns (h : SameOwn s s') (t m : ℕ) : Owns s' t m ↔ Owns s t m := by
  unfold Owns
  rw [h.type]
  constructor
  · rintro ⟨hm, ho⟩
    exact ⟨hm, by rw [← h.owner m hm, ho]⟩
  · rintro ⟨hm, ho⟩
    exact ⟨hm, by rw [h.owner m hm, ho]⟩

/-- And the links of the lists of mutexes. -/
theorem SameOwn.links_eq (h : SameOwn s s') : links s' = links s := by
  funext m
  exact h.objLink m

/-- **Ownership is kept** where nothing concerns it. -/
theorem OwnOk.same (ho : OwnOk s own dying) (h : SameOwn s s') : OwnOk s' own dying where
  chain t ht hne := by
    rw [h.links_eq, h.link]
    exact ho.chain t ((h.live t).1 ht) hne
  unique := ho.unique
  seed t ht := by
    rw [h.link]
    exact ho.seed t ((h.seed t).1 ht)
  live t m hm := (h.live t).2 (ho.live t m ((h.owns t m).1 hm))
  free m hm hfree := by
    have hm' := (h.type m).1 hm
    rw [h.owner m hm'] at hfree
    apply List.eq_nil_iff_forall_not_mem.2
    intro t ht
    obtain ht | ⟨hsome, -⟩ := h.wait m hm' t ht
    · rw [ho.free m hm' hfree] at ht
      cases ht
    · exact hsome hfree
  self t m hm ht := by
    have hm' := (h.owns t m).1 hm
    obtain ht | ⟨-, hother⟩ := h.wait m hm'.1 t ht
    · exact ho.self t m hm' ht
    · exact hother hm'.2

/-- One task and the lists of objects change, and the ownership fields stay. -/
theorem sameOwn_of {task : ℕ} (t' : KTask) (htasks : s'.tasks = Function.update s.tasks task t')
    (hlink : t'.mutexList = (s.tasks task).mutexList)
    (hseed : t'.taskState = .seed ↔ (s.tasks task).taskState = .seed)
    (hdel : t'.taskState = .deleted ↔ (s.tasks task).taskState = .deleted)
    (hobjs : ∀ m, ∃ l, s'.objs m = { s.objs m with blkList := l } ∧
      ((s.objs m).objType = .mutex → ∀ t ∈ l, t ∈ (s.objs m).blkList ∨ MayWait (s.objs m) t))
    (hlog : s'.log = s.log) : SameOwn s s' := by
  have hobj : ∀ m, s'.objs m = { s.objs m with blkList := (s'.objs m).blkList } := by
    intro m
    obtain ⟨l, hl, -⟩ := hobjs m
    rw [hl]
  constructor
  case link =>
    intro t
    rw [htasks, Function.update_apply]
    split
    case isTrue ht => rw [ht, hlink]
    case isFalse => rfl
  case seed =>
    intro t
    rw [htasks, Function.update_apply]
    split
    case isTrue ht => rw [ht, hseed]
    case isFalse => rfl
  case deleted =>
    intro t
    rw [htasks, Function.update_apply]
    split
    case isTrue ht => rw [ht, hdel]
    case isFalse => rfl
  case type =>
    intro m
    rw [hobj]
  case objLink =>
    intro m
    rw [hobj]
  case owner =>
    intro m _
    rw [hobj]
  case nested =>
    intro m _
    rw [hobj]
  case wait =>
    intro m hm t ht
    obtain ⟨l, hl, hwait⟩ := hobjs m
    rw [hl] at ht
    exact hwait hm t ht
  case log => exact hlog

/-- The objects are the same. -/
theorem lists_same (hobjs : s'.objs = s.objs) (m : ℕ) :
    ∃ l, s'.objs m = { s.objs m with blkList := l } ∧
      ((s.objs m).objType = .mutex → ∀ t ∈ l, t ∈ (s.objs m).blkList ∨ MayWait (s.objs m) t) :=
  ⟨(s.objs m).blkList, by rw [hobjs], fun _ _ ht => .inl ht⟩

/-- Tasks and objects are the same. -/
theorem sameOwn_rest (htasks : s'.tasks = s.tasks) (hobjs : s'.objs = s.objs)
    (hlog : s'.log = s.log) : SameOwn s s' := by
  refine @sameOwn_of s s' 0 (s.tasks 0) ?_ rfl Iff.rfl Iff.rfl (lists_same hobjs) hlog
  rw [htasks, Function.update_eq_self]

/-- A task leaves the list of an object. -/
theorem lists_erase {obj task : ℕ} (hobjs : s'.objs = Function.update s.objs obj
      { s.objs obj with blkList := (s.objs obj).blkList.erase task }) (m : ℕ) :
    ∃ l, s'.objs m = { s.objs m with blkList := l } ∧
      ((s.objs m).objType = .mutex → ∀ t ∈ l, t ∈ (s.objs m).blkList ∨ MayWait (s.objs m) t) := by
  rw [hobjs, Function.update_apply]
  split
  case isTrue hm =>
    refine ⟨_, by rw [hm], ?_⟩
    intro _ t ht
    rw [← hm] at ht
    exact .inl (List.mem_of_mem_erase ht)
  case isFalse => exact ⟨_, rfl, fun _ _ ht => .inl ht⟩

/-- A frame of `task_pri_change` leaves the owners alone. -/
theorem Frame.sameOwn (h : Frame s s') (hl : SameLinks s s') : SameOwn s s' where
  link := hl.task
  seed t := by rw [h.task]
  deleted t := by rw [h.task]
  type m := by rw [h.obj]
  objLink := hl.obj
  owner m _ := by rw [h.obj]
  nested m _ := by rw [h.obj]
  wait m _ t ht := .inl ((h.perm m).mem_iff.1 ht)
  log := h.log

/-- A change of priority leaves the owners. -/
theorem PriChange.sameOwn {task newPri : ℕ} (hc : PriChange s task newPri s') (h : KernOk s del)
    (hp : newPri < priMax) : SameOwn s s' :=
  (hc.frame h hp).1.sameOwn (hc.frame h hp).2

/-- What `pend_task_wakeup` does to the task and to the object. -/
theorem pendTaskEnd_eq {task : ℕ} {b : BlkState} (h : KernOk s del)
    (hc : pendTaskEnd s task b = some s') :
    ∃ obj t', (s.tasks task).blkObj = some obj ∧ Pending (s.tasks task) ∧
      s'.tasks = Function.update s.tasks task t' ∧
      (t'.taskState = .rdy ∨ t'.taskState = .suspended) ∧ t'.prio = (s.tasks task).prio ∧
      t'.bPrio = (s.tasks task).bPrio ∧ t'.mutexList = (s.tasks task).mutexList ∧
      s'.objs = Function.update s.objs obj
        { s.objs obj with blkList := (s.objs obj).blkList.erase task } ∧
      s'.log = s.log ∧ s'.active = s.active := by
  unfold pendTaskEnd at hc
  split at hc
  case h_1 hs =>
    cases hc
    obtain ⟨obj, hobj⟩ := (h.tasks task).blkObj (.inl hs)
    refine ⟨obj, { s.tasks task with
      taskState := .rdy, tickHead := false, blkState := b, blkObj := none }, hobj, .inl hs, ?_,
      .inl rfl, rfl, rfl, rfl, ?_, ?_, ?_⟩
    · simp
    · simp [blkListRm_objs s task hobj]
    · simp
    · simp
  case h_2 hs =>
    cases hc
    obtain ⟨obj, hobj⟩ := (h.tasks task).blkObj (.inr hs)
    refine ⟨obj, { s.tasks task with
      taskState := .suspended, tickHead := false, blkState := b, blkObj := none }, hobj, .inr hs, ?_,
      .inr rfl, rfl, rfl, rfl, ?_, ?_, ?_⟩
    · simp
    · simp [blkListRm_objs s task hobj]
    · simp
    · simp
  case h_3 => cases hc

/-- Neither state is that of storage without a task. -/
theorem pending_live {t : KTask} (h : Pending t) : t.taskState ≠ .seed ∧ t.taskState ≠ .deleted := by
  obtain h | h := h
  all_goals simp [h]

/-- So does the end of a wait. -/
theorem pendTaskEnd_sameOwn {task : ℕ} {b : BlkState} (h : KernOk s del)
    (hc : pendTaskEnd s task b = some s') : SameOwn s s' := by
  obtain ⟨obj, t', hobj, hpend, htasks, hstate, -, -, hlink, hobjs, hlog, -⟩ := pendTaskEnd_eq h hc
  obtain ⟨hseed, hdel⟩ := pending_live hpend
  refine sameOwn_of t' htasks hlink ?_ ?_ (lists_erase hobjs) hlog
  · obtain hs | hs := hstate
    all_goals simp [hs, hseed]
  · obtain hs | hs := hstate
    all_goals simp [hs, hdel]

/-- Taking a task off its lists leaves the log and the running task. -/
theorem cancelled_log (s : Kern) (task : ℕ) (st : TaskStat) (b : BlkState) :
    (cancelled s task st b).log = s.log ∧ (cancelled s task st b).active = s.active := by
  unfold cancelled
  split
  · simp
  · simp

/-- And the owners. -/
theorem cancelled_sameOwn {task : ℕ} {st : TaskStat} {b : BlkState} (h : KernOk s del)
    (hpend : Pending (s.tasks task)) (hst : st = .rdy ∨ st = .suspended) :
    SameOwn s (cancelled s task st b) := by
  obtain ⟨obj, hobj⟩ := (h.tasks task).blkObj hpend
  obtain ⟨hseed, hdel⟩ := pending_live hpend
  refine sameOwn_of _ (cancelled_tasks s task st b) rfl ?_ ?_ (lists_erase (cancelled_objs hobj st b))
    (cancelled_log s task st b).1
  · obtain hs | hs := hst
    all_goals simp [hs, hseed]
  · obtain hs | hs := hst
    all_goals simp [hs, hdel]

/-- A release of no mutex leaves the owners. -/
theorem mutexRelease_none_sameOwn {fuel task : ℕ} (h : KernOk s del)
    (hc : mutexRelease fuel s task none = some s') : SameOwn s s' := by
  obtain ⟨newPri, s₁, hlook, hchange⟩ := mutexRelease_cases hc
  have hp := (mutexPriLook_ok h hlook).2
  obtain rfl := mutexPriLookLoop_none hlook
  exact hchange.sameOwn h hp

/-- `mutex_task_pri_reset` leaves the owners. -/
theorem mutexTaskPriReset_sameOwn {fuel task : ℕ} (h : KernOk s del)
    (hc : mutexTaskPriReset fuel s task = some s') : SameOwn s s' := by
  obtain ⟨obj, -, ⟨-, rfl⟩ | ⟨-, owner, -, ⟨-, rfl⟩ | ⟨-, hrel⟩⟩⟩ := mutexTaskPriReset_cases hc
  · exact SameOwn.refl _
  · exact SameOwn.refl _
  · exact mutexRelease_none_sameOwn h hrel

/-- `pend_cancel` leaves the owners. -/
theorem pendCancel_sameOwn {fuel task : ℕ} {st : TaskStat} {b : BlkState} (h : KernOk s del)
    (hpend : Pending (s.tasks task))
    (hst : st = .rdy ∨ (st = .suspended ∧ (s.tasks task).taskState = .pendSuspended))
    (hc : pendCancel fuel s task st b = some s') : SameOwn s s' := by
  rw [pendCancel_eq] at hc
  exact (cancelled_sameOwn h hpend (hst.imp_right And.left)).trans
    (mutexTaskPriReset_sameOwn (cancelled_ok h hpend (hst.imp_right .inr)) hc)

/-- Forgetting the object of a wait leaves the owners. -/
theorem clearBlkObj_sameOwn (s : Kern) (task : ℕ) : SameOwn s (clearBlkObj s task) :=
  sameOwn_of _ rfl rfl Iff.rfl Iff.rfl (lists_same rfl) rfl

end SameOwn

section PlainCalls

variable {s s' : Kern} {del : Option ℕ} {fuel task obj : ℕ}

/-- A task that is suspended once more or once less leaves the owners. -/
theorem Resuspended.sameOwn {t' : KTask} {rq : RunQueue} (h : Resuspended (s.tasks task) t') :
    SameOwn s { s with rq := rq, tasks := Function.update s.tasks task t' } := by
  have hiff : ∀ st : TaskStat, baseState st = st → (∀ a, baseState a = st → a = st) →
      (t'.taskState = st ↔ (s.tasks task).taskState = st) := by
    intro st hst hinv
    have hb := h.base
    constructor
    · intro hs
      exact hinv _ (by rw [← hb, hs, hst])
    · intro hs
      exact hinv _ (by rw [hb, hs, hst])
  refine sameOwn_of t' rfl h.mutexList ?_ ?_ (lists_same rfl) rfl
  · apply hiff _ rfl
    intro a ha
    cases a <;> simp_all [baseState]
  · apply hiff _ rfl
    intro a ha
    cases a <;> simp_all [baseState]

/-- `krhino_task_suspend` leaves the owners. -/
theorem krhinoTaskSuspend_sameOwn {st : KStat} (h : KernOk s del)
    (hc : krhinoTaskSuspend s task = some (st, s')) : SameOwn s s' := by
  obtain ⟨-, rfl⟩ | ⟨-, t', rq, rfl, hre, -⟩ := krhinoTaskSuspend_cases (h.tasks task) hc
  · exact SameOwn.refl _
  · exact hre.sameOwn

/-- `krhino_task_resume` leaves the owners. -/
theorem krhinoTaskResume_sameOwn {st : KStat} (h : KernOk s del)
    (hc : krhinoTaskResume s task = some (st, s')) : SameOwn s s' := by
  obtain ⟨-, rfl⟩ | ⟨-, t', rq, rfl, hre, -⟩ := krhinoTaskResume_cases (h.tasks task) hc
  · exact SameOwn.refl _
  · exact hre.sameOwn

/-- `krhino_task_sleep` leaves the owners. -/
theorem krhinoTaskSleep_sameOwn {ticks : ℕ} {st : Option KStat}
    (hrun : 0 < s.intrptLevel ∨ (s.tasks s.active).taskState = .rdy)
    (hc : krhinoTaskSleep s ticks = some (st, s')) : SameOwn s s' := by
  obtain rfl | ⟨hintrpt, tickMatch, l, rq, -, -, rfl⟩ := krhinoTaskSleep_cases hc
  · exact SameOwn.refl _
  · have hrdy := hrun.resolve_left hintrpt
    refine sameOwn_of (sleepingTask (s.tasks s.active) ticks tickMatch) rfl rfl ?_ ?_ (lists_same rfl) rfl
    · simp [sleepingTask, hrdy]
    · simp [sleepingTask, hrdy]

/-- The active task blocks on a mutex of another task, or on an object that is none. -/
theorem pendToBlkObj_sameOwn {timeout : ℕ} (hrdy : (s.tasks task).taskState = .rdy)
    (htime : 0 < timeout) (howner : (s.objs obj).objType = .mutex → MayWait (s.objs obj) task)
    (hc : pendToBlkObj s obj task timeout = some s') : SameOwn s s' := by
  obtain ⟨tickMatch, tickRemain, l, rq, bl, -, -, hbl, -, rfl⟩ := pendToBlkObj_eq htime hc
  refine sameOwn_of _ rfl rfl ?_ ?_ ?_ rfl
  · simp [pendedTask, hrdy]
  · simp [pendedTask, hrdy]
  · intro m
    simp only [setObj_objs, Function.update_apply]
    split
    case isTrue hm =>
      refine ⟨bl, by rw [hm], ?_⟩
      intro hmutex t ht
      rw [hm] at hmutex ⊢
      rw [hbl.mem_iff, List.mem_cons] at ht
      obtain rfl | ht := ht
      · exact .inr (howner hmutex)
      · exact .inl ht
    case isFalse => exact ⟨_, rfl, fun _ _ ht => .inl ht⟩

/-- `krhino_task_pri_change` leaves the owners. -/
theorem krhinoTaskPriChange_sameOwn {pri : ℕ} {st : KStat} (h : KernOk s del)
    (hc : krhinoTaskPriChange fuel s task pri = some (st, s')) : SameOwn s s' := by
  obtain rfl | ⟨-, hpri, priLimit, hlimit, hchange⟩ := krhinoTaskPriChange_cases hc
  · exact SameOwn.refl _
  · have hp : pri < priMax := hpri.trans_le (Nat.sub_le _ _)
    have hset : SameOwn s (s.setTask task { s.tasks task with bPrio := pri }) :=
      sameOwn_of _ rfl rfl Iff.rfl Iff.rfl (lists_same rfl) rfl
    exact hset.trans (hchange.sameOwn (h.setBPrio hp) (mutexPriLimitLoop_lt h hp hp hlimit))

/-- A task that waits for no object becomes ready or suspended. -/
theorem wake_sameOwn (t' : KTask) (hlive : Live (s.tasks task))
    (hstate : t'.taskState = .rdy ∨ t'.taskState = .suspended)
    (hlink : t'.mutexList = (s.tasks task).mutexList)
    (htasks : s'.tasks = Function.update s.tasks task t') (hobjs : s'.objs = s.objs)
    (hlog : s'.log = s.log) : SameOwn s s' := by
  refine sameOwn_of t' htasks hlink ?_ ?_ (lists_same hobjs) hlog
  · obtain hs | hs := hstate
    all_goals simp [hs, hlive.1]
  · obtain hs | hs := hstate
    all_goals simp [hs, hlive.2]

/-- `krhino_task_wait_abort` leaves the owners. -/
theorem krhinoTaskWaitAbort_sameOwn {st : KStat} (h : KernOk s del)
    (hc : krhinoTaskWaitAbort fuel s task = some (st, s')) : SameOwn s s' := by
  unfold krhinoTaskWaitAbort at hc
  split at hc
  case isTrue =>
    cases hc
    exact SameOwn.refl _
  case isFalse =>
    split at hc
    case h_1 =>
      cases hc
      exact SameOwn.refl _
    case h_2 hs =>
      cases hc
      exact wake_sameOwn { s.tasks task with taskState := .rdy } (by simp [Live, hs])
        (.inl rfl) rfl rfl rfl rfl
    case h_3 =>
      cases hc
      exact SameOwn.refl _
    case h_4 =>
      cases hc
      exact SameOwn.refl _
    case h_5 hs =>
      obtain ⟨s₁, hcancel, heq⟩ := Option.map_eq_some_iff.1 hc
      cases heq
      exact (pendCancel_sameOwn h (.inl hs) (.inl rfl) hcancel).trans (clearBlkObj_sameOwn _ _)
    case h_6 hs =>
      obtain ⟨s₁, hcancel, heq⟩ := Option.map_eq_some_iff.1 hc
      cases heq
      exact (pendCancel_sameOwn h (.inr hs) (.inl rfl) hcancel).trans (clearBlkObj_sameOwn _ _)
    case h_7 h1 h2 h3 h4 h5 h6 =>
      cases hc
      refine wake_sameOwn { s.tasks task with
        tickHead := false, taskState := .rdy, blkState := .abort } ⟨h3, h4⟩ (.inl rfl) rfl ?_ ?_ ?_
      · simp
      · simp
      · simp

/-- A timeout leaves the owners. -/
theorem tickTimeout_sameOwn (h : KernOk s del) (hc : tickTimeout fuel s task = some s') :
    SameOwn s s' := by
  unfold tickTimeout at hc
  split at hc
  case h_1 hs =>
    cases hc
    refine wake_sameOwn { s.tasks task with
      blkState := .finish, taskState := .rdy, tickHead := false } (by simp [Live, hs]) (.inl rfl)
      rfl ?_ ?_ ?_
    · simp
    · simp
    · simp
  case h_2 hs =>
    obtain ⟨s₁, hcancel, rfl⟩ := Option.map_eq_some_iff.1 hc
    exact (pendCancel_sameOwn h (.inl hs) (.inl rfl) hcancel).trans (clearBlkObj_sameOwn _ _)
  case h_3 hs =>
    obtain ⟨s₁, hcancel, rfl⟩ := Option.map_eq_some_iff.1 hc
    exact (pendCancel_sameOwn h (.inr hs) (.inr ⟨rfl, hs⟩) hcancel).trans (clearBlkObj_sameOwn _ _)
  case h_4 hs =>
    cases hc
    refine wake_sameOwn { s.tasks task with
      taskState := .suspended, blkState := .finish, tickHead := false } (by simp [Live, hs])
      (.inr rfl) rfl ?_ ?_ ?_
    · simp
    · simp
    · simp
  case h_5 => cases hc

/-- The loop of `tick_list_update` leaves the owners. -/
theorem tickListLoop_sameOwn {l : List ℕ} (h : KernOk s del)
    (hc : tickListLoop fuel s l = some s') : SameOwn s s' := by
  induction l generalizing s with
  | nil =>
    cases hc
    exact SameOwn.refl _
  | cons first rest ih =>
    unfold tickListLoop at hc
    split at hc
    case isTrue =>
      split at hc
      case h_1 => cases hc
      case h_2 s₁ htimeout =>
        exact (tickTimeout_sameOwn h htimeout).trans (ih (tickTimeout_ok h htimeout) hc)
    case isFalse =>
      cases hc
      exact SameOwn.refl _

/-- Waking all tasks of an object leaves the owners. -/
theorem pendTaskRmAll_sameOwn (h : KernOk s del) (hc : pendTaskRmAll fuel s obj = some s') :
    SameOwn s s' := by
  induction fuel generalizing s with
  | zero => cases hc
  | succ fuel ih =>
    unfold pendTaskRmAll at hc
    split at hc
    case h_1 =>
      cases hc
      exact SameOwn.refl _
    case h_2 first rest _ =>
      split at hc
      case h_1 => cases hc
      case h_2 s₁ hrm => exact (pendTaskEnd_sameOwn h hrm).trans (ih (pendTaskEnd_ok h hrm) hc)

/-- The type of an object that is no mutex changes, and its list. -/
theorem sameOwn_setObj {o : KObj} (hold : (s.objs obj).objType ≠ .mutex) (hnew : o.objType ≠ .mutex)
    (hlink : o.mutexList = (s.objs obj).mutexList) : SameOwn s (s.setObj obj o) := by
  have hcases : ∀ m, (s.objs m).objType = .mutex → (s.setObj obj o).objs m = s.objs m := by
    intro m hm
    rw [setObj_objs, Function.update_of_ne]
    rintro rfl
    exact hold hm
  constructor
  case link => exact fun _ => rfl
  case seed => exact fun _ => Iff.rfl
  case deleted => exact fun _ => Iff.rfl
  case type =>
    intro m
    rw [setObj_objs, Function.update_apply]
    split
    case isTrue hm => simp [hm, hold, hnew]
    case isFalse => rfl
  case objLink =>
    intro m
    rw [setObj_objs, Function.update_apply]
    split
    case isTrue hm => rw [hm, hlink]
    case isFalse => rfl
  case owner =>
    intro m hm
    rw [hcases m hm]
  case nested =>
    intro m hm
    rw [hcases m hm]
  case wait =>
    intro m hm t ht
    rw [hcases m hm] at ht
    exact .inl ht
  case log => rfl

/-- The calls that have to do with the owners of mutexes. -/
def concernsOwners : KernCall → Bool
  | .taskCreate .. => true
  | .taskDel _ => true
  | .taskDynDel _ => true
  | .mutexCreate .. => true
  | .mutexDel _ => true
  | .mutexDynDel _ => true
  | .mutexLock .. => true
  | .mutexUnlock _ => true
  | _ => false

/-- **All other calls** leave the owners alone. -/
theorem kernCall_sameOwn {c : KernCall} (h : KernOk s none)
    (hrun : 0 < s.intrptLevel ∨ (s.tasks s.active).taskState = .rdy)
    (hplain : concernsOwners c = false) (hc : kernCall fuel s c = some s') : SameOwn s s' := by
  cases c with
  | taskCreate task prio ticks autorun flag => cases hplain
  | taskDel given => cases hplain
  | taskDynDel given => cases hplain
  | mutexCreate mutex flag => cases hplain
  | mutexDel mutex => cases hplain
  | mutexDynDel mutex => cases hplain
  | mutexLock mutex ticks => cases hplain
  | mutexUnlock mutex => cases hplain
  | taskSleep ticks =>
    obtain ⟨st, hc⟩ := map_snd_eq hc
    exact krhinoTaskSleep_sameOwn hrun hc
  | taskYield =>
    obtain ⟨st, hc⟩ := map_snd_eq hc
    obtain ⟨rq, hrot, heq⟩ := Option.map_eq_some_iff.1 hc
    cases heq
    exact sameOwn_rest rfl rfl rfl
  | taskSuspend task =>
    obtain ⟨st, hc⟩ := map_snd_eq hc
    exact krhinoTaskSuspend_sameOwn h hc
  | taskResume task =>
    obtain ⟨st, hc⟩ := map_snd_eq hc
    exact krhinoTaskResume_sameOwn h hc
  | taskPriChange task pri =>
    obtain ⟨st, hc⟩ := map_snd_eq hc
    exact krhinoTaskPriChange_sameOwn h hc
  | taskWaitAbort task =>
    obtain ⟨st, hc⟩ := map_snd_eq hc
    exact krhinoTaskWaitAbort_sameOwn h hc
  | blkObjCreate obj policy =>
    simp only [kernCall, blkObjCreate] at hc
    split_ifs at hc with hfree
    cases hc
    exact sameOwn_setObj (by simp [not_not.1 hfree]) (by simp) rfl
  | blkObjPend obj ticks =>
    obtain ⟨st, hc⟩ := map_snd_eq hc
    unfold blkObjPend at hc
    split_ifs at hc with hintrpt htype hticks hlock
    · cases hc
      exact SameOwn.refl _
    · cases hc
      exact SameOwn.refl _
    · cases hc
      exact SameOwn.refl _
    · cases hc
      exact SameOwn.refl _
    · obtain ⟨s₁, hpend, heq⟩ := Option.map_eq_some_iff.1 hc
      cases heq
      exact pendToBlkObj_sameOwn (hrun.resolve_left hintrpt) (Nat.pos_of_ne_zero hticks)
        (by simp [not_not.1 htype]) hpend
  | blkObjWake obj task =>
    obtain ⟨st, hc⟩ := map_snd_eq hc
    unfold blkObjWake at hc
    split_ifs at hc with htype hmem
    · cases hc
      exact SameOwn.refl _
    · obtain ⟨s₁, hwake, heq⟩ := Option.map_eq_some_iff.1 hc
      cases heq
      exact pendTaskEnd_sameOwn h hwake
  | blkObjDel obj =>
    obtain ⟨st, hc⟩ := map_snd_eq hc
    unfold blkObjDel at hc
    split_ifs at hc with hintrpt htype
    · cases hc
      exact SameOwn.refl _
    · cases hc
      exact SameOwn.refl _
    · obtain ⟨s₁, hall, heq⟩ := Option.map_eq_some_iff.1 hc
      cases heq
      have hset : SameOwn s (s.setObj obj { s.objs obj with objType := .none }) :=
        sameOwn_setObj (by simp [not_not.1 htype]) (by simp) rfl
      exact hset.trans (pendTaskRmAll_sameOwn (h.beginDel obj) hall)
  | schedDisable =>
    cases hc
    unfold krhinoSchedDisable
    split_ifs
    all_goals exact sameOwn_rest rfl rfl rfl
  | schedEnable =>
    cases hc
    unfold krhinoSchedEnable
    split_ifs
    all_goals exact sameOwn_rest rfl rfl rfl
  | tickListUpdate ticks =>
    have hclock : SameOwn s { s with tickCount := GenieSdk.Model.addTime s.tickCount ticks } :=
      sameOwn_rest rfl rfl rfl
    have h₁ : KernOk { s with tickCount := GenieSdk.Model.addTime s.tickCount ticks } none :=
      ⟨h.rq, h.tick, h.blk, h.tasks, h.dead⟩
    exact hclock.trans (tickListLoop_sameOwn h₁ hc)
  | timeSliceUpdate =>
    simp only [kernCall, timeSliceUpdate] at hc
    split at hc
    case h_1 =>
      cases hc
      exact SameOwn.refl _
    case h_2 =>
      cases hc
      exact SameOwn.refl _
    case h_3 first rest _ _ =>
      split_ifs at hc with hfifo hslice
      · cases hc
        exact SameOwn.refl _
      · cases hc
        exact sameOwn_of _ rfl rfl Iff.rfl Iff.rfl (lists_same rfl) rfl
      · obtain ⟨rq, hrot, rfl⟩ := Option.map_eq_some_iff.1 hc
        exact sameOwn_of _ rfl rfl Iff.rfl Iff.rfl (lists_same rfl) rfl

end PlainCalls

end GenieSdk.Analysis.Rhino
