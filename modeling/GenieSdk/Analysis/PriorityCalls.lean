import GenieSdk.Analysis.PriorityChain

/-!
# Priorities across the kernel calls

The calls of `k_mutex.c`, `k_task.c` and `k_tick.c` after which somebody waits for a mutex, waits no
longer, owns one or owns it no longer, or has another base priority. Each of them leaves the
priorities inherited. `SamePrio` holds between the states before and after all other calls.
-/

set_option autoImplicit false

namespace GenieSdk.Analysis.Rhino

open GenieSdk.Model.Rhino
open GenieSdk.Model (AllocFlag BlkState KStat pendListAdd pendListAdd_perm)
open GenieSdk.Lib

/-- The two states agree on all that concerns the inheritance of priorities. -/
structure SamePrio (s s' : Kern) : Prop where
  live : ∀ t, Live (s'.tasks t) → Live (s.tasks t)
  base : basePrio s' = basePrio s
  prio : prioOf s' = prioOf s
  type : ∀ m, (s'.objs m).objType = .mutex ↔ (s.objs m).objType = .mutex
  owner : ∀ m, (s.objs m).objType = .mutex → (s'.objs m).mutexTask = (s.objs m).mutexTask
  list : ∀ m, (s.objs m).objType = .mutex → (s'.objs m).blkList = (s.objs m).blkList
  policy : ∀ m, (s.objs m).objType = .mutex → (s'.objs m).blkPolicy = (s.objs m).blkPolicy

section SamePrio

variable {s s' : Kern} {del exc : Option ℕ} {task obj fuel : ℕ}

/-- Nothing is done. -/
theorem SamePrio.refl (s : Kern) : SamePrio s s :=
  ⟨fun _ ht => ht, rfl, rfl, fun _ => Iff.rfl, fun _ _ => rfl, fun _ _ => rfl, fun _ _ => rfl⟩

/-- Two steps that leave priorities and waits. -/
theorem SamePrio.trans {s₁ s₂ s₃ : Kern} (h : SamePrio s₁ s₂) (h' : SamePrio s₂ s₃) :
    SamePrio s₁ s₃ where
  live t ht := h.live t (h'.live t ht)
  base := h'.base.trans h.base
  prio := h'.prio.trans h.prio
  type m := (h'.type m).trans (h.type m)
  owner m hm := (h'.owner m ((h.type m).2 hm)).trans (h.owner m hm)
  list m hm := (h'.list m ((h.type m).2 hm)).trans (h.list m hm)
  policy m hm := (h'.policy m ((h.type m).2 hm)).trans (h.policy m hm)

/-- Such a step leaves the owners. -/
theorem SamePrio.owns (h : SamePrio s s') (t m : ℕ) : Owns s' t m ↔ Owns s t m := by
  unfold Owns
  rw [h.type]
  constructor
  · rintro ⟨hm, howner⟩
    exact ⟨hm, by rw [← h.owner m hm, howner]⟩
  · rintro ⟨hm, howner⟩
    exact ⟨hm, by rw [h.owner m hm, howner]⟩

/-- And who waits for whom. -/
theorem SamePrio.waitsOn (h : SamePrio s s') (w t : ℕ) : WaitsOn s' w t ↔ WaitsOn s w t := by
  unfold WaitsOn
  simp only [h.owns]
  constructor
  · rintro ⟨m, hm, hw⟩
    rw [h.list m hm.1] at hw
    exact ⟨m, hm, hw⟩
  · rintro ⟨m, hm, hw⟩
    rw [← h.list m hm.1] at hw
    exact ⟨m, hm, hw⟩

/-- **The priorities stay inherited** where nothing concerns them. -/
theorem Inherits.same (h : Inherits s (WaitsOn s) exc) (hs : SamePrio s s') :
    Inherits s' (WaitsOn s') exc := by
  apply h.transfer hs.prio hs.base hs.live hs.waitsOn
  apply h.ordered.congr
  · intro m hm
    have hm' := (hs.type m).1 hm
    refine ⟨hm', hs.policy m hm', ?_⟩
    rw [hs.list m hm']
  · intro m _ t _
    rw [hs.prio]

/-- One task is written, and the objects that are no mutexes. -/
theorem samePrio_of (t' : KTask) (htasks : s'.tasks = Function.update s.tasks task t')
    (hprio : t'.prio = (s.tasks task).prio) (hbase : t'.bPrio = (s.tasks task).bPrio)
    (hlive : Live t' → Live (s.tasks task))
    (htype : ∀ m, (s'.objs m).objType = .mutex ↔ (s.objs m).objType = .mutex)
    (hobj : ∀ m, (s.objs m).objType = .mutex → s'.objs m = s.objs m) : SamePrio s s' := by
  have hfield : ∀ {β : Type} (f : KTask → β), f t' = f (s.tasks task) →
      (fun t => f (s'.tasks t)) = fun t => f (s.tasks t) := by
    intro β f hf
    rw [htasks, comp_update, hf, Function.update_eq_self task fun t => f (s.tasks t)]
  constructor
  case live =>
    intro t ht
    rw [htasks, Function.update_apply] at ht
    split at ht
    case isTrue htt =>
      rw [htt]
      exact hlive ht
    case isFalse => exact ht
  case base => exact hfield KTask.bPrio hbase
  case prio => exact hfield KTask.prio hprio
  case type => exact htype
  case owner =>
    intro m hm
    rw [hobj m hm]
  case list =>
    intro m hm
    rw [hobj m hm]
  case policy =>
    intro m hm
    rw [hobj m hm]

/-- The objects stay. -/
theorem samePrio_task (t' : KTask) (htasks : s'.tasks = Function.update s.tasks task t')
    (hprio : t'.prio = (s.tasks task).prio) (hbase : t'.bPrio = (s.tasks task).bPrio)
    (hlive : Live t' → Live (s.tasks task)) (hobjs : s'.objs = s.objs) : SamePrio s s' :=
  samePrio_of t' htasks hprio hbase hlive (fun m => by rw [hobjs]) (fun m _ => by rw [hobjs])

/-- A step that leaves tasks and objects is one. -/
theorem samePrio_rest (htasks : s'.tasks = s.tasks) (hobjs : s'.objs = s.objs) : SamePrio s s' := by
  refine @samePrio_task s s' 0 (s.tasks 0) ?_ rfl rfl id hobjs
  rw [htasks, Function.update_eq_self]

/-- An object that is no mutex is written. -/
theorem samePrio_setObj {o : KObj} (hold : (s.objs obj).objType ≠ .mutex)
    (hnew : o.objType ≠ .mutex) : SamePrio s (s.setObj obj o) := by
  refine @samePrio_of s _ 0 (s.tasks 0) ?_ rfl rfl id ?_ ?_
  · rw [setObj_tasks, Function.update_eq_self]
  · intro m
    rw [setObj_objs, Function.update_apply]
    split
    case isTrue hm => simp [hm, hold, hnew]
    case isFalse => rfl
  · intro m hm
    rw [setObj_objs, Function.update_of_ne]
    rintro rfl
    exact hold hm

/-- So is one that suspends a task once more or once less. -/
theorem Resuspended.samePrio {t' : KTask} {rq : RunQueue} (h : Resuspended (s.tasks task) t') :
    SamePrio s { s with rq := rq, tasks := Function.update s.tasks task t' } := by
  have hsame : SameOwn s { s with rq := rq, tasks := Function.update s.tasks task t' } := h.sameOwn
  refine samePrio_task t' rfl h.prio h.bPrio ?_ rfl
  have := (hsame.live task).1
  simpa using this

/-- A wait for an object ends that is no mutex. -/
theorem pendTaskEnd_samePrio {b : BlkState} (hk : KernOk s del)
    (hnot : ∀ m, (s.tasks task).blkObj = some m → (s.objs m).objType ≠ .mutex)
    (hc : pendTaskEnd s task b = some s') : SamePrio s s' := by
  obtain ⟨m, t', hobj, hpend, htasks, -, hprio, hbase, -, hobjs, -, -⟩ := pendTaskEnd_eq hk hc
  refine samePrio_of t' htasks hprio hbase (fun _ => pending_live hpend) ?_ ?_
  · intro x
    rw [hobjs, Function.update_apply]
    split
    case isTrue hx => rw [hx]
    case isFalse => rfl
  · intro x hx
    rw [hobjs, Function.update_of_ne]
    rintro rfl
    exact hnot x hobj hx

/-- The fields of an object that do not concern priorities are written. -/
theorem samePrio_setMutex {o : KObj} (htype : o.objType = (s.objs obj).objType)
    (howner : o.mutexTask = (s.objs obj).mutexTask) (hlist : o.blkList = (s.objs obj).blkList)
    (hpol : o.blkPolicy = (s.objs obj).blkPolicy) : SamePrio s (s.setObj obj o) := by
  have hobj : ∀ m, ((s.setObj obj o).objs m).objType = (s.objs m).objType ∧
      ((s.setObj obj o).objs m).mutexTask = (s.objs m).mutexTask ∧
      ((s.setObj obj o).objs m).blkList = (s.objs m).blkList ∧
      ((s.setObj obj o).objs m).blkPolicy = (s.objs m).blkPolicy := by
    intro m
    rw [setObj_objs, Function.update_apply]
    split
    case isTrue hm =>
      rw [hm]
      exact ⟨htype, howner, hlist, hpol⟩
    case isFalse => exact ⟨rfl, rfl, rfl, rfl⟩
  exact ⟨fun _ ht => ht, rfl, rfl, fun m => by rw [(hobj m).1], fun m _ => (hobj m).2.1,
    fun m _ => (hobj m).2.2.1, fun m _ => (hobj m).2.2.2⟩

/-- The search for a priority writes links alone. -/
theorem mutexPriLookLoop_samePrio {rel : Option ℕ} {pri newPri p : ℕ} {prev : MutexListPtr}
    (hl : mutexPriLookLoop rel fuel s prev pri newPri = some (p, s')) : SamePrio s s' := by
  induction fuel generalizing s prev pri newPri with
  | zero => cases hl
  | succ fuel ih =>
    unfold mutexPriLookLoop at hl
    split at hl
    case h_1 =>
      cases hl
      exact SamePrio.refl _
    case h_2 mutex _ =>
      split at hl
      case isTrue =>
        have hwrite : SamePrio s (s.writePtr prev (s.objs mutex).mutexList) := by
          cases prev with
          | ofTask t => exact samePrio_task _ rfl rfl rfl id rfl
          | ofMutex m => exact samePrio_setMutex rfl rfl rfl rfl
        exact hwrite.trans (ih hl)
      case isFalse => exact ih hl

end SamePrio

section Cancel

variable {s s' : Kern} {del exc exc' : Option ℕ} {task obj fuel : ℕ} {st : TaskStat} {b : BlkState}

/-- A task whose wait is cancelled waits for nobody, and the others wait as before. -/
theorem cancelled_waitsOn (hk : KernOk s del) (hobj : (s.tasks task).blkObj = some obj) (w t : ℕ) :
    WaitsOn (cancelled s task st b) w t ↔ WaitsOn s w t ∧ w ≠ task := by
  have hobjs := cancelled_objs hobj st b
  have howns : ∀ m, Owns (cancelled s task st b) t m ↔ Owns s t m := by
    intro m
    unfold Owns
    rw [hobjs, Function.update_apply]
    split
    case isTrue hm => rw [hm]
    case isFalse => rfl
  have hlist : ∀ m, w ∈ ((cancelled s task st b).objs m).blkList ↔
      w ∈ (s.objs m).blkList ∧ w ≠ task := by
    intro m
    rw [hobjs, Function.update_apply]
    split
    case isTrue hm =>
      rw [hm, (hk.blk.nodup obj).mem_erase_iff, and_comm]
    case isFalse hm =>
      refine ⟨fun hw => ⟨hw, ?_⟩, And.left⟩
      rintro rfl
      exact hm (Option.some.inj ((hk.waiter hw).2.symm.trans hobj))
  unfold WaitsOn
  simp only [howns, hlist, exists_and_right, ← and_assoc]

/-- Taking a task off its lists leaves the priorities. -/
theorem cancelled_prioOf (s : Kern) (task : ℕ) (st : TaskStat) (b : BlkState) :
    prioOf (cancelled s task st b) = prioOf s ∧ basePrio (cancelled s task st b) = basePrio s := by
  constructor
  all_goals
    funext t
    simp only [prioOf, basePrio, cancelled_tasks, Function.update_apply]
    split
    case isTrue ht => rw [ht]
    case isFalse => rfl

/-- When a wait is cancelled, at most the task that was waited for has to follow. -/
theorem Inherits.cancelled (h : Inherits s (WaitsOn s) exc) (hk : KernOk s del)
    (hpend : Pending (s.tasks task)) (hobj : (s.tasks task).blkObj = some obj)
    (hexc : ∀ t, some t = exc → t = task ∧ st = .deleted)
    (hnext : ∀ t, WaitsOn s task t → some t = exc') :
    Inherits (cancelled s task st b) (WaitsOn (cancelled s task st b)) exc' := by
  obtain ⟨hprio, hbase⟩ := cancelled_prioOf s task st b
  have hobjs := cancelled_objs hobj st b
  constructor
  · intro t ht hne
    have hnot : ¬ WaitsOn s task t := fun hw => hne (hnext t hw)
    rw [hprio, hbase, claims_congr rfl _ fun _ _ => rfl]
    · rw [cancelled_tasks, Function.update_apply] at ht
      split at ht
      case isTrue htt =>
        apply h.least t (htt ▸ pending_live hpend)
        intro heq
        exact ht.2 (hexc t heq).2
      case isFalse htt =>
        apply h.least t ht
        intro heq
        exact htt (hexc t heq).1
    · intro w
      rw [cancelled_waitsOn hk hobj]
      refine ⟨And.left, fun hw => ⟨hw, ?_⟩⟩
      rintro rfl
      exact hnot hw
  · apply h.ordered.congr
    · intro m hm
      rw [hobjs, Function.update_apply] at hm ⊢
      split at hm
      case isTrue hmm =>
        rw [if_pos hmm, hmm]
        exact ⟨hm, rfl, List.erase_sublist⟩
      case isFalse hmm =>
        rw [if_neg hmm]
        exact ⟨hm, rfl, List.Sublist.refl _⟩
    · intro m _ t _
      rw [hprio]

/-- **A wait is cancelled**, and the owner of the mutex gets its priority anew. -/
theorem pendCancel_inherits (h : Inherits s (WaitsOn s) exc) (hk : KernOk s del)
    (hpend : Pending (s.tasks task)) (hexc : ∀ t, some t = exc → t = task ∧ st = .deleted)
    (hself : ∀ t m, Owns s t m → t ∉ (s.objs m).blkList)
    (hst : st = .rdy ∨ st = .deleted ∨
      (st = .suspended ∧ (s.tasks task).taskState = .pendSuspended))
    (ho : Owned (cancelled s task st b)) (hc : pendCancel fuel s task st b = some s') :
    Inherits s' (WaitsOn s') none := by
  rw [pendCancel_eq] at hc
  obtain ⟨m, hm⟩ := (hk.tasks task).blkObj hpend
  have hmem : task ∈ (s.objs m).blkList := (hk.membership.blk_iff task m).2 ⟨hpend, hm⟩
  have hblk : ((cancelled s task st b).tasks task).blkObj = some m := by
    rw [cancelled_tasks, Function.update_self]
    exact hm
  have hobj : (cancelled s task st b).objs m =
      { s.objs m with blkList := (s.objs m).blkList.erase task } := by
    rw [cancelled_objs hm, Function.update_self]
  obtain ⟨obj, hobj', hcases⟩ := mutexTaskPriReset_cases hc
  obtain rfl : m = obj := Option.some.inj (hblk.symm.trans hobj')
  rw [hobj] at hcases
  simp only at hcases
  obtain ⟨htype, rfl⟩ | ⟨htype, owner, howner, hcases⟩ := hcases
  · apply h.cancelled hk hpend hm hexc
    intro t hw
    refine absurd hw (hk.not_waitsOn ?_ t)
    intro x _ hx
    rw [hm] at hx
    cases hx
    exact htype
  · have hown : Owns s owner m := ⟨htype, howner⟩
    have hne : owner ≠ task := by
      rintro rfl
      exact hself owner m hown hmem
    have h' : Inherits (cancelled s task st b) (WaitsOn (cancelled s task st b)) (some owner) := by
      apply h.cancelled hk hpend hm hexc
      intro t hw
      rw [(hk.waitsOn_iff hpend hm htype howner t).1 hw]
    obtain ⟨hdiff, rfl⟩ | ⟨-, hrel⟩ := hcases
    · obtain ⟨hprio, hbase⟩ := cancelled_prioOf s task st b
      apply h'.fill
      intro hlive
      rw [cancelled_tasks, Function.update_of_ne hne] at hlive
      rw [hprio, hbase]
      apply least_claims_leave (h.least owner hlive fun heq => hne (hexc owner heq).1)
      · have hdiff' : prioOf (cancelled s task st b) owner ≠ prioOf (cancelled s task st b) task :=
          hdiff
        rw [hprio] at hdiff'
        exact hdiff'
      · exact fun u => cancelled_waitsOn hk hm u owner
    · exact mutexRelease_inherits (cancelled_ok hk hpend hst) ho h' hrel

/-- A wait is cancelled and the task goes on. -/
theorem pendCancel_clear_inherits (h : Inherits s (WaitsOn s) none) (hk : KernOk s del) (ho : Owned s)
    (hpend : Pending (s.tasks task))
    (hst : st = .rdy ∨ (st = .suspended ∧ (s.tasks task).taskState = .pendSuspended))
    (hc : pendCancel fuel s task st b = some s') :
    Inherits (clearBlkObj s' task) (WaitsOn (clearBlkObj s' task)) none := by
  have ho' : Owned (cancelled s task st b) :=
    ho.same (cancelled_sameOwn hk hpend (hst.imp_right And.left))
  have h' := pendCancel_inherits h hk hpend (by simp) ho.self (hst.imp_right .inr) ho' hc
  exact h'.same (samePrio_task _ rfl rfl rfl id rfl)

end Cancel

section PlainCalls

variable {s s' : Kern} {del : Option ℕ} {task obj fuel : ℕ}

/-- `krhino_task_wait_abort` keeps the inherited priorities right. -/
theorem krhinoTaskWaitAbort_inherits {st : KStat} (h : Inherits s (WaitsOn s) none)
    (hk : KernOk s del) (ho : Owned s) (hc : krhinoTaskWaitAbort fuel s task = some (st, s')) :
    Inherits s' (WaitsOn s') none := by
  unfold krhinoTaskWaitAbort at hc
  split at hc
  case isTrue =>
    cases hc
    exact h
  case isFalse =>
    split at hc
    case h_1 =>
      cases hc
      exact h
    case h_2 hs =>
      cases hc
      exact h.same (samePrio_task { s.tasks task with taskState := .rdy } rfl rfl rfl
        (fun _ => by simp [Live, hs]) rfl)
    case h_3 =>
      cases hc
      exact h
    case h_4 =>
      cases hc
      exact h
    case h_5 hs =>
      obtain ⟨s₁, hcancel, heq⟩ := Option.map_eq_some_iff.1 hc
      cases heq
      exact pendCancel_clear_inherits h hk ho (.inl hs) (.inl rfl) hcancel
    case h_6 hs =>
      obtain ⟨s₁, hcancel, heq⟩ := Option.map_eq_some_iff.1 hc
      cases heq
      exact pendCancel_clear_inherits h hk ho (.inr hs) (.inl rfl) hcancel
    case h_7 h1 h2 h3 h4 h5 h6 =>
      cases hc
      refine h.same (samePrio_task { s.tasks task with
        tickHead := false, taskState := .rdy, blkState := .abort } ?_ rfl rfl (fun _ => ⟨h3, h4⟩) ?_)
      · simp
      · simp

/-- A timeout keeps them right. -/
theorem tickTimeout_inherits (h : Inherits s (WaitsOn s) none) (hk : KernOk s del) (ho : Owned s)
    (hc : tickTimeout fuel s task = some s') : Inherits s' (WaitsOn s') none := by
  unfold tickTimeout at hc
  split at hc
  case h_1 hs =>
    cases hc
    refine h.same (samePrio_task { s.tasks task with
      blkState := .finish, taskState := .rdy, tickHead := false } ?_ rfl rfl
      (fun _ => by simp [Live, hs]) ?_)
    · simp
    · simp
  case h_2 hs =>
    obtain ⟨s₁, hcancel, rfl⟩ := Option.map_eq_some_iff.1 hc
    exact pendCancel_clear_inherits h hk ho (.inl hs) (.inl rfl) hcancel
  case h_3 hs =>
    obtain ⟨s₁, hcancel, rfl⟩ := Option.map_eq_some_iff.1 hc
    exact pendCancel_clear_inherits h hk ho (.inr hs) (.inr ⟨rfl, hs⟩) hcancel
  case h_4 hs =>
    cases hc
    refine h.same (samePrio_task { s.tasks task with
      taskState := .suspended, blkState := .finish, tickHead := false } ?_ rfl rfl
      (fun _ => by simp [Live, hs]) ?_)
    · simp
    · simp
  case h_5 => cases hc

/-- The loop of `tick_list_update` keeps them right. -/
theorem tickListLoop_inherits {l : List ℕ} (h : Inherits s (WaitsOn s) none) (hk : KernOk s del)
    (ho : Owned s) (hc : tickListLoop fuel s l = some s') : Inherits s' (WaitsOn s') none := by
  induction l generalizing s with
  | nil =>
    cases hc
    exact h
  | cons first rest ih =>
    unfold tickListLoop at hc
    split at hc
    case isTrue =>
      split at hc
      case h_1 => cases hc
      case h_2 s₁ htimeout =>
        exact ih (tickTimeout_inherits h hk ho htimeout) (tickTimeout_ok hk htimeout)
          (ho.same (tickTimeout_sameOwn hk htimeout)) hc
    case isFalse =>
      cases hc
      exact h

/-- The waiters of an object that is no mutex are woken. -/
theorem pendTaskRmAll_inherits {exc : Option ℕ} (h : Inherits s (WaitsOn s) exc) (hk : KernOk s del)
    (htype : (s.objs obj).objType ≠ .mutex) (hc : pendTaskRmAll fuel s obj = some s') :
    Inherits s' (WaitsOn s') exc := by
  induction fuel generalizing s with
  | zero => cases hc
  | succ fuel ih =>
    unfold pendTaskRmAll at hc
    split at hc
    case h_1 =>
      cases hc
      exact h
    case h_2 first rest hlist =>
      split at hc
      case h_1 => cases hc
      case h_2 s₁ hrm =>
        have hmem : first ∈ (s.objs obj).blkList := by
          rw [hlist]
          exact List.mem_cons_self
        have hsame : SamePrio s s₁ := by
          apply pendTaskEnd_samePrio hk _ hrm
          intro m hm
          rw [(hk.waiter hmem).2] at hm
          cases hm
          exact htype
        exact ih (h.same hsame) (pendTaskEnd_ok hk hrm) (fun hm => htype ((hsame.type obj).1 hm)) hc

/-- The active task blocks on an object that is no mutex. -/
theorem pendToBlkObj_samePrio {timeout : ℕ} (hrdy : (s.tasks task).taskState = .rdy)
    (htime : 0 < timeout) (htype : (s.objs obj).objType ≠ .mutex)
    (hc : pendToBlkObj s obj task timeout = some s') : SamePrio s s' := by
  obtain ⟨tickMatch, tickRemain, l, rq, bl, -, -, -, -, rfl⟩ := pendToBlkObj_eq htime hc
  refine samePrio_of _ rfl rfl rfl (fun _ => by simp [Live, hrdy]) ?_ ?_
  · intro m
    simp only [setObj_objs, Function.update_apply]
    split
    case isTrue hm => rw [hm]
    case isFalse => rfl
  · intro m hm
    rw [setObj_objs, Function.update_of_ne]
    rintro rfl
    exact htype hm

end PlainCalls

section PriorityCalls

variable {s s' s₁ s₂ : Kern} {del exc : Option ℕ} {task mutex owner w fuel : ℕ}

/-- `krhino_task_pri_change` keeps them right. -/
theorem krhinoTaskPriChange_inherits {pri : ℕ} {st : KStat} (h : Inherits s (WaitsOn s) none)
    (hk : KernOk s del) (ho : Owned s) (hc : krhinoTaskPriChange fuel s task pri = some (st, s')) :
    Inherits s' (WaitsOn s') none := by
  obtain rfl | ⟨-, hpri, priLimit, hlimit, hchange⟩ := krhinoTaskPriChange_cases hc
  · exact h
  have hp : pri < priMax := hpri.trans_le (Nat.sub_le _ _)
  set s₀ := s.setTask task { s.tasks task with bPrio := pri } with hs₀
  have hk₀ : KernOk s₀ del := hk.setBPrio hp
  have ho₀ : Owned s₀ := ho.same (sameOwn_of _ rfl rfl Iff.rfl Iff.rfl (lists_same rfl) rfl)
  have hlive₀ : ∀ t, Live (s₀.tasks t) → Live (s.tasks t) := by
    intro t ht
    rw [hs₀, setTask_tasks, Function.update_apply] at ht
    split at ht
    case isTrue htt =>
      rw [htt]
      exact ht
    case isFalse => exact ht
  have hprio₀ : prioOf s₀ = prioOf s := by
    funext t
    simp only [prioOf, hs₀, setTask_tasks, Function.update_apply]
    split
    case isTrue htt => rw [htt]
    case isFalse => rfl
  have hord₀ : BlkOrdered s₀ := by
    apply h.ordered.congr
    · exact fun m hm => ⟨hm, rfl, List.Sublist.refl _⟩
    · intro m _ t _
      rw [hprio₀]
  apply hchange.inherits_waitsOn hk₀ ho₀ (mutexPriLimitLoop_lt hk hp hp hlimit)
  · refine ⟨?_, hord₀⟩
    intro t ht hne
    have htt : t ≠ task := by
      rintro rfl
      exact hne rfl
    have hbase : basePrio s₀ t = basePrio s t := by
      simp [basePrio, hs₀, Function.update_of_ne htt]
    rw [hprio₀, claims_congr hbase (fun _ => Iff.rfl) fun _ _ => rfl]
    exact h.least t (hlive₀ t ht) (by simp)
  · intro hlive
    obtain ⟨l, hl, -, hmem⟩ := ho.chain task (hlive₀ task hlive) (by simp)
    have hfound := mutexPriLimitLoop_spec hl le_rfl hlimit
    apply hord₀.least_look (fun m hm => hm.1)
    have hset : waiterPrios s₀ (Owns s₀) task = firstPrios s l := by
      ext q
      unfold waiterPrios firstPrios
      simp only [hmem]
      change (∃ m, Owns s task m ∧ ∃ w rest, (s.objs m).blkList = w :: rest ∧ prioOf s₀ w = q) ↔ _
      rw [hprio₀]
      rfl
    have hpri₀ : (s₀.tasks task).bPrio = pri := by simp [hs₀]
    rw [hset, hpri₀]
    exact hfound

/-- The active task enters the list of an object. -/
theorem pendToBlkObj_enters {obj timeout : ℕ} (hrdy : (s.tasks task).taskState = .rdy)
    (htime : 0 < timeout) (hc : pendToBlkObj s obj task timeout = some s') :
    prioOf s' = prioOf s ∧ basePrio s' = basePrio s ∧
      (∀ t, Live (s'.tasks t) → Live (s.tasks t)) ∧
      ∃ l, s'.objs = Function.update s.objs obj { s.objs obj with blkList := l } ∧
        l.Perm (task :: (s.objs obj).blkList) ∧
        ((s.objs obj).blkPolicy = .pri → l = pendListAdd (prioOf s) task (s.objs obj).blkList) := by
  obtain ⟨tickMatch, tickRemain, tl, rq, bl, -, -, hbl, hpri, rfl⟩ := pendToBlkObj_eq htime hc
  set t' := pendedTask (s.tasks task) obj timeout tickMatch tickRemain with ht'
  set s₀ : Kern := { s with
    rq := rq, tickList := tl, tasks := Function.update s.tasks task t' } with hs₀
  have hsame : SamePrio s s₀ :=
    samePrio_task t' rfl rfl rfl (fun _ => by simp [Live, hrdy]) rfl
  exact ⟨hsame.prio, hsame.base, hsame.live, bl, rfl, hbl, hpri⟩

/-- The owner of a mutex is as urgent as the task that is about to wait for it. -/
theorem raise_inherits (h : Inherits s (WaitsOn s) none) (hk : KernOk s none) (ho : Owned s)
    (hown : Owns s owner mutex)
    (hraise : ((s.tasks task).prio < (s.tasks owner).prio ∧
        PriChange s owner (s.tasks task).prio s₁) ∨
      ((s.tasks owner).prio ≤ (s.tasks task).prio ∧ s₁ = s)) :
    Inherits s₁ (fun w t => WaitsOn s w t ∨ (w = task ∧ t = owner)) none := by
  have hlive : Live (s.tasks owner) := ho.live owner mutex hown
  have hleast := h.least owner hlive (by simp)
  have hrest : Inherits s (fun w t => WaitsOn s w t ∨ (w = task ∧ t = owner)) (some owner) := by
    refine ⟨?_, h.ordered⟩
    intro t ht hne
    rw [claims_congr rfl _ fun _ _ => rfl]
    · exact h.least t ht (by simp)
    · intro w
      apply or_iff_left
      rintro ⟨-, rfl⟩
      exact hne rfl
  obtain ⟨hlt, hchange⟩ | ⟨hle, rfl⟩ := hraise
  · apply hchange.inherits hk ho (hk.tasks task).prio_lt (fun _ _ => Iff.rfl) _ hrest
    · intro _
      apply least_claims_enter hleast hlt
      intro u
      simp
    · rintro w t ⟨rfl, rfl⟩
      exact ⟨hlt, rfl⟩
  · apply hrest.fill
    intro _
    apply least_claims_join hleast
    · exact fun u hu => .inl hu
    · rintro u (hu | ⟨rfl, -⟩)
      · exact .inl hu
      · exact .inr hle

/-- The task that the owner was told of enters the list of the mutex. -/
theorem Inherits.enter {ticks : ℕ}
    (h : Inherits s (fun w t => WaitsOn s w t ∨ (w = task ∧ t = owner)) none)
    (hown : Owns s owner mutex) (hrdy : (s.tasks task).taskState = .rdy) (hticks : 0 < ticks)
    (hc : pendToBlkObj s mutex task ticks = some s') : Inherits s' (WaitsOn s') none := by
  obtain ⟨hprio, hbase, hlive, l, hobjs, hperm, hl⟩ := pendToBlkObj_enters hrdy hticks hc
  have howns : ∀ t m, Owns s' t m ↔ Owns s t m := by
    intro t m
    unfold Owns
    rw [hobjs, Function.update_apply]
    split
    case isTrue hm => rw [hm]
    case isFalse => rfl
  have hwaits : ∀ w t, WaitsOn s' w t ↔ WaitsOn s w t ∨ (w = task ∧ t = owner) := by
    intro w t
    have hlist : ∀ m, w ∈ (s'.objs m).blkList ↔
        w ∈ (s.objs m).blkList ∨ (m = mutex ∧ w = task) := by
      intro m
      rw [hobjs, Function.update_apply]
      split
      case isTrue hm =>
        rw [hm, hperm.mem_iff, List.mem_cons, or_comm]
        simp
      case isFalse hm => simp [hm]
    unfold WaitsOn
    simp only [howns, hlist]
    constructor
    · rintro ⟨m, hm, hw | ⟨rfl, rfl⟩⟩
      · exact .inl ⟨m, hm, hw⟩
      · exact .inr ⟨rfl, owns_unique s t owner m hm hown⟩
    · rintro (⟨m, hm, hw⟩ | ⟨rfl, rfl⟩)
      · exact ⟨m, hm, .inl hw⟩
      · exact ⟨mutex, hown, .inr ⟨rfl, rfl⟩⟩
  apply h.transfer hprio hbase hlive hwaits
  constructor
  · intro m hm
    rw [hprio]
    rw [hobjs, Function.update_apply] at hm ⊢
    split at hm
    case isTrue hmm =>
      rw [if_pos hmm, hl (h.ordered.policy mutex hown.1)]
      exact pendListAdd_sorted (h.ordered.sorted mutex hown.1)
    case isFalse hmm =>
      rw [if_neg hmm]
      exact h.ordered.sorted m hm
  · intro m hm
    rw [hobjs, Function.update_apply] at hm ⊢
    split at hm
    case isTrue hmm =>
      rw [if_pos hmm]
      exact h.ordered.policy mutex hown.1
    case isFalse hmm =>
      rw [if_neg hmm]
      exact h.ordered.policy m hm

/-- Who waits for whom when the mutex is nobody's. -/
def WaitsBut (s : Kern) (mutex w t : ℕ) : Prop :=
  ∃ m, (Owns s t m ∧ m ≠ mutex) ∧ w ∈ (s.objs m).blkList

/-- Who waits for a task over a mutex other than the given one. -/
theorem waitsBut_eq (s : Kern) (mutex : ℕ) : WaitsBut s mutex =
    fun w t => ∃ m, (Owns s t m ∧ some mutex ≠ some m) ∧ w ∈ (s.objs m).blkList := by
  funext w t
  simp [WaitsBut, eq_comm]

/-- A step that leaves priorities and waits leaves these too. -/
theorem SamePrio.waitsBut (h : SamePrio s s') (mutex w t : ℕ) :
    WaitsBut s' mutex w t ↔ WaitsBut s mutex w t := by
  unfold WaitsBut
  simp only [h.owns]
  constructor
  · rintro ⟨m, hm, hw⟩
    rw [h.list m hm.1.1] at hw
    exact ⟨m, hm, hw⟩
  · rintro ⟨m, hm, hw⟩
    rw [← h.list m hm.1.1] at hw
    exact ⟨m, hm, hw⟩

/-- The owner of the mutex is the exception anyway. -/
theorem Inherits.unowned (h : Inherits s (WaitsOn s) exc)
    (hown : ∀ t, Owns s t mutex → some t = exc) : Inherits s (WaitsBut s mutex) exc := by
  refine ⟨?_, h.ordered⟩
  intro t ht hne
  rw [claims_congr rfl _ fun _ _ => rfl]
  · exact h.least t ht hne
  · intro w
    constructor
    · rintro ⟨m, ⟨hm, -⟩, hw⟩
      exact ⟨m, hm, hw⟩
    · rintro ⟨m, hm, hw⟩
      refine ⟨m, ⟨hm, ?_⟩, hw⟩
      rintro rfl
      exact hne (hown t hm)

/-- A mutex that is nobody's has no owner any more. -/
theorem Inherits.setFree (h : Inherits s (WaitsBut s mutex) exc) :
    Inherits (s.setObj mutex { s.objs mutex with mutexTask := none })
      (WaitsOn (s.setObj mutex { s.objs mutex with mutexTask := none })) exc := by
  have hobj : ∀ m, ((s.setObj mutex { s.objs mutex with mutexTask := none }).objs m).blkList =
        (s.objs m).blkList ∧
      ((s.setObj mutex { s.objs mutex with mutexTask := none }).objs m).objType =
        (s.objs m).objType ∧
      ((s.setObj mutex { s.objs mutex with mutexTask := none }).objs m).blkPolicy =
        (s.objs m).blkPolicy := by
    intro m
    rw [setObj_objs, Function.update_apply]
    split
    case isTrue hm => rw [hm]; exact ⟨rfl, rfl, rfl⟩
    case isFalse => exact ⟨rfl, rfl, rfl⟩
  refine h.transfer ?_ ?_ ?_ ?_ ?_
  · rfl
  · rfl
  · exact fun _ ht => ht
  · intro w t
    unfold WaitsOn WaitsBut
    simp only [owns_setFree, (hobj _).1]
  · apply h.ordered.congr
    · intro m hm
      rw [(hobj m).2.1] at hm
      exact ⟨hm, (hobj m).2.2, by rw [(hobj m).1]⟩
    · exact fun _ _ _ _ => rfl

/-- **The first waiter gets the mutex**: the others have to wait for it, and it is no less urgent. -/
theorem Inherits.hand {rest : List ℕ} (h : Inherits s (WaitsBut s mutex) exc) (hk : KernOk s del)
    (hmutex : (s.objs mutex).objType = .mutex) (hlist : (s.objs mutex).blkList = w :: rest)
    (hwake : pendTaskWakeup s w = some s₁) :
    Inherits (mutexHandTo s₁ mutex w) (WaitsOn (mutexHandTo s₁ mutex w)) exc := by
  obtain ⟨-, hsame, -, hobjs, -⟩ := wakeFirst_spec hk hlist hwake
  obtain ⟨-, t', -, hpend, htasks, -, hprio', hbase', -, -, -, -⟩ := pendTaskEnd_eq hk hwake
  set s₂ := mutexHandTo s₁ mutex w with hs₂
  have hobjs₂ : s₂.objs = Function.update s.objs mutex { s.objs mutex with
      blkList := rest, mutexTask := some w, mutexList := (s₁.tasks w).mutexList } := by
    have hlink : s₂.objs = Function.update s₁.objs mutex { s₁.objs mutex with
      mutexTask := some w, mutexList := (s₁.tasks w).mutexList } := rfl
    rw [hlink, hobjs, Function.update_self, Function.update_idem]
  have hlists : ∀ m, (s₂.objs m).blkList = if m = mutex then rest else (s.objs m).blkList := by
    intro m
    rw [hobjs₂, Function.update_apply]
    split
    · rfl
    · rfl
  have hwoken : SamePrio s { s with tasks := s₁.tasks } :=
    samePrio_task t' htasks hprio' hbase' (fun _ => pending_live hpend) rfl
  have hlinked : SamePrio s₁ { s₁ with tasks := s₂.tasks } := samePrio_task _ rfl rfl rfl id rfl
  have hprio : prioOf s₂ = prioOf s := hlinked.prio.trans hwoken.prio
  have hbase : basePrio s₂ = basePrio s := hlinked.base.trans hwoken.base
  have hlive : ∀ t, Live (s₂.tasks t) → Live (s.tasks t) := fun t ht =>
    hwoken.live t (hlinked.live t ht)
  have howns : ∀ t m, Owns s₂ t m ↔ if m = mutex then t = w else Owns s t m := by
    intro t m
    rw [hs₂, owns_handTo ((hsame.type mutex).2 hmutex), hsame.owns]
  have hwaits : ∀ u t, WaitsOn s₂ u t ↔ WaitsBut s mutex u t ∨ (t = w ∧ u ∈ rest) := by
    intro u t
    unfold WaitsOn WaitsBut
    simp only [howns, hlists]
    constructor
    · rintro ⟨m, hm, hu⟩
      by_cases hmm : m = mutex
      · rw [if_pos hmm] at hm hu
        exact .inr ⟨hm, hu⟩
      · rw [if_neg hmm] at hm hu
        exact .inl ⟨m, ⟨hm, hmm⟩, hu⟩
    · rintro (⟨m, ⟨hm, hmm⟩, hu⟩ | ⟨rfl, hu⟩)
      · refine ⟨m, ?_, ?_⟩
        · rw [if_neg hmm]
          exact hm
        · rw [if_neg hmm]
          exact hu
      · exact ⟨mutex, by simp, by simpa using hu⟩
  constructor
  · intro t ht hne
    rw [hprio, hbase]
    apply least_claims_join (h.least t (hlive t ht) hne)
    · exact fun u hu => (hwaits u t).2 (.inl hu)
    · intro u hu
      obtain hold | ⟨htw, hmem⟩ := (hwaits u t).1 hu
      · exact .inl hold
      · have hs := h.ordered.sorted mutex hmutex
        rw [hlist] at hs
        rw [htw]
        exact .inr ((List.pairwise_cons.1 hs).1 u hmem)
  · apply h.ordered.congr
    · intro m hm
      rw [hlists]
      rw [hobjs₂, Function.update_apply] at hm ⊢
      split at hm
      case isTrue hmm =>
        rw [if_pos hmm, if_pos hmm, hmm, hlist]
        exact ⟨hmutex, rfl, List.sublist_cons_self _ _⟩
      case isFalse hmm =>
        rw [if_neg hmm, if_neg hmm]
        exact ⟨hm, rfl, List.Sublist.refl _⟩
    · intro m _ t _
      rw [hprio]

end PriorityCalls

section MutexCalls

variable {s s' s₁ s₂ : Kern} {del exc : Option ℕ} {task mutex owner w fuel : ℕ}

/-- The count of a mutex and the log do not concern priorities. -/
theorem Inherits.setNested (h : Inherits s (WaitsOn s) exc) (n : ℕ) :
    Inherits (s.setObj mutex { s.objs mutex with ownerNested := n })
      (WaitsOn (s.setObj mutex { s.objs mutex with ownerNested := n })) exc :=
  h.same (samePrio_setMutex rfl rfl rfl rfl)

/-- Recording an event keeps the inherited priorities right. -/
theorem Inherits.record (h : Inherits s (WaitsOn s) exc) (e : LockEvent) :
    Inherits (s.record e) (WaitsOn (s.record e)) exc :=
  h.same (samePrio_rest rfl rfl)

/-- A mutex that nobody waits for gets an owner. -/
theorem Inherits.handFree (h : Inherits s (WaitsOn s) exc) (hmutex : (s.objs mutex).objType = .mutex)
    (hfree : (s.objs mutex).mutexTask = none) (hnil : (s.objs mutex).blkList = []) :
    Inherits (mutexHandTo s mutex task) (WaitsOn (mutexHandTo s mutex task)) exc := by
  have hlinked : SamePrio s { s with tasks := (mutexHandTo s mutex task).tasks } :=
    samePrio_task _ rfl rfl rfl id rfl
  have hobjs : (mutexHandTo s mutex task).objs = Function.update s.objs mutex
      { s.objs mutex with mutexTask := some task, mutexList := (s.tasks task).mutexList } := rfl
  have hobj : ∀ m, ((mutexHandTo s mutex task).objs m).blkList = (s.objs m).blkList ∧
      ((mutexHandTo s mutex task).objs m).objType = (s.objs m).objType ∧
      ((mutexHandTo s mutex task).objs m).blkPolicy = (s.objs m).blkPolicy := by
    intro m
    rw [hobjs, Function.update_apply]
    split
    case isTrue hm =>
      rw [hm]
      exact ⟨rfl, rfl, rfl⟩
    case isFalse => exact ⟨rfl, rfl, rfl⟩
  refine h.transfer hlinked.prio hlinked.base hlinked.live ?_ ?_
  · intro u t
    unfold WaitsOn
    simp only [owns_handTo hmutex, (hobj _).1]
    constructor
    · rintro ⟨m, hm, hu⟩
      by_cases hmm : m = mutex
      · rw [hmm, hnil] at hu
        cases hu
      · rw [if_neg hmm] at hm
        exact ⟨m, hm, hu⟩
    · rintro ⟨m, hm, hu⟩
      have hmm : m ≠ mutex := by
        rintro rfl
        rw [Owns, hfree] at hm
        cases hm.2
      refine ⟨m, ?_, hu⟩
      rw [if_neg hmm]
      exact hm
  · apply h.ordered.congr
    · intro m hm
      rw [(hobj m).2.1] at hm
      exact ⟨hm, (hobj m).2.2, by rw [(hobj m).1]⟩
    · intro m _ t _
      exact congrFun hlinked.prio t

/-- `krhino_mutex_lock` keeps them right. -/
theorem krhinoMutexLock_inherits {ticks : ℕ} {st : Option KStat} (h : Inherits s (WaitsOn s) none)
    (hk : KernOk s none) (ho : Owned s)
    (hrun : 0 < s.intrptLevel ∨ (s.tasks s.active).taskState = .rdy)
    (hc : krhinoMutexLock fuel s mutex ticks = some (st, s')) : Inherits s' (WaitsOn s') none := by
  obtain rfl | ⟨hlevel, hmutex, hcases⟩ := krhinoMutexLock_cases hc
  · exact h
  have hrdy : (s.tasks s.active).taskState = .rdy := hrun.resolve_left (by omega)
  obtain ⟨hfree, rfl⟩ | ⟨-, -, rfl⟩ | ⟨owner, s₁, howner, -, hticks, hraise, hpend⟩ := hcases
  · exact (h.handFree hmutex hfree (ho.free mutex hmutex hfree)).setNested 1
  · exact (h.setNested _).record _
  · have hown : Owns s owner mutex := ⟨hmutex, howner⟩
    have h₁ := raise_inherits h hk ho hown hraise
    have hframe : Frame s s₁ := by
      obtain ⟨-, hchange⟩ | ⟨-, rfl⟩ := hraise
      · exact (hchange.frame hk (hk.tasks s.active).prio_lt).1
      · exact Frame.refl _
    have h₂ : Inherits s₁ (fun w t => WaitsOn s₁ w t ∨ (w = s₁.active ∧ t = owner)) none := by
      apply h₁.waits_congr
      intro w t
      rw [hframe.waitsOn, hframe.active]
    apply h₂.enter ((hframe.owns owner mutex).2 hown) _ hticks hpend
    rw [hframe.active, hframe.task]
    exact hrdy

/-- A ready task gets a priority, and nothing else happens. -/
theorem PriChange.of_ready {newPri : ℕ} (hc : PriChange s task newPri s')
    (hrdy : (s.tasks task).taskState = .rdy) :
    s'.tasks = Function.update s.tasks task { s.tasks task with prio := newPri } ∧
      s'.objs = s.objs := by
  cases hc with
  | same hprio =>
    rw [← hprio, Function.update_eq_self]
    exact ⟨rfl, rfl⟩
  | ready _ _ hready => exact taskPriReady_eq hready
  | still _ hstate => simp [hrdy] at hstate
  | blocked _ hpend => simp [Pending, hrdy] at hpend
  | raise _ hpend => simp [Pending, hrdy] at hpend
  | look _ hpend => simp [Pending, hrdy] at hpend
  | stop _ hpend => simp [Pending, hrdy] at hpend

/-- The active task gives up a mutex, which is nobody's then. -/
theorem undoLock_inherits (h : Inherits s (WaitsOn s) none) (hk : KernOk s none) (ho : Owned s)
    (hown : Owns s s.active mutex) (hrdy : (s.tasks s.active).taskState = .rdy)
    (hc : mutexRelease fuel (undoLock s mutex) s.active (some mutex) = some s₁) :
    Inherits s₁ (WaitsBut s₁ mutex) none := by
  obtain ⟨newPri, s₂, hlook, hchange⟩ := mutexRelease_cases hc
  set s₀ := undoLock s mutex with hs₀
  have hk₀ : KernOk s₀ none := undoLock_ok hk
  have ho₀ : Owned s₀ := (ho.setNested mutex _).record _
  have h₀ : Inherits s₀ (WaitsOn s₀) none := (h.setNested _).record _
  have hown₀ : Owns s₀ s.active mutex := (owns_setNested _ _ _).2 hown
  have hsame : SamePrio s₀ s₂ := mutexPriLookLoop_samePrio hlook
  have hown₂ : ∀ u, Owns s₂ u mutex → u = s.active := fun u hu =>
    owns_unique s₀ u s.active mutex ((hsame.owns u mutex).1 hu) hown₀
  obtain ⟨-, hfound⟩ := OwnOk.look ho₀ (ho₀.live _ _ hown₀) (by simp) (fun u m hm hu => by
    cases hm
    exact owns_unique s₀ u s.active mutex hu hown₀) hlook
  obtain ⟨hk₂, hp⟩ := mutexPriLook_ok hk₀ hlook
  have hrdy₂ : (s₂.tasks s.active).taskState = .rdy := by
    rw [(mutexPriLookLoop_frame hlook).task]
    exact hrdy
  have hnpend : ∀ m, Pending (s₂.tasks s.active) → (s₂.tasks s.active).blkObj = some m →
      (s₂.objs m).objType ≠ .mutex := by
    intro m hpend
    simp [Pending, hrdy₂] at hpend
  have hnot : ∀ t, ¬ WaitsBut s₂ mutex s.active t := by
    rintro t ⟨m, hm, hw⟩
    exact hk₂.not_waitsOn hnpend t ⟨m, hm.1, hw⟩
  -- the active task has the least of the claims that are left, and nobody has to follow
  have h₂ : Inherits s₂ (WaitsBut s₂ mutex) (some s.active) := by
    apply ((h₀.same hsame).weaken (some s.active)).unowned
    intro t ht
    rw [hown₂ t ht]
  have hleast : IsLeast (claims (basePrio s₂) (prioOf s₂) (WaitsBut s₂ mutex) s.active) newPri := by
    have hclaims := h₀.ordered.least_look (fun m hm => hm.1.1) hfound
    rw [hsame.base, hsame.prio, claims_congr rfl (fun w => hsame.waitsBut mutex w _) fun _ _ => rfl,
      waitsBut_eq]
    exact hclaims
  obtain ⟨htasks, hobjs⟩ := hchange.of_ready hrdy₂
  have hprio := prioOf_setPrio htasks
  have h₁ : Inherits s₁ (WaitsBut s₂ mutex) none := by
    apply h₂.round (hchange.frame hk₂ hp).1 hleast hprio (hnot _) (fun t hw => absurd hw (hnot t))
    apply h₂.ordered.setPrio hk₂ hprio hnpend
    intro m _
    rw [hobjs]
  apply h₁.waits_congr
  intro w t
  unfold WaitsBut Owns
  rw [hobjs]

/-- `krhino_mutex_unlock` keeps them right. -/
theorem krhinoMutexUnlock_inherits {st : KStat} (h : Inherits s (WaitsOn s) none) (hk : KernOk s none)
    (ho : Owned s) (hrun : 0 < s.intrptLevel ∨ (s.tasks s.active).taskState = .rdy)
    (hc : krhinoMutexUnlock fuel s mutex = some (st, s')) : Inherits s' (WaitsOn s') none := by
  obtain rfl | ⟨hlevel, hmutex, howner, ⟨-, rfl⟩ | ⟨-, s₁, hrel, hcases⟩⟩ := krhinoMutexUnlock_cases hc
  · exact h
  · exact (h.setNested _).record _
  have hrdy : (s.tasks s.active).taskState = .rdy := hrun.resolve_left (by omega)
  have hown : Owns s s.active mutex := ⟨hmutex, howner⟩
  have h₁ := undoLock_inherits h hk ho hown hrdy hrel
  obtain ⟨hk₁, hmutex₁, -, -⟩ := undoLock_release ho hk hown hrel
  obtain ⟨-, rfl⟩ | ⟨w, rest, s₂, hlist, hwake, rfl⟩ := hcases
  · exact h₁.setFree
  · exact (h₁.hand hk₁ hmutex₁ hlist hwake).setNested 1

/-- A mutex that is nobody's is no mutex any more. -/
theorem Inherits.clearType (h : Inherits s (WaitsBut s mutex) exc) :
    Inherits (clearType s mutex) (WaitsOn (clearType s mutex)) exc := by
  have hobjs : (Rhino.clearType s mutex).objs =
      Function.update s.objs mutex { s.objs mutex with objType := .none } := rfl
  have hother : ∀ m, ((Rhino.clearType s mutex).objs m).objType = .mutex →
      m ≠ mutex ∧ (Rhino.clearType s mutex).objs m = s.objs m := by
    intro m hm
    have hmm : m ≠ mutex := by
      rintro rfl
      rw [hobjs, Function.update_self] at hm
      cases hm
    exact ⟨hmm, by rw [hobjs, Function.update_of_ne hmm]⟩
  refine h.transfer ?_ ?_ ?_ ?_ ?_
  · rfl
  · rfl
  · exact fun _ ht => ht
  · intro w t
    constructor
    · rintro ⟨m, hm, hw⟩
      obtain ⟨hmm, heq⟩ := hother m hm.1
      rw [Owns, heq] at hm
      rw [heq] at hw
      exact ⟨m, ⟨hm, hmm⟩, hw⟩
    · rintro ⟨m, ⟨hm, hmm⟩, hw⟩
      refine ⟨m, ?_, ?_⟩
      · rw [Owns, hobjs, Function.update_of_ne hmm]
        exact hm
      · rw [hobjs, Function.update_of_ne hmm]
        exact hw
  · apply h.ordered.congr
    · intro m hm
      obtain ⟨-, heq⟩ := hother m hm
      rw [heq] at hm ⊢
      exact ⟨hm, rfl, List.Sublist.refl _⟩
    · exact fun _ _ _ _ => rfl

/-- The owner of a mutex that is deleted gets its priority anew. -/
theorem clearType_inherits (h : Inherits s (WaitsOn s) none) (hk : KernOk s none) (ho : Owned s)
    (hmutex : (s.objs mutex).objType = .mutex)
    (hrel : ((s.objs mutex).mutexTask = none ∧ s₁ = clearType s mutex) ∨
      ∃ owner, (s.objs mutex).mutexTask = some owner ∧
        mutexRelease fuel (clearType s mutex) owner (some mutex) = some s₁) :
    Inherits s₁ (WaitsOn s₁) none := by
  obtain ⟨hfree, rfl⟩ | ⟨owner, howner, hrel⟩ := hrel
  · apply Inherits.clearType
    apply h.unowned
    intro t ht
    rw [Owns, hfree] at ht
    cases ht.2
  have hown : Owns s owner mutex := ⟨hmutex, howner⟩
  obtain ⟨newPri, s₂, hlook, hchange⟩ := mutexRelease_cases hrel
  set s₀ := clearType s mutex with hs₀
  have hk₀ : KernOk s₀ (some mutex) := (hk.beginDel mutex).record _
  obtain ⟨ho₀, howns₀⟩ := clearType_own ho mutex
  have h₀ : Inherits s₀ (WaitsOn s₀) (some owner) := by
    apply Inherits.clearType
    apply (h.weaken (some owner)).unowned
    intro t ht
    rw [owns_unique s t owner mutex ht hown]
  have hsame : SamePrio s₀ s₂ := mutexPriLookLoop_samePrio hlook
  obtain ⟨ho₂, hfound⟩ := ho₀.look (ho.live owner mutex hown) (by simp) (fun u m hm hu => by
    cases hm
    exact owns_unique s u owner mutex hu hown) hlook
  have howns : ∀ t m, Owns s₀ t m ↔ Owns s t m ∧ some mutex ≠ some m := by
    intro t m
    rw [howns₀]
    simp [eq_comm]
  have hold₂ : Owned s₂ := by
    apply ho₂.congr _ (owns_unique s₂)
    intro t m _ _
    rw [hsame.owns, howns]
  obtain ⟨hk₂, hp⟩ := mutexPriLook_ok hk₀ hlook
  apply hchange.inherits_waitsOn hk₂ hold₂ hp (h₀.same hsame)
  intro _
  have hclaims := h₀.ordered.least_look (fun m hm => ((howns _ m).2 hm).1) hfound
  rw [hsame.base, hsame.prio, claims_congr rfl (fun w => hsame.waitsOn w _) fun _ _ => rfl]
  unfold WaitsOn
  simp only [howns]
  exact hclaims

/-- `mutex_del` keeps them right. -/
theorem mutexDel_inherits {flag : AllocFlag} {st : KStat} (h : Inherits s (WaitsOn s) none)
    (hk : KernOk s none) (ho : Owned s) (hc : mutexDel fuel s mutex flag = some (st, s')) :
    Inherits s' (WaitsOn s') none := by
  obtain rfl | ⟨hmutex, s₁, hrel, hall⟩ := mutexDel_cases hc
  · exact h
  obtain ⟨hk₁, -⟩ := clearType_release ho hk hmutex hrel
  apply pendTaskRmAll_inherits (clearType_inherits h hk ho hmutex hrel) hk₁ _ hall
  have hnone : ((clearType s mutex).objs mutex).objType ≠ .mutex := by simp [clearType]
  obtain ⟨-, rfl⟩ | ⟨owner, -, hrel⟩ := hrel
  · exact hnone
  · rw [(mutexRelease_ok ((hk.beginDel mutex).record _) hrel).2.obj]
    exact hnone

/-- `mutex_create` keeps them right. -/
theorem mutexCreate_inherits {flag : AllocFlag} (h : Inherits s (WaitsOn s) none)
    (hc : mutexCreate s mutex flag = some s') : Inherits s' (WaitsOn s') none := by
  obtain ⟨hnone, rfl⟩ := mutexCreate_cases hc
  set s' := s.setObj mutex { s.objs mutex with
      objType := .mutex, blkPolicy := .pri, blkList := [], mutexTask := none, mutexList := none
      mmAllocFlag := flag } with hs'
  have hnew : s'.objs mutex = { s.objs mutex with
      objType := .mutex, blkPolicy := .pri, blkList := [], mutexTask := none, mutexList := none
      mmAllocFlag := flag } := Function.update_self ..
  have hother : ∀ m, m ≠ mutex → s'.objs m = s.objs m := fun m hm => Function.update_of_ne hm _ _
  refine h.transfer ?_ ?_ ?_ ?_ ⟨?_, ?_⟩
  · rfl
  · rfl
  · exact fun _ ht => ht
  · intro w t
    constructor
    · rintro ⟨m, hm, hw⟩
      have hmm : m ≠ mutex := by
        rintro rfl
        rw [hnew] at hw
        cases hw
      rw [Owns, hother m hmm] at hm
      rw [hother m hmm] at hw
      exact ⟨m, hm, hw⟩
    · rintro ⟨m, hm, hw⟩
      have hmm : m ≠ mutex := by
        rintro rfl
        rw [Owns, hnone] at hm
        cases hm.1
      refine ⟨m, ?_, ?_⟩
      · rw [Owns, hother m hmm]
        exact hm
      · rw [hother m hmm]
        exact hw
  · intro m hm
    by_cases hmm : m = mutex
    · rw [hmm, hnew]
      exact List.Pairwise.nil
    · rw [hother m hmm] at hm ⊢
      exact h.ordered.sorted m hm
  · intro m hm
    by_cases hmm : m = mutex
    · rw [hmm, hnew]
    · rw [hother m hmm] at hm ⊢
      exact h.ordered.policy m hm

end MutexCalls

end GenieSdk.Analysis.Rhino
