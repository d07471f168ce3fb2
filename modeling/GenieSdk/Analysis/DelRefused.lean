import GenieSdk.Analysis.PriorityInheritance

/-!
# Refused task deletions

`krhino_task_del` frees the mutexes of the task before it looks at the state of the task. A task
that does not exist (any more) is refused only after that. Its `mutex_list` may point at mutexes
that have other owners by now: `refused_task_del_iff` says that a refused call leaves the kernel
alone exactly if every mutex that this list leads to is free, and nobody waits there.
-/

set_option autoImplicit false

namespace GenieSdk.Analysis.Rhino

open GenieSdk.Model.Rhino
open GenieSdk.Model (AllocFlag KStat)
open GenieSdk.Lib

/-- The mutexes, the other tasks, the ready queue and the tick list are as before. -/
structure Unchanged (s s' : Kern) (task : ℕ) : Prop where
  owner : ∀ m, (s.objs m).objType = .mutex → (s'.objs m).mutexTask = (s.objs m).mutexTask
  nested : ∀ m, (s.objs m).objType = .mutex → (s'.objs m).ownerNested = (s.objs m).ownerNested
  waiters : ∀ m, (s.objs m).objType = .mutex → (s'.objs m).blkList = (s.objs m).blkList
  state : ∀ t, t ≠ task → (s'.tasks t).taskState = (s.tasks t).taskState
  prio : ∀ t, t ≠ task → (s'.tasks t).prio = (s.tasks t).prio
  rq : s'.rq = s.rq
  tickList : s'.tickList = s.tickList

/-- The objects that the links of `mutex_list` lead to. -/
inductive OnWalk (s : Kern) : Option ℕ → ℕ → Prop
  | here (m : ℕ) : OnWalk s (some m) m
  | next (k m : ℕ) (h : OnWalk s (s.objs k).mutexList m) : OnWalk s (some k) m

/-- Nobody owns the mutex, and nobody waits. The storage of a deleted mutex still names its last
owner, and may hold another object. -/
def Idle (o : KObj) : Prop := (o.objType = .mutex → o.mutexTask = none) ∧ o.blkList = []

/-- The two states differ at most in the last owners of deleted mutexes. -/
structure Alike (s s' : Kern) : Prop where
  tasks : s'.tasks = s.tasks
  rq : s'.rq = s.rq
  tickList : s'.tickList = s.tickList
  type : ∀ m, (s'.objs m).objType = (s.objs m).objType
  blkList : ∀ m, (s'.objs m).blkList = (s.objs m).blkList
  link : ∀ m, (s'.objs m).mutexList = (s.objs m).mutexList
  nested : ∀ m, (s'.objs m).ownerNested = (s.objs m).ownerNested
  owner : ∀ m, (s.objs m).objType = .mutex → (s'.objs m).mutexTask = (s.objs m).mutexTask

section Walk

variable {s s' s₁ : Kern} {fuel task m : ℕ} {p : Option ℕ}

/-- A state is like itself. -/
theorem Alike.refl (s : Kern) : Alike s s :=
  ⟨rfl, rfl, rfl, fun _ => rfl, fun _ => rfl, fun _ => rfl, fun _ => rfl, fun _ _ => rfl⟩

/-- Two states that are alike in turn. -/
theorem Alike.trans (h : Alike s s₁) (h' : Alike s₁ s') : Alike s s' where
  tasks := h'.tasks.trans h.tasks
  rq := h'.rq.trans h.rq
  tickList := h'.tickList.trans h.tickList
  type m := (h'.type m).trans (h.type m)
  blkList m := (h'.blkList m).trans (h.blkList m)
  link m := (h'.link m).trans (h.link m)
  nested m := (h'.nested m).trans (h.nested m)
  owner m hm := (h'.owner m ((h.type m).trans hm)).trans (h.owner m hm)

/-- Alike states differ in nothing that a task sees. -/
theorem Alike.unchanged (h : Alike s s') (task : ℕ) : Unchanged s s' task where
  owner := h.owner
  nested m _ := h.nested m
  waiters m _ := h.blkList m
  state t _ := by rw [h.tasks]
  prio t _ := by rw [h.tasks]
  rq := h.rq
  tickList := h.tickList

/-- A mutex is idle in both or in none. -/
theorem Alike.idle (h : Alike s s') : Idle (s'.objs m) ↔ Idle (s.objs m) := by
  unfold Idle
  rw [h.type, h.blkList]
  constructor
  · rintro ⟨hown, hnil⟩
    exact ⟨fun hm => (h.owner m hm).symm.trans (hown hm), hnil⟩
  · rintro ⟨hown, hnil⟩
    exact ⟨fun hm => (h.owner m hm).trans (hown hm), hnil⟩

/-- The walk meets the same mutexes. -/
theorem Alike.onWalk (h : Alike s s') (hw : OnWalk s p m) : OnWalk s' p m := by
  induction hw with
  | here m => exact .here m
  | next k m _ ih =>
    refine .next k m ?_
    rw [h.link]
    exact ih

/-- Alike states, the other way round. -/
theorem Alike.symm (h : Alike s s') : Alike s' s where
  tasks := h.tasks.symm
  rq := h.rq.symm
  tickList := h.tickList.symm
  type m := (h.type m).symm
  blkList m := (h.blkList m).symm
  link m := (h.link m).symm
  nested m := (h.nested m).symm
  owner m hm := (h.owner m ((h.type m).symm.trans hm)).symm

/-- Clearing an owner writes no other field. -/
theorem setFree_field {β : Type} (f : KObj → β) (hf : ∀ o, f { o with mutexTask := none } = f o)
    (k : ℕ) : f ((s.setObj m { s.objs m with mutexTask := none }).objs k) = f (s.objs k) := by
  rw [setObj_objs, Function.update_apply]
  split
  case isTrue hk => rw [hk, hf]
  case isFalse => rfl

/-- An idle mutex has no owner to lose. -/
theorem alike_setFree (h : Idle (s.objs m)) :
    Alike s (s.setObj m { s.objs m with mutexTask := none }) where
  tasks := rfl
  rq := rfl
  tickList := rfl
  type := setFree_field KObj.objType fun _ => rfl
  blkList := setFree_field KObj.blkList fun _ => rfl
  link := setFree_field KObj.mutexList fun _ => rfl
  nested := setFree_field KObj.ownerNested fun _ => rfl
  owner k hmutex := by
    rw [setObj_objs, Function.update_apply]
    split
    case isTrue hk =>
      subst hk
      exact (h.1 hmutex).symm
    case isFalse => rfl

/-- **A walk over idle mutexes** changes nothing. -/
theorem taskMutexFree_idle (hidle : ∀ m, OnWalk s p m → Idle (s.objs m))
    (hc : taskMutexFree fuel s p = some s') : Alike s s' := by
  induction fuel generalizing s p with
  | zero => cases hc
  | succ fuel ih =>
    cases p with
    | none =>
      cases hc
      exact Alike.refl _
    | some mutex =>
      have hhead : Idle (s.objs mutex) := hidle mutex (.here mutex)
      have hstep := alike_setFree hhead
      unfold taskMutexFree at hc
      simp only at hc
      split at hc
      case h_1 =>
        refine hstep.trans (ih ?_ hc)
        intro m hm
        exact hstep.idle.2 (hidle m (.next mutex m (hstep.symm.onWalk hm)))
      case h_2 next rest hlist =>
        rw [hhead.2] at hlist
        cases hlist

/-- The mutex has no owner, and no walk gives it one. -/
def Lost (s : Kern) (m : ℕ) : Prop := (s.objs m).mutexTask = none ∧ (s.objs m).blkList = []

/-- The task waits for nothing, and no walk makes it wait. -/
def Awake (s : Kern) (t : ℕ) : Prop :=
  (s.tasks t).taskState = .rdy ∨ (s.tasks t).taskState = .suspended

/-- Only a task that waits is woken. -/
theorem pendTaskWakeup_cases {t : ℕ} (hc : pendTaskWakeup s t = some s') :
    Pending (s.tasks t) ∧ Awake s' t ∧ (∀ u, Awake s u → Awake s' u) ∧
      ∀ k, Lost s k → Lost s' k := by
  have hobjs : ∀ k, Lost s k → Lost (blkListRm s t) k := by
    rintro k ⟨hown, hnil⟩
    cases hobj : (s.tasks t).blkObj with
    | none =>
      rw [blkListRm, hobj]
      exact ⟨hown, hnil⟩
    | some obj =>
      unfold Lost
      rw [blkListRm_objs s t hobj]
      by_cases hk : k = obj
      · subst hk
        rw [Function.update_self]
        exact ⟨hown, by rw [hnil]; rfl⟩
      · rw [Function.update_of_ne hk]
        exact ⟨hown, hnil⟩
  unfold pendTaskWakeup pendTaskEnd at hc
  split at hc
  case h_1 hs =>
    cases hc
    refine ⟨.inl hs, ?_, ?_, fun k hk => by simpa [Lost] using hobjs k hk⟩
    · simp [Awake]
    · intro u hu
      by_cases hut : u = t
      · simp [Awake, hut]
      · simpa [Awake, hut] using hu
  case h_2 hs =>
    cases hc
    refine ⟨.inr hs, ?_, ?_, fun k hk => by simpa [Lost] using hobjs k hk⟩
    · simp [Awake]
    · intro u hu
      by_cases hut : u = t
      · simp [Awake, hut]
      · simpa [Awake, hut] using hu
  case h_3 => cases hc

/-- **A walk undoes nothing** that was lost before. -/
theorem taskMutexFree_lasts (hc : taskMutexFree fuel s p = some s') :
    (∀ u, Awake s u → Awake s' u) ∧ ∀ k, Lost s k → Lost s' k := by
  induction fuel generalizing s p with
  | zero => cases hc
  | succ fuel ih =>
    cases p with
    | none =>
      cases hc
      exact ⟨fun _ hu => hu, fun _ hk => hk⟩
    | some mutex =>
      unfold taskMutexFree at hc
      simp only at hc
      split at hc
      case h_1 hnil =>
        obtain ⟨hawake, hlost⟩ := ih hc
        refine ⟨hawake, fun k hk => hlost k ?_⟩
        unfold Lost
        rw [setObj_objs]
        by_cases hkm : k = mutex
        · subst hkm
          rw [Function.update_self]
          exact ⟨rfl, hk.2⟩
        · rw [Function.update_of_ne hkm]
          exact hk
      case h_2 next rest hlist =>
        split at hc
        case h_1 => cases hc
        case h_2 s₁ hwake =>
          obtain ⟨-, -, hawake₁, hlost₁⟩ := pendTaskWakeup_cases hwake
          obtain ⟨hawake, hlost⟩ := ih hc
          constructor
          · intro u hu
            apply hawake
            have hu₁ := hawake₁ u hu
            by_cases hun : u = next
            · subst hun
              simpa [Awake, mutexHandTo] using hu₁
            · simpa [Awake, mutexHandTo, hun] using hu₁
          · intro k hk
            apply hlost
            have hkm : k ≠ mutex := by
              rintro rfl
              rw [hk.2] at hlist
              cases hlist
            simpa [Lost, mutexHandTo, hkm] using hlost₁ k hk

/-- **A walk that comes to a mutex in use** takes it from its owner or wakes a task. -/
theorem taskMutexFree_used (hw : OnWalk s p m) (hused : ¬ Idle (s.objs m))
    (hc : taskMutexFree fuel s p = some s') :
    (∃ k, (s.objs k).objType = .mutex ∧ (s.objs k).mutexTask ≠ none ∧ Lost s' k) ∨
      ∃ t, Pending (s.tasks t) ∧ Awake s' t := by
  induction fuel generalizing s p with
  | zero => cases hc
  | succ fuel ih =>
    cases p with
    | none => cases hw
    | some mutex =>
      unfold taskMutexFree at hc
      simp only at hc
      split at hc
      case h_1 hnil =>
        by_cases hhead : Idle (s.objs mutex)
        · -- nothing has happened yet, the mutex in use is further on
          have hstep := alike_setFree hhead
          have hrest : OnWalk s (s.objs mutex).mutexList m := by
            cases hw with
            | here => exact absurd hhead hused
            | next k m h => exact h
          have hused' := mt hstep.idle.1 hused
          obtain ⟨k, hk, hown, hlost⟩ | ⟨t, ht, hawake⟩ := ih (hstep.onWalk hrest) hused' hc
          · rw [hstep.type] at hk
            rw [hstep.owner k hk] at hown
            exact .inl ⟨k, hk, hown, hlost⟩
          · rw [hstep.tasks] at ht
            exact .inr ⟨t, ht, hawake⟩
        · have hmutex : (s.objs mutex).objType = .mutex ∧ (s.objs mutex).mutexTask ≠ none := by
            by_contra hnot
            exact hhead ⟨fun hm => not_not.1 fun hown => hnot ⟨hm, hown⟩, hnil⟩
          refine .inl ⟨mutex, hmutex.1, hmutex.2, (taskMutexFree_lasts hc).2 mutex ?_⟩
          simp [Lost, hnil]
      case h_2 next rest hlist =>
        split at hc
        case h_1 => cases hc
        case h_2 s₁ hwake =>
          obtain ⟨hpend, hawake, -, -⟩ := pendTaskWakeup_cases hwake
          refine .inr ⟨next, hpend, (taskMutexFree_lasts hc).1 next ?_⟩
          simpa [Awake, mutexHandTo] using hawake

end Walk

section Refusals

variable {s s' : Kern} {fuel task : ℕ}

/-- A task that does not exist is refused after the walk. -/
theorem taskDelSwitch_none (hc : taskDelSwitch fuel s task = some none) :
    (s.tasks task).taskState = .seed ∨ (s.tasks task).taskState = .deleted := by
  unfold taskDelSwitch at hc
  simp only at hc
  split at hc
  case h_1 => simp at hc
  case h_2 => cases hc
  case h_3 hs => exact .inl hs
  case h_4 hs => exact .inr hs
  case h_5 => simp at hc
  case h_6 => simp at hc
  case h_7 => cases hc

/-- **What a refused deletion does**: a check fails at once, or it frees the mutexes first. -/
theorem krhinoTaskDel_refused {given : Option ℕ} {st : KStat} (hst : st ≠ .success)
    (hc : krhinoTaskDel fuel s given = some (st, s')) :
    (¬ DelAllowed s (given.getD s.active) .staticAlloc ∧ s' = s) ∨
    (DelAllowed s (given.getD s.active) .staticAlloc ∧
      taskMutexFree fuel s (s.tasks (given.getD s.active)).mutexList = some s' ∧
      ((s'.tasks (given.getD s.active)).taskState = .seed ∨
        (s'.tasks (given.getD s.active)).taskState = .deleted)) := by
  unfold krhinoTaskDel at hc
  simp only at hc
  split_ifs at hc with hintrpt hidle hflag hlock
  · cases hc
    exact .inl ⟨fun h => by have := h.1; omega, rfl⟩
  · cases hc
    exact .inl ⟨fun h => h.2.1 hidle, rfl⟩
  · cases hc
    exact .inl ⟨fun h => hflag h.2.2.1, rfl⟩
  · cases hc
    exact .inl ⟨fun h => h.2.2.2 hlock, rfl⟩
  · refine .inr ⟨⟨by omega, hidle, not_not.1 hflag, hlock⟩, ?_⟩
    split at hc
    case h_1 => cases hc
    case h_2 s₁ hfree =>
      split at hc
      case h_1 => cases hc
      case h_2 hnone =>
        cases hc
        exact ⟨hfree, taskDelSwitch_none hnone⟩
      case h_3 =>
        cases hc
        exact absurd rfl hst

/-- **A refused deletion changes nothing exactly if** one of the checks before `task_mutex_free`
fails, or the `mutex_list` of the task leads to mutexes only that nobody owns or waits for. -/
theorem refused_task_del_iff (fuel : ℕ) (s s' : Kern) (given : Option ℕ) (st : KStat)
    (hc : krhinoTaskDel fuel s given = some (st, s')) (hst : st ≠ .success) :
    Unchanged s s' (given.getD s.active) ↔
      (DelAllowed s (given.getD s.active) .staticAlloc →
        ∀ m, OnWalk s (s.tasks (given.getD s.active)).mutexList m → Idle (s.objs m)) := by
  obtain ⟨hnot, rfl⟩ | ⟨hallowed, hfree, hstate⟩ := krhinoTaskDel_refused hst hc
  · exact ⟨fun _ h => absurd h hnot, fun _ => (Alike.refl s').unchanged _⟩
  · constructor
    · rintro hsame - m hm
      by_contra hused
      obtain ⟨k, hk, hown, hlost⟩ | ⟨t, ht, hawake⟩ := taskMutexFree_used hm hused hfree
      · exact hown ((hsame.owner k hk).symm.trans hlost.1)
      · have hne : t ≠ given.getD s.active := by
          rintro rfl
          obtain hs | hs := hstate
          all_goals simp [Awake, hs] at hawake
        have hs := hsame.state t hne
        unfold Pending at ht
        unfold Awake at hawake
        rw [hs] at hawake
        obtain ht | ht := ht
        all_goals simp [ht] at hawake
    · intro hidle
      exact (taskMutexFree_idle (hidle hallowed) hfree).unchanged _

/-- Task 1 deletes itself and owns nothing; a second deletion is refused. -/
theorem refused_task_del_idle :
    ∃ s s', runSteps (kernStep 9) krhinoStart
        [.call (.taskCreate 1 20 0 true .staticAlloc), .coreSched,
          .call (.taskCreate 2 15 0 true .staticAlloc), .call (.taskDel none), .coreSched] = some s ∧
      krhinoTaskDel 9 s (some 1) = some (.taskInvState, s') ∧ Unchanged s s' 1 := by
  obtain ⟨s, s', hrun, hdel, hlist⟩ : ∃ s s', runSteps (kernStep 9) krhinoStart
        [.call (.taskCreate 1 20 0 true .staticAlloc), .coreSched,
          .call (.taskCreate 2 15 0 true .staticAlloc), .call (.taskDel none), .coreSched] = some s ∧
      krhinoTaskDel 9 s (some 1) = some (.taskInvState, s') ∧ (s.tasks 1).mutexList = none :=
    ⟨_, _, rfl, rfl, rfl⟩
  refine ⟨s, s', hrun, hdel, (refused_task_del_iff 9 s s' (some 1) _ hdel (by decide)).2 ?_⟩
  rintro - m hm
  rw [Option.getD_some, hlist] at hm
  cases hm

/-- Task 1 locked mutex 1 and deleted itself; task 2 owns the mutex by now, and task 3 waits for it.
The second deletion of task 1 is refused, and the mutex is task 3's. -/
theorem refused_task_del_moves :
    ∃ s s', runSteps (kernStep 9) krhinoStart
        (ownerRun ++ [.call (.taskDel none)] ++ successorRun) = some s ∧
      krhinoTaskDel 9 s (some 1) = some (.taskInvState, s') ∧
      (s.objs 1).mutexTask = some 2 ∧ (s'.objs 1).mutexTask = some 3 ∧
      (s.objs 1).blkList = [3] ∧ (s'.objs 1).blkList = [] ∧ ¬ Unchanged s s' 1 := by
  obtain ⟨s, s', hrun, hdel, hmutex, hown, hown', hlist, hlist'⟩ : ∃ s s',
      runSteps (kernStep 9) krhinoStart
        (ownerRun ++ [.call (.taskDel none)] ++ successorRun) = some s ∧
      krhinoTaskDel 9 s (some 1) = some (.taskInvState, s') ∧ (s.objs 1).objType = .mutex ∧
      (s.objs 1).mutexTask = some 2 ∧ (s'.objs 1).mutexTask = some 3 ∧
      (s.objs 1).blkList = [3] ∧ (s'.objs 1).blkList = [] :=
    ⟨_, _, rfl, rfl, rfl, rfl, rfl, rfl, rfl⟩
  refine ⟨s, s', hrun, hdel, hown, hown', hlist, hlist', fun h => ?_⟩
  have heq := h.owner 1 hmutex
  rw [hown, hown'] at heq
  cases heq

end Refusals

end GenieSdk.Analysis.Rhino
