import GenieSdk.Analysis.MutexHandover

/-!
# Ownership and nesting of mutexes over whole runs

Every step of the kernel keeps the lists of mutexes, as long as no task is deleted a second time
while its old `mutex_list` still points at mutexes. The nesting count of a mutex is the number of
locks that its owner has not undone, as long as no task is deleted that has locked a mutex more than
once for which another task waits: `task_mutex_free` hands on the count with the mutex.
-/

set_option autoImplicit false

namespace GenieSdk.Analysis.Rhino

open GenieSdk.Model.Rhino
open GenieSdk.Model (AllocFlag BlkState KStat)
open GenieSdk.Lib

section Calls

variable {s s' s₁ : Kern} {own : ℕ → ℕ → Prop} {dying del : Option ℕ} {task mutex w fuel : ℕ}

/-- Who is in the list of a mutex waits for it. -/
theorem KernOk.waiter (h : KernOk s del) (hw : w ∈ (s.objs mutex).blkList) :
    Pending (s.tasks w) ∧ (s.tasks w).blkObj = some mutex :=
  (h.membership.blk_iff w mutex).1 hw

/-- The first waiter leaves the list of the mutex and nothing else happens to mutexes. -/
theorem wakeFirst_spec {rest : List ℕ} (hk : KernOk s del)
    (hlist : (s.objs mutex).blkList = w :: rest) (hc : pendTaskWakeup s w = some s₁) :
    KernOk s₁ del ∧ SameOwn s s₁ ∧ Live (s.tasks w) ∧
      s₁.objs = Function.update s.objs mutex { s.objs mutex with blkList := rest } ∧
      w ∉ rest := by
  have hmem : w ∈ (s.objs mutex).blkList := by
    rw [hlist]
    exact List.mem_cons_self
  obtain ⟨hpend, hobj⟩ := hk.waiter hmem
  obtain ⟨obj, t', hobj', -, -, -, -, -, -, hobjs, -, -⟩ := pendTaskEnd_eq hk hc
  obtain rfl : mutex = obj := Option.some.inj (hobj.symm.trans hobj')
  have hnodup := hk.blk.nodup mutex
  rw [hlist, List.nodup_cons] at hnodup
  refine ⟨pendTaskEnd_ok hk hc, pendTaskEnd_sameOwn hk hc, pending_live hpend, ?_, hnodup.1⟩
  rw [hobjs, hlist, List.erase_cons_head]

/-- **The first waiter gets the mutex**, which is in no list. -/
theorem OwnOk.handNext {rest : List ℕ} (h : OwnOk s own dying) (hk : KernOk s del)
    (hlist : (s.objs mutex).blkList = w :: rest) (hc : pendTaskWakeup s w = some s₁)
    (hne : some w ≠ dying) (hnone : ∀ t, Live (s.tasks t) → some t ≠ dying → ¬ own t mutex) :
    OwnOk (mutexHandTo s₁ mutex w) (fun t m => if m = mutex then t = w else own t m) dying := by
  obtain ⟨-, hsame, hlive, hobjs, hrest⟩ := wakeFirst_spec hk hlist hc
  have h₁ := h.same hsame
  apply h₁.hand ((hsame.live w).2 hlive) hne
  · rw [hobjs, Function.update_self]
    exact hrest
  · intro t ht
    exact hnone t ((hsame.live t).1 ht)

/-- Who owns what after a mutex was linked to a task. -/
theorem owns_handTo (hmutex : (s.objs mutex).objType = .mutex) (t m : ℕ) :
    Owns (mutexHandTo s mutex task) t m ↔ if m = mutex then t = task else Owns s t m := by
  have hobjs : (mutexHandTo s mutex task).objs = Function.update s.objs mutex
      { s.objs mutex with mutexTask := some task, mutexList := (s.tasks task).mutexList } := rfl
  unfold Owns
  rw [hobjs, Function.update_apply]
  split
  case isTrue => simp [hmutex, eq_comm]
  case isFalse => rfl

/-- The count of a mutex does not say who owns it. -/
theorem owns_setNested (n t m : ℕ) :
    Owns (s.setObj mutex { s.objs mutex with ownerNested := n }) t m ↔ Owns s t m := by
  unfold Owns
  rw [setObj_objs, Function.update_apply]
  split
  case isTrue hm => rw [hm]
  case isFalse => rfl

/-- A mutex that is set free is owned no more, and the others as before. -/
theorem owns_setFree (t m : ℕ) :
    Owns (s.setObj mutex { s.objs mutex with mutexTask := none }) t m ↔ Owns s t m ∧ m ≠ mutex := by
  unfold Owns
  rw [setObj_objs, Function.update_apply]
  split
  case isTrue hm => simp [hm]
  case isFalse hm => simp [hm]

/-- The owners stay right when the depth of a mutex is set. -/
theorem Owned.setNested (h : Owned s) (mutex n : ℕ) :
    Owned (s.setObj mutex { s.objs mutex with ownerNested := n }) := by
  have h₁ : OwnOk (s.setObj mutex { s.objs mutex with ownerNested := n }) (Owns s) none :=
    OwnOk.setObj h rfl rfl rfl rfl
  exact h₁.congr (fun t m _ _ => owns_setNested n t m) (owns_unique _)

/-- And when an event is recorded. -/
theorem Owned.record (h : Owned s) (e : LockEvent) : Owned (s.record e) := OwnOk.record h e

/-- A free mutex gets an owner. -/
theorem Owned.handFree (h : Owned s) (hmutex : (s.objs mutex).objType = .mutex)
    (hfree : (s.objs mutex).mutexTask = none) (hlive : Live (s.tasks task)) :
    Owned (mutexHandTo s mutex task) := by
  have hno : ∀ t, ¬ Owns s t mutex := by
    intro t ht
    rw [Owns, hfree] at ht
    cases ht.2
  have h₁ : OwnOk (mutexHandTo s mutex task)
      (fun t m => if m = mutex then t = task else Owns s t m) none := by
    apply OwnOk.hand h hlive (by simp)
    · rw [h.free mutex hmutex hfree]
      simp
    · intro t _ _
      exact hno t
  exact h₁.congr (fun t m _ _ => owns_handTo hmutex t m) (owns_unique _)

/-- The active task blocks on the mutex of another task. -/
theorem lockBlocked_sameOwn {owner ticks : ℕ} (hk : KernOk s none)
    (hrdy : (s.tasks s.active).taskState = .rdy) (howner : (s.objs mutex).mutexTask = some owner)
    (hother : s.active ≠ owner) (hticks : 0 < ticks)
    (hraise : ((s.tasks s.active).prio < (s.tasks owner).prio ∧
        PriChange s owner (s.tasks s.active).prio s₁) ∨
      ((s.tasks owner).prio ≤ (s.tasks s.active).prio ∧ s₁ = s))
    (hpend : pendToBlkObj s₁ mutex s₁.active ticks = some s') : SameOwn s s' := by
  have hkeep : Frame s s₁ ∧ SameOwn s s₁ := by
    obtain ⟨-, hchange⟩ | ⟨-, rfl⟩ := hraise
    · have hp := (hk.tasks s.active).prio_lt
      exact ⟨(hchange.frame hk hp).1, hchange.sameOwn hk hp⟩
    · exact ⟨Frame.refl _, SameOwn.refl _⟩
  obtain ⟨hframe, hsame⟩ := hkeep
  apply hsame.trans
  apply pendToBlkObj_sameOwn _ hticks _ hpend
  · rw [hframe.active, hframe.task]
    exact hrdy
  · intro _
    rw [hframe.obj, hframe.active]
    refine ⟨by simp [howner], ?_⟩
    simp only [howner, ne_eq, Option.some.injEq]
    exact Ne.symm hother

/-- `krhino_mutex_lock` keeps the owners right. -/
theorem krhinoMutexLock_owned {ticks : ℕ} {st : Option KStat} (h : Owned s) (hk : KernOk s none)
    (hrun : 0 < s.intrptLevel ∨ (s.tasks s.active).taskState = .rdy)
    (hc : krhinoMutexLock fuel s mutex ticks = some (st, s')) : Owned s' := by
  obtain rfl | ⟨hlevel, hmutex, hcases⟩ := krhinoMutexLock_cases hc
  · exact h
  have hrdy : (s.tasks s.active).taskState = .rdy := hrun.resolve_left (by omega)
  obtain ⟨hfree, rfl⟩ | ⟨-, -, rfl⟩ | ⟨owner, s₁, howner, hother, hticks, hraise, hpend⟩ := hcases
  · have hlive : Live (s.tasks s.active) := by simp [Live, hrdy]
    exact (h.handFree hmutex hfree hlive).setNested mutex 1
  · exact (h.setNested mutex _).record _
  · exact h.same (lockBlocked_sameOwn hk hrdy howner hother hticks hraise hpend)

/-- An unlock that undoes the last lock passes through the release of the mutex. -/
theorem undoLock_release (h : Owned s) (hk : KernOk s none) (hown : Owns s s.active mutex)
    (hc : mutexRelease fuel (undoLock s mutex) s.active (some mutex) = some s₁) :
    KernOk s₁ none ∧ (s₁.objs mutex).objType = .mutex ∧
      (∀ t m, Owns s₁ t m ↔ Owns s t m) ∧
      OwnOk s₁ (fun t m => Owns s t m ∧ m ≠ mutex) none := by
  have hk₀ : KernOk (undoLock s mutex) none := undoLock_ok hk
  obtain ⟨hk₁, hframe⟩ := mutexRelease_ok hk₀ hc
  have h₀ : OwnOk (undoLock s mutex) (Owns s) none := by
    unfold undoLock
    apply OwnOk.record
    exact OwnOk.setObj h rfl rfl rfl rfl
  have hlive : Live ((undoLock s mutex).tasks s.active) := h.live s.active mutex hown
  refine ⟨hk₁, ?_, ?_, ?_⟩
  · rw [hframe.obj]
    simp [undoLock, hown.1]
  · intro t m
    rw [hframe.owns]
    exact owns_setNested _ t m
  · apply h₀.release hk₀ hlive (by simp) _ hc
    intro u hu
    exact owns_unique s u s.active mutex hu hown

/-- `krhino_mutex_unlock` keeps the owners right. -/
theorem krhinoMutexUnlock_owned {st : KStat} (h : Owned s) (hk : KernOk s none)
    (hc : krhinoMutexUnlock fuel s mutex = some (st, s')) : Owned s' := by
  obtain rfl | ⟨-, hmutex, howner, ⟨-, rfl⟩ | ⟨-, s₁, hrel, hcases⟩⟩ := krhinoMutexUnlock_cases hc
  · exact h
  · exact (h.setNested mutex _).record _
  obtain ⟨hk₁, hmutex₁, howns, h₁⟩ := undoLock_release h hk ⟨hmutex, howner⟩ hrel
  obtain ⟨hnil, rfl⟩ | ⟨w, rest, s₂, hlist, hwake, rfl⟩ := hcases
  · apply (h₁.setFree hnil).congr _ (owns_unique _)
    intro t m _ _
    rw [owns_setFree, howns]
  · obtain ⟨-, hsame, -⟩ := wakeFirst_spec hk₁ hlist hwake
    have hmutex₂ : (s₂.objs mutex).objType = .mutex := (hsame.type mutex).2 hmutex₁
    have h₂ := h₁.handNext hk₁ hlist hwake (by simp) (fun t _ _ hm => hm.2 rfl)
    have h₃ : Owned (mutexHandTo s₂ mutex w) := by
      apply h₂.congr _ (owns_unique _)
      intro t m _ _
      rw [owns_handTo hmutex₂]
      by_cases hm : m = mutex
      · simp [hm]
      · simp only [hm, if_false, ne_eq, not_false_iff, and_true]
        rw [hsame.owns, howns]
    exact h₃.setNested mutex 1

/-- A mutex that is deleted is nobody's, though it is still in the list of its owner. -/
theorem clearType_own (h : Owned s) (mutex : ℕ) :
    OwnOk (clearType s mutex) (Owns s) none ∧
      ∀ t m, Owns (clearType s mutex) t m ↔ Owns s t m ∧ m ≠ mutex := by
  have hobjs : (clearType s mutex).objs =
      Function.update s.objs mutex { s.objs mutex with objType := .none } := rfl
  have howns : ∀ t m, Owns (clearType s mutex) t m ↔ Owns s t m ∧ m ≠ mutex := by
    intro t m
    unfold Owns
    rw [hobjs, Function.update_apply]
    split
    case isTrue hm => simp [hm]
    case isFalse hm => simp [hm]
  have hlinks : links (clearType s mutex) = links s := by
    funext m
    simp only [links, hobjs, Function.update_apply]
    split
    case isTrue hm => rw [hm]
    case isFalse => rfl
  refine ⟨?_, howns⟩
  constructor
  case chain =>
    rw [hlinks]
    exact h.chain
  case unique => exact h.unique
  case seed => exact h.seed
  case live =>
    intro t m hm
    exact h.live t m ((howns t m).1 hm).1
  case free =>
    intro m hm hfree
    rw [hobjs, Function.update_apply] at hm hfree ⊢
    split at hm
    case isTrue => cases hm
    case isFalse hmm =>
      rw [if_neg hmm] at hfree ⊢
      exact h.free m hm hfree
  case self =>
    intro t m hm
    obtain ⟨hm, hmm⟩ := (howns t m).1 hm
    rw [hobjs, Function.update_of_ne hmm]
    exact h.self t m hm

/-- The deletion of a mutex up to the moment when its waiters are woken. -/
theorem clearType_release (h : Owned s) (hk : KernOk s none)
    (hmutex : (s.objs mutex).objType = .mutex)
    (hrel : ((s.objs mutex).mutexTask = none ∧ s₁ = clearType s mutex) ∨
      ∃ owner, (s.objs mutex).mutexTask = some owner ∧
        mutexRelease fuel (clearType s mutex) owner (some mutex) = some s₁) :
    KernOk s₁ (some mutex) ∧ Owned s₁ := by
  have hk₀ : KernOk (clearType s mutex) (some mutex) := (hk.beginDel mutex).record _
  obtain ⟨h₀, howns⟩ := clearType_own h mutex
  obtain ⟨hfree, rfl⟩ | ⟨owner, howner, hrel⟩ := hrel
  · refine ⟨hk₀, h₀.congr ?_ (owns_unique _)⟩
    intro t m _ _
    rw [howns]
    constructor
    · exact And.left
    · intro hm
      refine ⟨hm, ?_⟩
      rintro rfl
      rw [Owns, hfree] at hm
      cases hm.2
  · obtain ⟨hk₁, hframe⟩ := mutexRelease_ok hk₀ hrel
    have hown : Owns s owner mutex := ⟨hmutex, howner⟩
    have h₁ := h₀.release hk₀ (h.live owner mutex hown) (by simp)
      (fun u hu => owns_unique s u owner mutex hu hown) hrel
    refine ⟨hk₁, h₁.congr ?_ (owns_unique _)⟩
    intro t m _ _
    rw [hframe.owns, howns]

/-- `mutex_del` keeps the owners right. -/
theorem mutexDel_owned {flag : AllocFlag} {st : KStat} (h : Owned s) (hk : KernOk s none)
    (hc : mutexDel fuel s mutex flag = some (st, s')) : Owned s' := by
  obtain rfl | ⟨hmutex, s₁, hrel, hall⟩ := mutexDel_cases hc
  · exact h
  · obtain ⟨hk₁, h₁⟩ := clearType_release h hk hmutex hrel
    exact h₁.same (pendTaskRmAll_sameOwn hk₁ hall)

/-- `mutex_create` keeps the owners right. -/
theorem mutexCreate_owned {flag : AllocFlag} (h : Owned s)
    (hc : mutexCreate s mutex flag = some s') : Owned s' := by
  obtain ⟨hnone, rfl⟩ := mutexCreate_cases hc
  have hno : ∀ t, ¬ Owns s t mutex := by
    intro t ht
    rw [Owns, hnone] at ht
    cases ht.1
  set s' := s.setObj mutex { s.objs mutex with
      objType := .mutex, blkPolicy := .pri, blkList := [], mutexTask := none, mutexList := none
      mmAllocFlag := flag } with hs'
  have howns : ∀ t m, Owns s' t m ↔ Owns s t m := by
    intro t m
    by_cases hm : m = mutex
    · subst hm
      simp [hno t]
      simp [Owns, hs']
    · unfold Owns
      rw [hs', setObj_objs, Function.update_of_ne hm]
  constructor
  case chain =>
    intro t ht hne
    obtain ⟨l, hl, hnodup, hmem⟩ := h.chain t ht hne
    refine ⟨l, ?_, hnodup, ?_⟩
    · apply hl.congr
      intro m hm
      have hmm : m ≠ mutex := by
        rintro rfl
        exact hno t ((hmem m).1 hm)
      simp only [links, hs', setObj_objs, Function.update_of_ne hmm]
    · intro m
      rw [hmem, howns]
  case unique => exact owns_unique _
  case seed => exact h.seed
  case live =>
    intro t m hm
    exact h.live t m ((howns t m).1 hm)
  case free =>
    intro m hm hfree
    rw [hs', setObj_objs, Function.update_apply] at hm hfree ⊢
    split at hm
    case isTrue hmm =>
      rw [if_pos hmm]
    case isFalse hmm =>
      rw [if_neg hmm] at hfree ⊢
      exact h.free m hm hfree
  case self =>
    intro t m hm
    rw [howns] at hm
    have hmm : m ≠ mutex := by
      rintro rfl
      exact hno t hm
    rw [hs', setObj_objs, Function.update_of_ne hmm]
    exact h.self t m hm

/-- `task_create` keeps the owners right. -/
theorem taskCreate_owned {prio ticks : ℕ} {autorun : Bool} {flag : AllocFlag} {st : KStat}
    (h : Owned s) (hc : taskCreate s task prio ticks autorun flag = some (st, s')) : Owned s' := by
  obtain rfl | ⟨hfree, -, htasks, hobjs, -, -, -⟩ := taskCreate_cases hc
  · exact h
  have hdead : ¬ Live (s.tasks task) := by
    rintro ⟨hseed, hdel⟩
    obtain hf | hf := hfree
    · exact hseed hf
    · exact hdel hf
  have howns : ∀ t m, Owns s' t m ↔ Owns s t m := by
    intro t m
    unfold Owns
    rw [hobjs]
  have hlinks : links s' = links s := by
    funext m
    simp only [links, hobjs]
  have hother : ∀ t, t ≠ task → s'.tasks t = s.tasks t := by
    intro t ht
    rw [htasks, Function.update_of_ne ht]
  have hnew : (s'.tasks task).mutexList = none := by
    rw [htasks, Function.update_self]
    rfl
  constructor
  case chain =>
    intro t ht hne
    rw [hlinks]
    by_cases htt : t = task
    · subst htt
      refine ⟨[], hnew, List.nodup_nil, ?_⟩
      intro m
      simp only [List.not_mem_nil, false_iff, howns]
      intro hm
      exact hdead (h.live t m hm)
    · rw [hother t htt] at ht ⊢
      obtain ⟨l, hl, hnodup, hmem⟩ := h.chain t ht hne
      exact ⟨l, hl, hnodup, fun m => by rw [hmem, howns]⟩
  case unique => exact owns_unique _
  case seed =>
    intro t ht
    by_cases htt : t = task
    · rw [htt]
      exact hnew
    · rw [hother t htt] at ht ⊢
      exact h.seed t ht
  case live =>
    intro t m hm
    have hm' := h.live t m ((howns t m).1 hm)
    have htt : t ≠ task := by
      rintro rfl
      exact hdead hm'
    rw [hother t htt]
    exact hm'
  case free =>
    rw [hobjs]
    exact h.free
  case self =>
    intro t m hm
    rw [hobjs]
    exact h.self t m ((howns t m).1 hm)

end Calls

section Deletion

variable {s s' s₁ : Kern} {del : Option ℕ} {task fuel : ℕ} {l : List ℕ}

/-- **The rule for `task_mutex_free`.** `I s l` is to hold when the mutexes `l` are still to be
freed: each of them loses its owner or goes to its first waiter. -/
theorem taskMutexFree_rule {I : Kern → List ℕ → Prop} {ptr : Option ℕ} (hk : KernOk s del)
    (hl : SList (links s) ptr l) (hnodup : l.Nodup) (hI : I s l)
    (hfree : ∀ s m l, KernOk s del → m ∉ l → I s (m :: l) → (s.objs m).blkList = [] →
      I (s.setObj m { s.objs m with mutexTask := none }) l)
    (hhand : ∀ s s₁ m l w rest, KernOk s del → m ∉ l → I s (m :: l) →
      (s.objs m).blkList = w :: rest → pendTaskWakeup s w = some s₁ → I (mutexHandTo s₁ m w) l)
    (hc : taskMutexFree fuel s ptr = some s') : KernOk s' del ∧ I s' [] := by
  induction l generalizing s ptr fuel with
  | nil =>
    cases fuel with
    | zero => cases hc
    | succ fuel =>
      rw [show ptr = none from hl] at hc
      cases hc
      exact ⟨hk, hI⟩
  | cons m l ih =>
    cases fuel with
    | zero => cases hc
    | succ fuel =>
      obtain ⟨rfl, hrest⟩ := hl
      obtain ⟨hml, hnodup⟩ := List.nodup_cons.1 hnodup
      unfold taskMutexFree at hc
      simp only at hc
      split at hc
      case h_1 hnil =>
        refine ih (hk.setOwner m none) ?_ hnodup (hfree s m l hk hml hI hnil) hc
        apply hrest.congr
        intro x hx
        have hxm : x ≠ m := by
          rintro rfl
          exact hml hx
        simp only [links, setObj_objs, Function.update_of_ne hxm]
      case h_2 w rest hlist =>
        split at hc
        case h_1 => cases hc
        case h_2 s₁ hwake =>
          have hk₁ := pendTaskEnd_ok hk hwake
          refine ih (mutexHandTo_ok hk₁) ?_ hnodup (hhand s s₁ m l w rest hk hml hI hlist hwake) hc
          apply hrest.congr
          intro x hx
          have hxm : x ≠ m := by
            rintro rfl
            exact hml hx
          have hobjs : (mutexHandTo s₁ m w).objs = Function.update s₁.objs m
              { s₁.objs m with mutexTask := some w, mutexList := (s₁.tasks w).mutexList } := rfl
          simp only [links, hobjs, Function.update_of_ne hxm]
          exact (pendTaskEnd_sameOwn hk hwake).objLink x

/-- While the mutexes of a task are being freed, it owns those that are left, and all other tasks
own what their lists hold. -/
structure Freeing (task : ℕ) (s : Kern) (l : List ℕ) : Prop where
  own : OwnOk s (Owns s) (some task)
  live : Live (s.tasks task)
  mem : ∀ m, m ∈ l ↔ Owns s task m

/-- A mutex of the task for which none waits is set free. -/
theorem Freeing.free {m : ℕ} (h : Freeing task s (m :: l)) (hml : m ∉ l)
    (hnil : (s.objs m).blkList = []) :
    Freeing task (s.setObj m { s.objs m with mutexTask := none }) l := by
  have hown : Owns s task m := (h.mem m).1 List.mem_cons_self
  refine ⟨(h.own.setFree hnil).congr ?_ (owns_unique _), h.live, ?_⟩
  · intro t x _ hne
    rw [owns_setFree]
    constructor
    · exact And.left
    · intro hx
      refine ⟨hx, ?_⟩
      rintro rfl
      exact hne (congrArg some (owns_unique s t task x hx hown))
  · intro x
    rw [owns_setFree, ← h.mem, List.mem_cons]
    constructor
    · intro hx
      refine ⟨.inr hx, ?_⟩
      rintro rfl
      exact hml hx
    · rintro ⟨rfl | hx, hxm⟩
      · exact absurd rfl hxm
      · exact hx

/-- The task that is deleted does not wait for its own mutex. -/
theorem Freeing.next_ne {m w : ℕ} {rest : List ℕ} (h : Freeing task s (m :: l))
    (hlist : (s.objs m).blkList = w :: rest) : w ≠ task := by
  rintro rfl
  have := h.own.self w m ((h.mem m).1 List.mem_cons_self)
  rw [hlist] at this
  exact this List.mem_cons_self

/-- A mutex of the task is handed to the first task that waits for it. -/
theorem Freeing.hand {m w : ℕ} {rest : List ℕ} (h : Freeing task s (m :: l)) (hk : KernOk s del)
    (hml : m ∉ l) (hlist : (s.objs m).blkList = w :: rest) (hwake : pendTaskWakeup s w = some s₁) :
    Freeing task (mutexHandTo s₁ m w) l := by
  have hown : Owns s task m := (h.mem m).1 List.mem_cons_self
  have hw : w ≠ task := h.next_ne hlist
  obtain ⟨-, hsame, -⟩ := wakeFirst_spec hk hlist hwake
  have hmutex : (s₁.objs m).objType = .mutex := (hsame.type m).2 hown.1
  have h₁ := h.own.handNext hk hlist hwake (by simpa using hw) (fun t _ hne ht =>
    hne (congrArg some (owns_unique s t task m ht hown)))
  refine ⟨h₁.congr ?_ (owns_unique _), ?_, ?_⟩
  · intro t x _ _
    rw [owns_handTo hmutex]
    simp only [hsame.owns]
  · have htask : (mutexHandTo s₁ m w).tasks task = s₁.tasks task :=
      Function.update_of_ne (Ne.symm hw) _ _
    rw [htask, hsame.live]
    exact h.live
  · intro x
    rw [owns_handTo hmutex]
    by_cases hxm : x = m
    · simp [hxm, hml, Ne.symm hw]
    · simp only [hxm, if_false]
      rw [hsame.owns, ← h.mem, List.mem_cons]
      simp [hxm]

/-- **All mutexes of a task are freed.** -/
theorem taskMutexFree_own (h : Owned s) (hk : KernOk s del) (hlive : Live (s.tasks task))
    (hc : taskMutexFree fuel s (s.tasks task).mutexList = some s₁) : Freeing task s₁ [] := by
  obtain ⟨l, hl, hnodup, hmem⟩ := h.chain task hlive (by simp)
  have h₀ : Freeing task s l :=
    ⟨⟨fun t ht _ => h.chain t ht (by simp), h.unique, h.seed, h.live, h.free, h.self⟩, hlive, hmem⟩
  exact (taskMutexFree_rule hk hl hnodup h₀
    (fun s m l _ hml hI hnil => hI.free hml hnil)
    (fun s s₁ m l w rest hk hml hI hlist hwake => hI.hand hk hml hlist hwake) hc).2

/-- A task without mutexes ends. -/
theorem Freeing.kill {t' : KTask} (h : Freeing task s [])
    (htasks : s'.tasks = Function.update s.tasks task t') (hstate : t'.taskState = .deleted)
    (hobjs : ∀ m, ∃ l, s'.objs m = { s.objs m with blkList := l } ∧ ∀ t ∈ l, t ∈ (s.objs m).blkList) :
    Owned s' := by
  have hobj : ∀ m, s'.objs m = { s.objs m with blkList := (s'.objs m).blkList } := by
    intro m
    obtain ⟨l, hl, -⟩ := hobjs m
    rw [hl]
  have hsub : ∀ m, ∀ t ∈ (s'.objs m).blkList, t ∈ (s.objs m).blkList := by
    intro m
    obtain ⟨l, hl, hsub⟩ := hobjs m
    rw [hl]
    exact hsub
  have howns : ∀ t m, Owns s' t m ↔ Owns s t m := by
    intro t m
    unfold Owns
    rw [hobj]
  have hlinks : links s' = links s := by
    funext m
    simp only [links]
    rw [hobj]
  have hne : ∀ t m, Owns s t m → t ≠ task := by
    rintro t m hm rfl
    exact List.not_mem_nil ((h.mem m).2 hm)
  have hother : ∀ t, t ≠ task → s'.tasks t = s.tasks t := by
    intro t ht
    rw [htasks, Function.update_of_ne ht]
  have hdead : (s'.tasks task).taskState = .deleted := by
    rw [htasks, Function.update_self]
    exact hstate
  constructor
  case chain =>
    intro t ht _
    have htt : t ≠ task := by
      rintro rfl
      exact ht.2 hdead
    rw [hother t htt] at ht ⊢
    obtain ⟨l, hl, hnodup, hmem⟩ := h.own.chain t ht (by simpa using htt)
    rw [hlinks]
    exact ⟨l, hl, hnodup, fun m => by rw [hmem, howns]⟩
  case unique => exact owns_unique _
  case seed =>
    intro t ht
    have htt : t ≠ task := by
      rintro rfl
      rw [hdead] at ht
      cases ht
    rw [hother t htt] at ht ⊢
    exact h.own.seed t ht
  case live =>
    intro t m hm
    have hm' := (howns t m).1 hm
    rw [hother t (hne t m hm')]
    exact h.own.live t m hm'
  case free =>
    intro m hm hfree
    rw [hobj] at hm hfree
    apply List.eq_nil_iff_forall_not_mem.2
    intro t ht
    have := hsub m t ht
    rw [h.own.free m hm hfree] at this
    cases this
  case self =>
    intro t m hm ht
    exact h.own.self t m ((howns t m).1 hm) (hsub m t ht)

/-- The lists of objects stay. -/
theorem sublists_same (hobjs : s'.objs = s.objs) (m : ℕ) :
    ∃ l, s'.objs m = { s.objs m with blkList := l } ∧ ∀ t ∈ l, t ∈ (s.objs m).blkList :=
  ⟨_, by rw [hobjs], fun _ ht => ht⟩

/-- Taking a task off one list leaves each list a part of what it was. -/
theorem sublists_erase {obj : ℕ} (hobjs : s'.objs = Function.update s.objs obj
      { s.objs obj with blkList := (s.objs obj).blkList.erase task }) (m : ℕ) :
    ∃ l, s'.objs m = { s.objs m with blkList := l } ∧ ∀ t ∈ l, t ∈ (s.objs m).blkList := by
  rw [hobjs, Function.update_apply]
  split
  case isTrue hm =>
    refine ⟨_, by rw [hm], ?_⟩
    intro t ht
    rw [← hm] at ht
    exact List.mem_of_mem_erase ht
  case isFalse => exact ⟨_, rfl, fun _ ht => ht⟩

/-- What the `switch` of `krhino_task_del` does, as a task without mutexes sees it. -/
theorem taskDelSwitch_cases (hc : taskDelSwitch fuel s task = some (some s')) :
    ∃ s₁, s' = s₁.record (.taskDel task) ∧
      ((∃ t', t'.taskState = .deleted ∧ s₁.tasks = Function.update s.tasks task t' ∧
        s₁.objs = s.objs ∧ s₁.log = s.log) ∨
      (Pending (s.tasks task) ∧
        pendCancel fuel s task .deleted (s.tasks task).blkState = some s₁)) := by
  unfold taskDelSwitch at hc
  simp only at hc
  split at hc
  case h_1 hs =>
    obtain ⟨s₁, hrm, heq⟩ := Option.map_eq_some_iff.1 hc
    cases heq
    obtain ⟨rq, -, rfl⟩ := readyRm_cases hrm
    exact ⟨_, rfl, .inl ⟨_, rfl, rfl, rfl, rfl⟩⟩
  case h_2 =>
    cases hc
    exact ⟨_, rfl, .inl ⟨_, rfl, rfl, rfl, rfl⟩⟩
  case h_3 => cases hc
  case h_4 => cases hc
  case h_5 hs =>
    obtain ⟨s₁, hcancel, heq⟩ := Option.map_eq_some_iff.1 hc
    cases heq
    exact ⟨s₁, rfl, .inr ⟨.inl hs, hcancel⟩⟩
  case h_6 hs =>
    obtain ⟨s₁, hcancel, heq⟩ := Option.map_eq_some_iff.1 hc
    cases heq
    exact ⟨s₁, rfl, .inr ⟨.inr hs, hcancel⟩⟩
  case h_7 =>
    cases hc
    refine ⟨_, rfl, .inl ⟨{ s.tasks task with tickHead := false, taskState := .deleted }, rfl, ?_, ?_,
      ?_⟩⟩
    · simp
    · simp
    · simp

/-- A task without mutexes can be taken off its lists. -/
theorem taskDelSwitch_owned (h : Freeing task s []) (hk : KernOk s del)
    (hc : taskDelSwitch fuel s task = some (some s')) : Owned s' := by
  obtain ⟨s₁, rfl, ⟨t', hstate, htasks, hobjs, -⟩ | ⟨hpend, hcancel⟩⟩ := taskDelSwitch_cases hc
  · exact (h.kill htasks hstate (sublists_same hobjs)).record _
  · obtain ⟨obj, hobj⟩ := (hk.tasks task).blkObj hpend
    rw [pendCancel_eq] at hcancel
    have h₁ : Owned (cancelled s task .deleted (s.tasks task).blkState) :=
      h.kill (cancelled_tasks s task _ _) rfl (sublists_erase (cancelled_objs hobj _ _))
    exact (h₁.same (mutexTaskPriReset_sameOwn (cancelled_ok hk hpend (.inr (.inl rfl))) hcancel)).record _

/-- Storage without a task is not deleted. -/
theorem taskDelSwitch_dead (hdead : ¬ Live (s.tasks task)) :
    taskDelSwitch fuel s task = some none := by
  unfold Live at hdead
  rw [not_and_or, not_not, not_not] at hdead
  unfold taskDelSwitch
  obtain hs | hs := hdead
  · simp only [hs]
  · simp only [hs]

/-- The `mutex_list` of storage without a task is not followed. -/
theorem Deletes.dead (hc : Deletes fuel s task s') (hdead : ¬ Live (s.tasks task))
    (hlist : (s.tasks task).mutexList = none) : s' = s := by
  obtain ⟨s₁, hfree, hcases⟩ := hc
  rw [hlist] at hfree
  have hs₁ : s₁ = s := by
    cases fuel with
    | zero => cases hfree
    | succ fuel =>
      cases hfree
      rfl
  subst hs₁
  rw [taskDelSwitch_dead hdead] at hcases
  obtain ⟨-, rfl⟩ | hswitch := hcases
  · rfl
  · cases hswitch

/-- Of a task that exists the `switch` does not fall through. -/
theorem Deletes.switch (hc : Deletes fuel s task s') (h : Owned s) (hk : KernOk s del)
    (hlive : Live (s.tasks task)) :
    ∃ s₁, taskMutexFree fuel s (s.tasks task).mutexList = some s₁ ∧
      taskDelSwitch fuel s₁ task = some (some s') := by
  obtain ⟨s₁, hfree, ⟨hnone, -⟩ | hswitch⟩ := hc
  · exfalso
    have hne := (taskMutexFree_own h hk hlive hfree).live
    unfold taskDelSwitch at hnone
    simp only at hnone
    split at hnone
    case h_1 =>
      obtain ⟨s₂, -, heq⟩ := Option.map_eq_some_iff.1 hnone
      cases heq
    case h_2 => cases hnone
    case h_3 hs => exact hne.1 hs
    case h_4 hs => exact hne.2 hs
    case h_5 =>
      obtain ⟨s₂, -, heq⟩ := Option.map_eq_some_iff.1 hnone
      cases heq
    case h_6 =>
      obtain ⟨s₂, -, heq⟩ := Option.map_eq_some_iff.1 hnone
      cases heq
    case h_7 => cases hnone
  · exact ⟨s₁, hfree, hswitch⟩

/-- A task that exists is deleted. -/
theorem Deletes.owned (hc : Deletes fuel s task s') (h : Owned s) (hk : KernOk s del)
    (hlive : Live (s.tasks task)) : Owned s' := by
  obtain ⟨s₁, hfree, hswitch⟩ := hc.switch h hk hlive
  exact taskDelSwitch_owned (taskMutexFree_own h hk hlive hfree) (taskMutexFree_ok hk hfree) hswitch

end Deletion

section Steps

variable {s s' : Kern} {fuel : ℕ}

/-- No task is deleted a second time while its old `mutex_list` still points at mutexes. -/
def FirstDeletion (s : Kern) : KernAct → Prop
  | .call (.taskDel given) => DelAllowed s (given.getD s.active) .staticAlloc →
      (s.tasks (given.getD s.active)).taskState = .deleted →
      (s.tasks (given.getD s.active)).mutexList = none
  | _ => True

/-- A task is deleted for the first time, or its list is empty. -/
theorem Deletes.cases {task : ℕ} (hc : Deletes fuel s task s') (h : Owned s)
    (hfirst : (s.tasks task).taskState = .deleted → (s.tasks task).mutexList = none) :
    Live (s.tasks task) ∨ s' = s := by
  by_cases hlive : Live (s.tasks task)
  · exact .inl hlive
  · right
    apply hc.dead hlive
    unfold Live at hlive
    rw [not_and_or, not_not, not_not] at hlive
    obtain hs | hs := hlive
    · exact h.seed task hs
    · exact hfirst hs

/-- Giving the semaphore for the resources leaves the owners. -/
theorem resSemGive_sameOwn (hk : KernOk s none) (hc : resSemGive s = some s') : SameOwn s s' := by
  obtain rfl | ⟨-, first, rest, -, hwake⟩ := resSemGive_cases hc
  · exact SameOwn.refl _
  · exact pendTaskEnd_sameOwn hk hwake

/-- A dynamic task is deleted once. -/
theorem dynDel_first {task : ℕ} {s₀ : Kern} (hk : KernOk s none)
    (hdel : (s.tasks task).taskState ≠ .deleted) (hgive : resSemGive s = some s₀) :
    (s₀.tasks task).taskState = .deleted → (s₀.tasks task).mutexList = none := by
  intro hs
  exact absurd (((resSemGive_sameOwn hk hgive).deleted task).1 hs) hdel

/-- **Every step** keeps the lists of mutexes. -/
theorem kernStep_owned {a : KernAct} (h : Owned s) (hk : KernOk s none) (hfirst : FirstDeletion s a)
    (hc : kernStep fuel s a = some s') : Owned s' := by
  obtain ⟨c, rfl, hrun, hcall⟩ | ⟨-, task, level, rfl⟩ := kernStep_cases hc
  · by_cases hplain : concernsOwners c = false
    · exact h.same (kernCall_sameOwn hk hrun hplain hcall)
    · cases c with
      | taskCreate task prio ticks autorun flag =>
        obtain ⟨st, hcall⟩ := map_snd_eq hcall
        exact taskCreate_owned h hcall
      | taskDel given =>
        obtain ⟨st, hcall⟩ := map_snd_eq hcall
        obtain rfl | ⟨hallowed, hdel⟩ := krhinoTaskDel_cases hcall
        · exact h
        · obtain hlive | rfl := hdel.cases h (hfirst hallowed)
          · exact hdel.owned h hk hlive
          · exact h
      | taskDynDel given =>
        obtain ⟨st, hcall⟩ := map_snd_eq hcall
        obtain rfl | ⟨-, hnot, s₀, hgive, hdel⟩ := krhinoTaskDynDel_cases hcall
        · exact h
        · have h₀ : Owned s₀ := h.same (resSemGive_sameOwn hk hgive)
          obtain hlive | rfl := hdel.cases h₀ (dynDel_first hk hnot hgive)
          · exact hdel.owned h₀ (resSemGive_ok hk hgive) hlive
          · exact h₀
      | mutexCreate mutex flag => exact mutexCreate_owned h hcall
      | mutexDel mutex =>
        obtain ⟨st, hcall⟩ := map_snd_eq hcall
        exact mutexDel_owned h hk hcall
      | mutexDynDel mutex =>
        obtain ⟨st, hcall⟩ := map_snd_eq hcall
        exact mutexDel_owned h hk hcall
      | mutexLock mutex ticks =>
        obtain ⟨st, hcall⟩ := map_snd_eq hcall
        exact krhinoMutexLock_owned h hk hrun hcall
      | mutexUnlock mutex =>
        obtain ⟨st, hcall⟩ := map_snd_eq hcall
        exact krhinoMutexUnlock_owned h hk hcall
      | _ => exact absurd rfl hplain
  · exact h.same (sameOwn_rest rfl rfl rfl)

/-- There is no mutex when the kernel starts. -/
theorem krhinoStart_type (m : ℕ) : (krhinoStart.objs m).objType ≠ .mutex := by
  simp only [krhinoStart, Function.update_apply]
  split
  · simp
  · simp [KObj.zero]

/-- At the start no mutex has an owner. -/
theorem krhinoStart_owned : Owned krhinoStart := by
  have hno : ∀ t m, ¬ Owns krhinoStart t m := fun t m hm => krhinoStart_type m hm.1
  have hnone : ∀ t, (krhinoStart.tasks t).mutexList = none := by
    intro t
    simp only [krhinoStart, Function.update_apply]
    split
    · rfl
    · rfl
  constructor
  case chain =>
    intro t _ _
    exact ⟨[], hnone t, List.nodup_nil, fun m => by simp [hno]⟩
  case unique => exact owns_unique _
  case seed => exact fun t _ => hnone t
  case live => exact fun t m hm => absurd hm (hno t m)
  case free => exact fun m hm => absurd hm (krhinoStart_type m)
  case self => exact fun t m hm => absurd hm (hno t m)

end Steps

section Nesting

variable {s s' s₁ : Kern} {dying del : Option ℕ} {task mutex fuel : ℕ}

/-- The locks of one task on one mutex after an event. -/
def heldAfter (task mutex n : ℕ) : LockEvent → ℕ
  | .lock t m => if t = task ∧ m = mutex then n + 1 else n
  | .unlock t m => if t = task ∧ m = mutex then n - 1 else n
  | .taskDel t => if t = task then 0 else n
  | .mutexDel m => if m = mutex then 0 else n

/-- The locks of a task on a mutex that it has not undone. -/
def locksHeld (log : List LockEvent) (task mutex : ℕ) : ℕ := log.foldl (heldAfter task mutex) 0

/-- One more event changes the locks that a task holds by what it says. -/
theorem locksHeld_append (log : List LockEvent) (e : LockEvent) (task mutex : ℕ) :
    locksHeld (log ++ [e]) task mutex = heldAfter task mutex (locksHeld log task mutex) e := by
  unfold locksHeld
  rw [List.foldl_append]
  rfl

instance (s : Kern) (task mutex : ℕ) : Decidable (Owns s task mutex) :=
  inferInstanceAs (Decidable (_ ∧ _))

/-- The count of the mutex is the number of locks its owner has not undone; nobody else has any. The
task `dying` is not considered. -/
structure NestAt (s : Kern) (dying : Option ℕ) (mutex : ℕ) : Prop where
  held : ∀ t, some t ≠ dying →
    locksHeld s.log t mutex = if Owns s t mutex then (s.objs mutex).ownerNested else 0
  pos : ∀ t, Owns s t mutex →
    1 ≤ (s.objs mutex).ownerNested ∧ (s.objs mutex).ownerNested < 2 ^ 32

/-- The counts of all mutexes. -/
def NestOk (s : Kern) (dying : Option ℕ) : Prop := ∀ mutex, NestAt s dying mutex

/-- Nothing that concerns the count changes. -/
theorem NestAt.congr (h : NestAt s dying mutex)
    (hlog : ∀ t, locksHeld s'.log t mutex = locksHeld s.log t mutex)
    (howns : ∀ t, Owns s' t mutex ↔ Owns s t mutex)
    (hnested : (s.objs mutex).objType = .mutex →
      (s'.objs mutex).ownerNested = (s.objs mutex).ownerNested) : NestAt s' dying mutex where
  held t hne := by
    rw [hlog, h.held t hne]
    by_cases hown : Owns s t mutex
    · rw [if_pos hown, if_pos ((howns t).2 hown), hnested hown.1]
    · rw [if_neg hown, if_neg fun h => hown ((howns t).1 h)]
  pos t hown := by
    have hown' := (howns t).1 hown
    rw [hnested hown'.1]
    exact h.pos t hown'

/-- The depths stay right if the owners stay. -/
theorem NestOk.same (h : NestOk s dying) (hsame : SameOwn s s') : NestOk s' dying :=
  fun m => (h m).congr (fun t => by rw [hsame.log]) (fun t => hsame.owns t m) (hsame.nested m)

/-- An event about one mutex. -/
theorem locksHeld_other {log : List LockEvent} {e : LockEvent} {t x : ℕ}
    (he : e = .lock task mutex ∨ e = .unlock task mutex ∨ e = .mutexDel mutex) (hx : x ≠ mutex) :
    locksHeld (log ++ [e]) t x = locksHeld log t x := by
  rw [locksHeld_append]
  obtain rfl | rfl | rfl := he
  all_goals simp [heldAfter, Ne.symm hx]

/-- A mutex without an owner, which nobody holds. -/
theorem NestAt.free (hno : ∀ t, ¬ Owns s t mutex)
    (hnone : ∀ t, some t ≠ dying → locksHeld s.log t mutex = 0) : NestAt s dying mutex where
  held t hne := by
    rw [hnone t hne, if_neg (hno t)]
  pos t hown := absurd hown (hno t)

/-- A mutex that nobody holds is linked to a task and counted once. -/
theorem NestAt.hand (hmutex : (s.objs mutex).objType = .mutex)
    (hnone : ∀ t, some t ≠ dying → locksHeld s.log t mutex = 0)
    (htasks : s'.log = s.log ++ [.lock task mutex])
    (howns : ∀ t, Owns s' t mutex ↔ Owns (mutexHandTo s mutex task) t mutex)
    (hn : (s'.objs mutex).ownerNested = 1) : NestAt s' dying mutex where
  held t hne := by
    rw [htasks, locksHeld_append, hnone t hne]
    simp only [howns, owns_handTo hmutex, if_true, heldAfter, and_true, hn]
    by_cases ht : t = task
    · simp [ht]
    · simp [ht, Ne.symm ht]
  pos t _ := by
    rw [hn]
    norm_num

/-- The other mutexes when one is linked to a task. -/
theorem NestAt.handOther {x n : ℕ} (h : NestAt s dying x)
    (hmutex : (s.objs mutex).objType = .mutex) (hx : x ≠ mutex) :
    NestAt ((mutexHandTo s mutex task).setObj mutex
      { (mutexHandTo s mutex task).objs mutex with ownerNested := n }) dying x := by
  apply h.congr
  · intro t
    exact locksHeld_other (.inl rfl) hx
  · intro t
    rw [owns_setNested, owns_handTo hmutex, if_neg hx]
  · intro _
    rw [setObj_objs, Function.update_of_ne hx]
    show (Function.update s.objs mutex _ x).ownerNested = _
    rw [Function.update_of_ne hx]

/-- A mutex that nobody holds gets an owner, and its count is set. -/
theorem nestOk_hand (hother : ∀ x, x ≠ mutex → NestAt s dying x)
    (hmutex : (s.objs mutex).objType = .mutex)
    (hnone : ∀ t, some t ≠ dying → locksHeld s.log t mutex = 0) :
    NestOk ((mutexHandTo s mutex task).setObj mutex
      { (mutexHandTo s mutex task).objs mutex with ownerNested := 1 }) dying := by
  intro x
  by_cases hx : x = mutex
  · subst hx
    apply NestAt.hand hmutex hnone rfl
    · intro t
      exact owns_setNested 1 t x
    · rw [setObj_objs, Function.update_self]
  · exact (hother x hx).handOther hmutex hx

/-- `krhino_mutex_lock` keeps the depths right. -/
theorem krhinoMutexLock_nest {ticks : ℕ} {st : Option KStat} (h : NestOk s none)
    (hk : KernOk s none) (hrun : 0 < s.intrptLevel ∨ (s.tasks s.active).taskState = .rdy)
    (hc : krhinoMutexLock fuel s mutex ticks = some (st, s')) : NestOk s' none := by
  obtain rfl | ⟨hlevel, hmutex, hcases⟩ := krhinoMutexLock_cases hc
  · exact h
  have hrdy : (s.tasks s.active).taskState = .rdy := hrun.resolve_left (by omega)
  obtain ⟨hfree, rfl⟩ | ⟨howner, hovf, rfl⟩ | ⟨owner, s₁, howner, hother, hticks, hraise, hpend⟩ :=
    hcases
  · apply nestOk_hand (fun x _ => h x) hmutex
    intro t hne
    rw [(h mutex).held t hne, if_neg]
    intro hm
    rw [Owns, hfree] at hm
    cases hm.2
  · intro x
    have howns : ∀ t x, Owns ((s.setObj mutex { s.objs mutex with
        ownerNested := (s.objs mutex).ownerNested + 1 }).record (.lock s.active mutex)) t x ↔
        Owns s t x := fun t x => owns_setNested _ t x
    by_cases hx : x = mutex
    · subst hx
      have hown : Owns s s.active x := ⟨hmutex, howner⟩
      have hpos := (h x).pos s.active hown
      have hobj : ((s.setObj x { s.objs x with
          ownerNested := (s.objs x).ownerNested + 1 }).record (.lock s.active x)).objs x =
          { s.objs x with ownerNested := (s.objs x).ownerNested + 1 } := Function.update_self ..
      constructor
      · intro t hne
        rw [record_log, locksHeld_append, setObj_log, (h x).held t hne, hobj]
        simp only [howns]
        by_cases ht : t = s.active
        · subst ht
          simp [heldAfter, hown]
        · have hnot : ¬ Owns s t x := fun hm => ht (owns_unique s t _ x hm hown)
          simp [heldAfter, hnot, Ne.symm ht]
      · intro t _
        rw [hobj]
        simp only
        omega
    · apply (h x).congr
      · intro t
        exact locksHeld_other (.inl rfl) hx
      · exact fun t => howns t x
      · intro _
        rw [record_objs, setObj_objs, Function.update_of_ne hx]
  · exact h.same (lockBlocked_sameOwn hk hrdy howner hother hticks hraise hpend)

/-- The count of a mutex after one lock was undone. -/
theorem undoLock_nested (h : NestAt s dying mutex) (hown : Owns s task mutex) :
    ((undoLock s mutex).objs mutex).ownerNested + 1 = (s.objs mutex).ownerNested := by
  have hobj : (undoLock s mutex).objs mutex = { s.objs mutex with
      ownerNested := ((s.objs mutex).ownerNested + (2 ^ 32 - 1)) % 2 ^ 32 } :=
    Function.update_self ..
  have hpos := h.pos task hown
  rw [hobj]
  simp only
  omega

/-- After an unlock the owner has one lock less, and nobody else has any. -/
theorem undoLock_held (h : NestAt s none mutex) (hown : Owns s s.active mutex) (t : ℕ) :
    locksHeld (undoLock s mutex).log t mutex =
      if t = s.active then ((undoLock s mutex).objs mutex).ownerNested else 0 := by
  have hlog : (undoLock s mutex).log = s.log ++ [.unlock s.active mutex] := rfl
  have hn := undoLock_nested h hown
  rw [hlog, locksHeld_append, h.held t (by simp)]
  by_cases ht : t = s.active
  · subst ht
    simp only [hown, if_true, heldAfter, and_self]
    omega
  · have hnot : ¬ Owns s t mutex := fun hm => ht (owns_unique s t _ mutex hm hown)
    simp [heldAfter, hnot, ht, Ne.symm ht]

/-- The mutexes that are not unlocked. -/
theorem NestAt.undoOther {x : ℕ} (h : NestAt s dying x) (hx : x ≠ mutex) :
    NestAt (undoLock s mutex) dying x := by
  apply h.congr
  · intro t
    exact locksHeld_other (.inr (.inl rfl)) hx
  · exact fun t => owns_setNested _ t x
  · intro _
    exact congrArg KObj.ownerNested (Function.update_of_ne hx _ _)

/-- Changes of priorities do not concern the counts. -/
theorem NestAt.frame (h : NestAt s dying mutex) (hframe : Frame s s') : NestAt s' dying mutex := by
  apply h.congr
  · intro t
    rw [hframe.log]
  · exact fun t => hframe.owns t mutex
  · intro _
    rw [hframe.obj]

/-- `krhino_mutex_unlock` keeps the depths right. -/
theorem krhinoMutexUnlock_nest {st : KStat} (h : NestOk s none) (ho : Owned s) (hk : KernOk s none)
    (hc : krhinoMutexUnlock fuel s mutex = some (st, s')) : NestOk s' none := by
  obtain rfl | ⟨-, hmutex, howner, hcases⟩ := krhinoMutexUnlock_cases hc
  · exact h
  have hown : Owns s s.active mutex := ⟨hmutex, howner⟩
  have hheld := undoLock_held (h mutex) hown
  obtain ⟨hpos, rfl⟩ | ⟨hzero, s₁, hrel, hcases⟩ := hcases
  · -- the owner keeps the mutex
    intro x
    by_cases hx : x = mutex
    · subst hx
      have howns : ∀ t, Owns (undoLock s x) t x ↔ Owns s t x := fun t => owns_setNested _ t x
      constructor
      · intro t _
        rw [hheld]
        simp only [howns]
        by_cases ht : t = s.active
        · simp [ht, hown]
        · have hnot : ¬ Owns s t x := fun hm => ht (owns_unique s t _ x hm hown)
          simp [ht, hnot]
      · intro t _
        have := undoLock_nested (h x) hown
        have := (h x).pos s.active hown
        omega
    · exact (h x).undoOther hx
  · -- the mutex is released, and nobody holds it
    obtain ⟨hk₁, hmutex₁, -, -⟩ := undoLock_release ho hk hown hrel
    have hframe := (mutexRelease_ok (undoLock_ok hk) hrel).2
    have hother : ∀ x, x ≠ mutex → NestAt s₁ none x := fun x hx => ((h x).undoOther hx).frame hframe
    have hnone : ∀ t, locksHeld s₁.log t mutex = 0 := by
      intro t
      rw [hframe.log, hheld, hzero]
      simp
    obtain ⟨hnil, rfl⟩ | ⟨w, rest, s₂, hlist, hwake, rfl⟩ := hcases
    · intro x
      by_cases hx : x = mutex
      · subst hx
        apply NestAt.free
        · intro t hm
          exact ((owns_setFree t x).1 hm).2 rfl
        · intro t _
          exact hnone t
      · apply (hother x hx).congr
        · exact fun t => rfl
        · intro t
          rw [owns_setFree]
          simp [hx]
        · intro _
          rw [setObj_objs, Function.update_of_ne hx]
    · obtain ⟨-, hsame, -⟩ := wakeFirst_spec hk₁ hlist hwake
      apply nestOk_hand _ ((hsame.type mutex).2 hmutex₁)
      · intro t _
        rw [hsame.log]
        exact hnone t
      · intro x hx
        exact (hother x hx).congr (fun t => by rw [hsame.log]) (fun t => hsame.owns t x)
          (hsame.nested x)

/-- `mutex_del` keeps the depths right. -/
theorem mutexDel_nest {flag : AllocFlag} {st : KStat} (h : NestOk s none) (ho : Owned s)
    (hk : KernOk s none) (hc : mutexDel fuel s mutex flag = some (st, s')) : NestOk s' none := by
  obtain rfl | ⟨hmutex, s₁, hrel, hall⟩ := mutexDel_cases hc
  · exact h
  obtain ⟨hk₁, -⟩ := clearType_release ho hk hmutex hrel
  obtain ⟨-, howns⟩ := clearType_own ho mutex
  have h₀ : NestOk (clearType s mutex) none := by
    intro x
    by_cases hx : x = mutex
    · subst hx
      apply NestAt.free
      · intro t hm
        exact ((howns t x).1 hm).2 rfl
      · intro t _
        have hlog : (clearType s x).log = s.log ++ [.mutexDel x] := rfl
        rw [hlog, locksHeld_append]
        simp [heldAfter]
    · apply (h x).congr
      · intro t
        exact @locksHeld_other 0 mutex s.log (.mutexDel mutex) t x (.inr (.inr rfl)) hx
      · intro t
        rw [howns]
        simp [hx]
      · intro _
        exact congrArg KObj.ownerNested (Function.update_of_ne hx _ _)
  have h₁ : NestOk s₁ none := by
    obtain ⟨-, rfl⟩ | ⟨owner, -, hrel⟩ := hrel
    · exact h₀
    · have hframe := (mutexRelease_ok ((hk.beginDel mutex).record _) hrel).2
      exact fun x => (h₀ x).frame hframe
  exact h₁.same (pendTaskRmAll_sameOwn hk₁ hall)

/-- `mutex_create` keeps the depths right. -/
theorem mutexCreate_nest {flag : AllocFlag} (h : NestOk s none)
    (hc : mutexCreate s mutex flag = some s') : NestOk s' none := by
  obtain ⟨hnone, rfl⟩ := mutexCreate_cases hc
  intro x
  by_cases hx : x = mutex
  · subst hx
    apply NestAt.free
    · intro t hm
      simp [Owns] at hm
    · intro t hne
      rw [setObj_log, (h x).held t hne, if_neg]
      intro hm
      rw [Owns, hnone] at hm
      cases hm.1
  · apply (h x).congr
    · exact fun t => rfl
    · intro t
      unfold Owns
      rw [setObj_objs, Function.update_of_ne hx]
    · intro _
      rw [setObj_objs, Function.update_of_ne hx]

end Nesting

end GenieSdk.Analysis.Rhino
