import GenieSdk.Analysis.MutexNesting

/-!
# The nesting count over whole runs

`krhino_mutex_unlock` sets the count of a mutex that it hands to a waiter. `task_mutex_free` does
not: the waiter inherits the count of the deleted owner. So the count is right in every state that
is reached by runs in which no task is deleted that has locked a mutex more than once for which
another task waits, and it is wrong from such a deletion on.
-/

set_option autoImplicit false

namespace GenieSdk.Analysis.Rhino

open GenieSdk.Model.Rhino
open GenieSdk.Model (AllocFlag BlkState KStat)
open GenieSdk.Lib

section Deletion

variable {s s' s₀ s₁ : Kern} {del : Option ℕ} {task fuel : ℕ} {l : List ℕ}

/-- Whoever has become the owner of a mutex has it once. -/
def HandedOnce (s s' : Kern) : Prop :=
  ∀ t m, Owns s' t m → Owns s t m ∨ (s'.objs m).ownerNested = 1

/-- The owners stay, or some mutexes lose theirs. -/
theorem handedOnce_of (h : ∀ t m, Owns s' t m → Owns s t m) : HandedOnce s s' :=
  fun t m hm => .inl (h t m hm)

/-- A step that leaves the owners hands on nothing twice. -/
theorem SameOwn.handedOnce (h : SameOwn s s') : HandedOnce s s' :=
  handedOnce_of fun t m => (h.owns t m).1

/-- Only the owners and counts at the end matter. -/
theorem HandedOnce.same (h : HandedOnce s₀ s) (hsame : SameOwn s s') : HandedOnce s₀ s' := by
  intro t m hm
  have hm' := (hsame.owns t m).1 hm
  rw [hsame.nested m hm'.1]
  exact h t m hm'

/-- A mutex comes to a task and is counted once. -/
theorem HandedOnce.hand {mutex : ℕ} (h : HandedOnce s₀ s)
    (hmutex : (s.objs mutex).objType = .mutex) :
    HandedOnce s₀ ((mutexHandTo s mutex task).setObj mutex
      { (mutexHandTo s mutex task).objs mutex with ownerNested := 1 }) := by
  intro t m hm
  rw [owns_setNested, owns_handTo hmutex] at hm
  by_cases hx : m = mutex
  · right
    rw [hx, setObj_objs, Function.update_self]
  · rw [if_neg hx] at hm
    rw [setObj_objs, Function.update_of_ne hx]
    show _ ∨ (Function.update s.objs mutex _ m).ownerNested = 1
    rw [Function.update_of_ne hx]
    exact h t m hm

/-- To write a count that is there already changes nothing. -/
theorem mutexHandTo_counted {m w : ℕ} (h : (s.objs m).ownerNested = 1) :
    (mutexHandTo s m w).setObj m { (mutexHandTo s m w).objs m with ownerNested := 1 } =
      mutexHandTo s m w := by
  have hn : ((mutexHandTo s m w).objs m).ownerNested = 1 := by
    show (Function.update s.objs m _ m).ownerNested = 1
    rw [Function.update_self]
    exact h
  have hobj : { (mutexHandTo s m w).objs m with ownerNested := 1 } = (mutexHandTo s m w).objs m := by
    rw [← hn]
  unfold Kern.setObj
  rw [hobj, Function.update_eq_self]

/-- What holds while the mutexes `l` of the task are still to be freed: those with waiters are
locked once, so that the count they are handed on with is right. -/
structure Counting (s₀ : Kern) (task : ℕ) (s : Kern) (l : List ℕ) : Prop where
  freeing : Freeing task s l
  nest : NestOk s (some task)
  once : ∀ m ∈ l, (s.objs m).blkList ≠ [] → (s.objs m).ownerNested = 1
  handed : HandedOnce s₀ s

/-- Besides the task that is deleted nobody holds its mutexes. -/
theorem Counting.none_held {m : ℕ} (h : Counting s₀ task s (m :: l)) (t : ℕ)
    (hne : some t ≠ some task) : locksHeld s.log t m = 0 := by
  rw [(h.nest m).held t hne, if_neg]
  intro hm
  have hown : Owns s task m := (h.freeing.mem m).1 List.mem_cons_self
  exact hne (congrArg some (owns_unique s t task m hm hown))

/-- A mutex of the task for which none waits is set free. -/
theorem Counting.free {m : ℕ} (h : Counting s₀ task s (m :: l)) (hml : m ∉ l)
    (hnil : (s.objs m).blkList = []) :
    Counting s₀ task (s.setObj m { s.objs m with mutexTask := none }) l := by
  have hother : ∀ x, x ≠ m →
      (s.setObj m { s.objs m with mutexTask := none }).objs x = s.objs x := by
    intro x hx
    rw [setObj_objs, Function.update_of_ne hx]
  refine ⟨h.freeing.free hml hnil, ?_, ?_, ?_⟩
  · intro x
    by_cases hx : x = m
    · subst hx
      apply NestAt.free
      · intro t hm
        exact ((owns_setFree t x).1 hm).2 rfl
      · exact h.none_held
    · apply (h.nest x).congr
      · exact fun t => rfl
      · intro t
        rw [owns_setFree]
        simp [hx]
      · intro _
        rw [hother x hx]
  · intro x hx hlist
    have hxm : x ≠ m := by
      rintro rfl
      exact hml hx
    rw [hother x hxm] at hlist ⊢
    exact h.once x (List.mem_cons_of_mem _ hx) hlist
  · intro t x hx
    obtain ⟨hown, hxm⟩ := (owns_setFree t x).1 hx
    rw [hother x hxm]
    exact h.handed t x hown

/-- A mutex of the task is handed to the first task that waits for it. -/
theorem Counting.hand {m w : ℕ} {rest : List ℕ} (h : Counting s₀ task s (m :: l))
    (hk : KernOk s del) (hml : m ∉ l) (hlist : (s.objs m).blkList = w :: rest)
    (hwake : pendTaskWakeup s w = some s₁) : Counting s₀ task (mutexHandTo s₁ m w) l := by
  have hown : Owns s task m := (h.freeing.mem m).1 List.mem_cons_self
  obtain ⟨-, hsame, -, hobjs, -⟩ := wakeFirst_spec hk hlist hwake
  have hmutex : (s₁.objs m).objType = .mutex := (hsame.type m).2 hown.1
  have hone : (s₁.objs m).ownerNested = 1 := by
    rw [hsame.nested m hown.1]
    apply h.once m List.mem_cons_self
    rw [hlist]
    exact List.cons_ne_nil _ _
  refine ⟨h.freeing.hand hk hml hlist hwake, ?_, ?_, ?_⟩
  · rw [← mutexHandTo_counted hone]
    apply nestOk_hand (fun x _ => (h.nest.same hsame) x) hmutex
    intro t hne
    rw [hsame.log]
    exact h.none_held t hne
  · intro x hx hblk
    have hxm : x ≠ m := by
      rintro rfl
      exact hml hx
    have hobj : (mutexHandTo s₁ m w).objs x = s.objs x := by
      show Function.update s₁.objs m _ x = _
      rw [Function.update_of_ne hxm, hobjs, Function.update_of_ne hxm]
    rw [hobj] at hblk ⊢
    exact h.once x (List.mem_cons_of_mem _ hx) hblk
  · rw [← mutexHandTo_counted hone]
    exact (h.handed.same hsame).hand hmutex

/-- Of the mutexes that the task owns, those with waiters are locked once. -/
def HandsOnce (s : Kern) (task : ℕ) : Prop :=
  ∀ m, Owns s task m → (s.objs m).blkList ≠ [] → (s.objs m).ownerNested = 1

/-- All mutexes of the task are set free or handed on. -/
theorem taskMutexFree_counting (h : NestOk s none) (ho : Owned s) (hk : KernOk s del)
    (hlive : Live (s.tasks task)) (honce : HandsOnce s task)
    (hc : taskMutexFree fuel s (s.tasks task).mutexList = some s₁) : Counting s task s₁ [] := by
  obtain ⟨l, hl, hnodup, hmem⟩ := ho.chain task hlive (by simp)
  have h₀ : Counting s task s l := by
    constructor
    case freeing =>
      exact ⟨⟨fun t ht _ => ho.chain t ht (by simp), ho.unique, ho.seed, ho.live, ho.free, ho.self⟩,
        hlive, hmem⟩
    case nest => exact fun m => ⟨fun t _ => (h m).held t (by simp), (h m).pos⟩
    case once => exact fun m hm hlist => honce m ((hmem m).1 hm) hlist
    case handed => exact handedOnce_of fun _ _ hm => hm
  exact (taskMutexFree_rule hk hl hnodup h₀
    (fun s m l _ hml hI hnil => hI.free hml hnil)
    (fun s s₁ m l w rest hk hml hI hlist hwake => hI.hand hk hml hlist hwake) hc).2

/-- With the task its locks end. -/
theorem NestOk.kill (h : NestOk s (some task)) (hno : ∀ m, ¬ Owns s task m)
    (hobjs : ∀ m, ∃ l, s'.objs m = { s.objs m with blkList := l } ∧ ∀ t ∈ l, t ∈ (s.objs m).blkList)
    (hlog : s'.log = s.log) : NestOk (s'.record (.taskDel task)) none := by
  have hobj : ∀ m, s'.objs m = { s.objs m with blkList := (s'.objs m).blkList } := by
    intro m
    obtain ⟨l, hl, -⟩ := hobjs m
    rw [hl]
  have howns : ∀ t m, Owns (s'.record (.taskDel task)) t m ↔ Owns s t m := by
    intro t m
    unfold Owns
    rw [record_objs, hobj]
  intro m
  constructor
  case held =>
    intro t _
    rw [record_log, hlog, locksHeld_append]
    simp only [howns, record_objs, heldAfter]
    by_cases ht : t = task
    · subst ht
      simp [hno m]
    · rw [if_neg (Ne.symm ht), (h m).held t (by simpa using ht), hobj]
  case pos =>
    intro t hm
    rw [record_objs, hobj]
    exact (h m).pos t ((howns t m).1 hm)

/-- The log goes on in the same way. -/
theorem SameOwn.record (h : SameOwn s s') (e : LockEvent) : SameOwn (s.record e) (s'.record e) :=
  ⟨h.link, h.seed, h.deleted, h.type, h.objLink, h.owner, h.nested, h.wait, by
    rw [record_log, record_log, h.log]⟩

/-- An owner with his count is one before the list of the mutex changes. -/
theorem HandedOnce.lists (h : HandedOnce s₀ s)
    (hobjs : ∀ m, ∃ l, s'.objs m = { s.objs m with blkList := l } ∧ ∀ t ∈ l, t ∈ (s.objs m).blkList)
    (e : LockEvent) : HandedOnce s₀ (s'.record e) := by
  intro t m hm
  obtain ⟨l, hl, -⟩ := hobjs m
  unfold Owns at hm
  rw [record_objs, hl] at hm ⊢
  exact h t m hm

/-- A task without mutexes can be taken off its lists. -/
theorem taskDelSwitch_counts (h : Counting s₀ task s []) (hk : KernOk s del)
    (hc : taskDelSwitch fuel s task = some (some s')) : NestOk s' none ∧ HandedOnce s₀ s' := by
  have hno : ∀ m, ¬ Owns s task m := fun m hm => List.not_mem_nil ((h.freeing.mem m).2 hm)
  obtain ⟨s₁, rfl, ⟨t', -, -, hobjs, hlog⟩ | ⟨hpend, hcancel⟩⟩ := taskDelSwitch_cases hc
  · exact ⟨h.nest.kill hno (sublists_same hobjs) hlog, h.handed.lists (sublists_same hobjs) _⟩
  · obtain ⟨obj, hobj⟩ := (hk.tasks task).blkObj hpend
    rw [pendCancel_eq] at hcancel
    have hlists := sublists_erase (cancelled_objs hobj .deleted (s.tasks task).blkState)
    have hsame := (mutexTaskPriReset_sameOwn (cancelled_ok hk hpend (.inr (.inl rfl)))
      hcancel).record (.taskDel task)
    exact ⟨(h.nest.kill hno hlists (cancelled_log s task _ _).1).same hsame,
      (h.handed.lists hlists _).same hsame⟩

/-- A task that exists is deleted. -/
theorem Deletes.counts (hc : Deletes fuel s task s') (h : NestOk s none) (ho : Owned s)
    (hk : KernOk s del) (hlive : Live (s.tasks task)) (honce : HandsOnce s task) :
    NestOk s' none ∧ HandedOnce s s' := by
  obtain ⟨s₁, hfree, hswitch⟩ := hc.switch ho hk hlive
  exact taskDelSwitch_counts (taskMutexFree_counting h ho hk hlive honce hfree)
    (taskMutexFree_ok hk hfree) hswitch

end Deletion

section Steps

variable {s s' s₁ : Kern} {task mutex fuel : ℕ}

/-- `krhino_mutex_lock` hands on nothing twice. -/
theorem krhinoMutexLock_handed {ticks : ℕ} {st : Option KStat} (hk : KernOk s none)
    (hrun : 0 < s.intrptLevel ∨ (s.tasks s.active).taskState = .rdy)
    (hc : krhinoMutexLock fuel s mutex ticks = some (st, s')) : HandedOnce s s' := by
  obtain rfl | ⟨hlevel, hmutex, hcases⟩ := krhinoMutexLock_cases hc
  · exact handedOnce_of fun _ _ hm => hm
  have hrdy : (s.tasks s.active).taskState = .rdy := hrun.resolve_left (by omega)
  obtain ⟨-, rfl⟩ | ⟨-, -, rfl⟩ | ⟨owner, s₁, howner, hother, hticks, hraise, hpend⟩ := hcases
  · exact (handedOnce_of fun _ _ hm => hm).hand hmutex
  · exact handedOnce_of fun t m => (owns_setNested _ t m).1
  · exact (lockBlocked_sameOwn hk hrdy howner hother hticks hraise hpend).handedOnce

/-- Nor does `krhino_mutex_unlock`. -/
theorem krhinoMutexUnlock_handed {st : KStat} (ho : Owned s) (hk : KernOk s none)
    (hc : krhinoMutexUnlock fuel s mutex = some (st, s')) : HandedOnce s s' := by
  obtain rfl | ⟨-, hmutex, howner, hcases⟩ := krhinoMutexUnlock_cases hc
  · exact handedOnce_of fun _ _ hm => hm
  obtain ⟨-, rfl⟩ | ⟨-, s₁, hrel, hcases⟩ := hcases
  · exact handedOnce_of fun t m => (owns_setNested _ t m).1
  obtain ⟨hk₁, hmutex₁, howns, -⟩ := undoLock_release ho hk ⟨hmutex, howner⟩ hrel
  obtain ⟨-, rfl⟩ | ⟨w, rest, s₂, hlist, hwake, rfl⟩ := hcases
  · apply handedOnce_of
    intro t m hm
    exact (howns t m).1 ((owns_setFree t m).1 hm).1
  · obtain ⟨-, hsame, -⟩ := wakeFirst_spec hk₁ hlist hwake
    have h₁ : HandedOnce s s₁ := handedOnce_of fun t m => (howns t m).1
    exact (h₁.same hsame).hand ((hsame.type mutex).2 hmutex₁)

/-- Nor does `mutex_del`. -/
theorem mutexDel_handed {flag : AllocFlag} {st : KStat} (ho : Owned s) (hk : KernOk s none)
    (hc : mutexDel fuel s mutex flag = some (st, s')) : HandedOnce s s' := by
  obtain rfl | ⟨hmutex, s₁, hrel, hall⟩ := mutexDel_cases hc
  · exact handedOnce_of fun _ _ hm => hm
  obtain ⟨hk₁, -⟩ := clearType_release ho hk hmutex hrel
  obtain ⟨-, howns⟩ := clearType_own ho mutex
  have h₁ : HandedOnce s s₁ := by
    apply handedOnce_of
    intro t m hm
    obtain ⟨-, rfl⟩ | ⟨owner, -, hrel⟩ := hrel
    · exact ((howns t m).1 hm).1
    · have hframe := (mutexRelease_ok ((hk.beginDel mutex).record _) hrel).2
      exact ((howns t m).1 ((hframe.owns t m).1 hm)).1
  exact h₁.same (pendTaskRmAll_sameOwn hk₁ hall)

/-- Nor does `mutex_create`. -/
theorem mutexCreate_handed {flag : AllocFlag} (hc : mutexCreate s mutex flag = some s') :
    HandedOnce s s' := by
  obtain ⟨-, rfl⟩ := mutexCreate_cases hc
  apply handedOnce_of
  intro t x hx
  unfold Owns at hx ⊢
  rw [setObj_objs, Function.update_apply] at hx
  split at hx
  case isTrue => cases hx.2
  case isFalse => exact hx

/-- A new task has no mutexes, and nothing happens to the mutexes. -/
theorem taskCreate_counts {prio ticks : ℕ} {autorun : Bool} {flag : AllocFlag} {st : KStat}
    (h : NestOk s none) (hc : taskCreate s task prio ticks autorun flag = some (st, s')) :
    NestOk s' none ∧ HandedOnce s s' := by
  obtain rfl | ⟨-, -, -, hobjs, -, hlog, -⟩ := taskCreate_cases hc
  · exact ⟨h, handedOnce_of fun _ _ hm => hm⟩
  have howns : ∀ t m, Owns s' t m ↔ Owns s t m := by
    intro t m
    unfold Owns
    rw [hobjs]
  refine ⟨?_, handedOnce_of fun t m => (howns t m).1⟩
  intro m
  apply (h m).congr
  · intro t
    rw [hlog]
  · exact fun t => howns t m
  · intro _
    rw [hobjs]

/-- No task is deleted that has locked a mutex more than once for which another task waits. -/
def SingleLocks (s : Kern) : KernAct → Prop
  | .call (.taskDel given) => DelAllowed s (given.getD s.active) .staticAlloc →
      HandsOnce s (given.getD s.active)
  | .call (.taskDynDel given) => DelAllowed s (given.getD s.active) .dynAlloc →
      HandsOnce s (given.getD s.active)
  | _ => True

/-- `krhino_sem_give` does not add waiters. -/
theorem resSemGive_handsOnce (hk : KernOk s none) (hc : resSemGive s = some s')
    (h : HandsOnce s task) : HandsOnce s' task := by
  obtain rfl | ⟨-, first, rest, -, hwake⟩ := resSemGive_cases hc
  · exact h
  have hsame := pendTaskEnd_sameOwn hk hwake
  obtain ⟨obj, t', -, -, -, -, -, -, -, hobjs, -, -⟩ := pendTaskEnd_eq hk hwake
  intro m hm hlist
  have hm' := (hsame.owns task m).1 hm
  rw [hsame.nested m hm'.1]
  apply h m hm'
  obtain ⟨w, hw⟩ := List.exists_mem_of_ne_nil _ hlist
  obtain ⟨l, hl, hsub⟩ := sublists_erase hobjs m
  rw [hl] at hw
  exact List.ne_nil_of_mem (hsub w hw)

/-- **Every step** keeps the counts, and who becomes the owner of a mutex has it once. -/
theorem kernStep_counts {a : KernAct} (h : NestOk s none) (ho : Owned s) (hk : KernOk s none)
    (hfirst : FirstDeletion s a) (hsingle : SingleLocks s a) (hc : kernStep fuel s a = some s') :
    NestOk s' none ∧ HandedOnce s s' := by
  obtain ⟨c, rfl, hrun, hcall⟩ | ⟨-, task, level, rfl⟩ := kernStep_cases hc
  · by_cases hplain : concernsOwners c = false
    · have hsame := kernCall_sameOwn hk hrun hplain hcall
      exact ⟨h.same hsame, hsame.handedOnce⟩
    · cases c with
      | taskCreate task prio ticks autorun flag =>
        obtain ⟨st, hcall⟩ := map_snd_eq hcall
        exact taskCreate_counts h hcall
      | taskDel given =>
        obtain ⟨st, hcall⟩ := map_snd_eq hcall
        obtain rfl | ⟨hallowed, hdel⟩ := krhinoTaskDel_cases hcall
        · exact ⟨h, handedOnce_of fun _ _ hm => hm⟩
        · obtain hlive | rfl := hdel.cases ho (hfirst hallowed)
          · exact hdel.counts h ho hk hlive (hsingle hallowed)
          · exact ⟨h, handedOnce_of fun _ _ hm => hm⟩
      | taskDynDel given =>
        obtain ⟨st, hcall⟩ := map_snd_eq hcall
        obtain rfl | ⟨hallowed, hnot, s₀, hgive, hdel⟩ := krhinoTaskDynDel_cases hcall
        · exact ⟨h, handedOnce_of fun _ _ hm => hm⟩
        · have hsame := resSemGive_sameOwn hk hgive
          have ho₀ : Owned s₀ := ho.same hsame
          obtain hlive | rfl := hdel.cases ho₀ (dynDel_first hk hnot hgive)
          · obtain ⟨h', hhanded⟩ := hdel.counts (h.same hsame) ho₀ (resSemGive_ok hk hgive) hlive
              (resSemGive_handsOnce hk hgive (hsingle hallowed))
            exact ⟨h', fun t m hm => (hhanded t m hm).imp_left (hsame.owns t m).1⟩
          · exact ⟨h.same hsame, hsame.handedOnce⟩
      | mutexCreate mutex flag => exact ⟨mutexCreate_nest h hcall, mutexCreate_handed hcall⟩
      | mutexDel mutex =>
        obtain ⟨st, hcall⟩ := map_snd_eq hcall
        exact ⟨mutexDel_nest h ho hk hcall, mutexDel_handed ho hk hcall⟩
      | mutexDynDel mutex =>
        obtain ⟨st, hcall⟩ := map_snd_eq hcall
        exact ⟨mutexDel_nest h ho hk hcall, mutexDel_handed ho hk hcall⟩
      | mutexLock mutex ticks =>
        obtain ⟨st, hcall⟩ := map_snd_eq hcall
        exact ⟨krhinoMutexLock_nest h hk hrun hcall, krhinoMutexLock_handed hk hrun hcall⟩
      | mutexUnlock mutex =>
        obtain ⟨st, hcall⟩ := map_snd_eq hcall
        exact ⟨krhinoMutexUnlock_nest h ho hk hcall, krhinoMutexUnlock_handed ho hk hcall⟩
      | _ => exact absurd rfl hplain
  · have hsame : SameOwn s { s with active := task, intrptLevel := level } :=
      sameOwn_rest rfl rfl rfl
    exact ⟨h.same hsame, hsame.handedOnce⟩

/-- At the start all depths are right. -/
theorem krhinoStart_nest : NestOk krhinoStart none := by
  intro m
  apply NestAt.free
  · intro t hm
    exact krhinoStart_type m hm.1
  · exact fun t _ => rfl

end Steps

section Ownership

variable {s : Kern} {fuel : ℕ}

/-- The mutex is in the `mutex_list` of the task, which exists. -/
def InMutexList (s : Kern) (task mutex : ℕ) : Prop :=
  Live (s.tasks task) ∧ ∃ l, SList (links s) (s.tasks task).mutexList l ∧ mutex ∈ l

/-- **Ownership and nesting of the mutexes that exist.** -/
structure MutexInv (s : Kern) : Prop where
  ends : ∀ t, Live (s.tasks t) → ∃ l, SList (links s) (s.tasks t).mutexList l ∧ l.Nodup
  listed_iff : ∀ m, (s.objs m).objType = .mutex →
    ∀ t, InMutexList s t m ↔ (s.objs m).mutexTask = some t
  listed_none : ∀ m, (s.objs m).objType = .mutex →
    ((∀ t, ¬ InMutexList s t m) ↔ (s.objs m).mutexTask = none)
  free_empty : ∀ m, (s.objs m).objType = .mutex → (s.objs m).mutexTask = none →
    (s.objs m).blkList = []
  nested : ∀ m, (s.objs m).objType = .mutex → ∀ t, (s.objs m).mutexTask = some t →
    (s.objs m).ownerNested = locksHeld s.log t m
  matched : ∀ m, (s.objs m).objType = .mutex → ∀ t, locksHeld s.log t m = 0 →
    (s.objs m).mutexTask ≠ some t

/-- The condition on a step: no task is deleted again while its old `mutex_list` points at mutexes,
and none that has locked a mutex more than once for which another task waits. -/
def MutexCond (s : Kern) (a : KernAct) : Prop := FirstDeletion s a ∧ SingleLocks s a

/-- The lists of the tasks that exist hold what the tasks own. -/
theorem Owned.inMutexList_iff (h : Owned s) (t m : ℕ) : InMutexList s t m ↔ Owns s t m := by
  constructor
  · rintro ⟨hlive, l, hl, hm⟩
    obtain ⟨l', hl', -, hmem⟩ := h.chain t hlive (by simp)
    rw [hl.unique hl'] at hm
    exact (hmem m).1 hm
  · intro hm
    have hlive := h.live t m hm
    obtain ⟨l, hl, -, hmem⟩ := h.chain t hlive (by simp)
    exact ⟨hlive, l, hl, (hmem m).2 hm⟩

/-- Owners and depths that are right give what is claimed. -/
theorem mutexInv_of (h : NestOk s none) (ho : Owned s) : MutexInv s := by
  constructor
  case ends =>
    intro t ht
    obtain ⟨l, hl, hnodup, -⟩ := ho.chain t ht (by simp)
    exact ⟨l, hl, hnodup⟩
  case listed_iff =>
    intro m hm t
    rw [ho.inMutexList_iff]
    exact and_iff_right hm
  case listed_none =>
    intro m hm
    constructor
    · intro hno
      cases howner : (s.objs m).mutexTask with
      | none => rfl
      | some t => exact absurd ((ho.inMutexList_iff t m).2 ⟨hm, howner⟩) (hno t)
    · intro hnone t ht
      have hown := (ho.inMutexList_iff t m).1 ht
      rw [Owns, hnone] at hown
      cases hown.2
  case free_empty => exact ho.free
  case nested =>
    intro m hm t howner
    rw [(h m).held t (by simp), if_pos ⟨hm, howner⟩]
  case matched =>
    intro m hm t hzero howner
    have hheld := (h m).held t (by simp)
    rw [hzero, if_pos ⟨hm, howner⟩] at hheld
    have hpos := (h m).pos t ⟨hm, howner⟩
    omega

/-- **Ownership and nesting in every reachable state** of a run whose steps meet the condition; and
in the next such step, whoever becomes the owner of a mutex has it once. -/
theorem mutex_ownership (fuel : ℕ) (acts : List KernAct) (s : Kern)
    (hrun : runSteps (kernStep fuel) krhinoStart acts = some s)
    (hmeet : StepsMeet (kernStep fuel) MutexCond krhinoStart acts) :
    MutexInv s ∧ ∀ a s', MutexCond s a → kernStep fuel s a = some s' →
      ∀ t m, Owns s' t m → ¬ Owns s t m → (s'.objs m).ownerNested = 1 := by
  have hinv : KernOk s none ∧ Owned s ∧ NestOk s none := by
    refine @runSteps_inv _ _ (kernStep fuel) MutexCond
      (fun s => KernOk s none ∧ Owned s ∧ NestOk s none) ?_ _ _ _ ?_ hmeet hrun
    · rintro s a s' ⟨hk, ho, h⟩ ⟨hfirst, hsingle⟩ hstep
      exact ⟨kernStep_ok hk hstep, kernStep_owned ho hk hfirst hstep,
        (kernStep_counts h ho hk hfirst hsingle hstep).1⟩
    · exact ⟨krhinoStart_ok, krhinoStart_owned, krhinoStart_nest⟩
  obtain ⟨hk, ho, h⟩ := hinv
  refine ⟨mutexInv_of h ho, ?_⟩
  rintro a s' ⟨hfirst, hsingle⟩ hstep t m hm hnot
  exact ((kernStep_counts h ho hk hfirst hsingle hstep).2 t m hm).resolve_left hnot

/-- Task 1 has locked a mutex that task 2 waits for. -/
def waitingRun (locks : List KernAct) : List KernAct :=
  [.call (.taskCreate 1 20 0 true .staticAlloc), .coreSched, .call (.mutexCreate 1 .staticAlloc)] ++
    locks ++ [.call (.taskCreate 2 10 0 true .staticAlloc), .coreSched,
      .call (.mutexLock 1 waitForever), .coreSched]

/-- Task 2 waits for the mutex of task 1, which is deleted. -/
theorem mutex_ownership_handed :
    ∃ s s', runSteps (kernStep 9) krhinoStart
        (waitingRun [.call (.mutexLock 1 waitForever)]) = some s ∧
      kernStep 9 s (.call (.taskDel none)) = some s' ∧ MutexInv s ∧
      ¬ Owns s 2 1 ∧ Owns s' 2 1 ∧ (s'.objs 1).ownerNested = 1 := by
  obtain ⟨s, s', hrun, hstep, hactive, hstate, hlist, hlink, hn, hnot, hown⟩ : ∃ s s',
      runSteps (kernStep 9) krhinoStart
        (waitingRun [.call (.mutexLock 1 waitForever)]) = some s ∧
      kernStep 9 s (.call (.taskDel none)) = some s' ∧ s.active = 1 ∧
      (s.tasks 1).taskState = .rdy ∧ (s.tasks 1).mutexList = some 1 ∧
      (s.objs 1).mutexList = none ∧ (s.objs 1).ownerNested = 1 ∧ ¬ Owns s 2 1 ∧ Owns s' 2 1 :=
    ⟨_, _, rfl, rfl, rfl, rfl, rfl, rfl, rfl, by decide, by decide⟩
  have hmeet : StepsMeet (kernStep 9) MutexCond krhinoStart
      (waitingRun [.call (.mutexLock 1 waitForever)]) := by
    apply stepsMeet_of_forall
    intro a ha s
    simp only [waitingRun, List.cons_append, List.nil_append, List.mem_cons, List.not_mem_nil,
      or_false] at ha
    obtain rfl | rfl | rfl | rfl | rfl | rfl | rfl | rfl := ha
    all_goals exact ⟨trivial, trivial⟩
  obtain ⟨hinv, honce⟩ := mutex_ownership 9 _ s hrun hmeet
  have hcond : MutexCond s (.call (.taskDel none)) := by
    unfold MutexCond FirstDeletion SingleLocks
    simp only [Option.getD_none, hactive]
    constructor
    · intro _ hdel
      rw [hstate] at hdel
      cases hdel
    · -- the list of task 1 holds nothing but mutex 1
      intro _ m hm _
      obtain ⟨-, l, hl, hml⟩ := (hinv.listed_iff m hm.1 1).2 hm.2
      have hone : SList (links s) (s.tasks 1).mutexList [1] := ⟨hlist, hlink⟩
      rw [hl.unique hone, List.mem_singleton] at hml
      rw [hml, hn]
  exact ⟨s, s', hrun, hstep, hinv, hnot, hown, honce _ s' hcond hstep 2 1 hown hnot⟩

/-- Task 1 has locked the mutex twice when it is deleted. Task 2 gets it, and still owns it after it
has undone its only lock. -/
theorem mutex_ownership_inherited :
    ∃ s s', runSteps (kernStep 9) krhinoStart
        (waitingRun [.call (.mutexLock 1 waitForever), .call (.mutexLock 1 waitForever)] ++
          [.call (.taskDel none), .coreSched]) = some s ∧
      kernStep 9 s (.call (.mutexUnlock 1)) = some s' ∧
      (s.objs 1).mutexTask = some 2 ∧ (s.objs 1).ownerNested = 2 ∧ locksHeld s.log 2 1 = 1 ∧
      (s'.objs 1).mutexTask = some 2 ∧ locksHeld s'.log 2 1 = 0 ∧ ¬ MutexInv s ∧ ¬ MutexInv s' := by
  obtain ⟨s, s', hrun, hstep, htype, howner, hn, hheld, htype', howner', hheld'⟩ : ∃ s s',
      runSteps (kernStep 9) krhinoStart
        (waitingRun [.call (.mutexLock 1 waitForever), .call (.mutexLock 1 waitForever)] ++
          [.call (.taskDel none), .coreSched]) = some s ∧
      kernStep 9 s (.call (.mutexUnlock 1)) = some s' ∧ (s.objs 1).objType = .mutex ∧
      (s.objs 1).mutexTask = some 2 ∧ (s.objs 1).ownerNested = 2 ∧ locksHeld s.log 2 1 = 1 ∧
      (s'.objs 1).objType = .mutex ∧ (s'.objs 1).mutexTask = some 2 ∧
      locksHeld s'.log 2 1 = 0 :=
    ⟨_, _, rfl, rfl, rfl, rfl, rfl, rfl, rfl, rfl, rfl⟩
  refine ⟨s, s', hrun, hstep, howner, hn, hheld, howner', hheld', ?_, ?_⟩
  · intro h
    have := h.nested 1 htype 2 howner
    omega
  · intro h
    exact h.matched 1 htype' 2 hheld' howner'

end Ownership

end GenieSdk.Analysis.Rhino
