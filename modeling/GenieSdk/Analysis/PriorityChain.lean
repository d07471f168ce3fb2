import GenieSdk.Analysis.MutexNesting
import GenieSdk.Lib.Inheritance

/-!
# Priorities along the chain of owners

A task's priority is to be the least of its base priority and of the priorities of the tasks that
wait for its mutexes, and each mutex has its waiters in the order of their priorities. `Inherits`
says so for all tasks but one, whose priority is about to change. Each round of `task_pri_change`
gives that task its priority and moves the exception to the owner of the mutex it waits for.
-/

set_option autoImplicit false

namespace GenieSdk.Analysis.Rhino

open GenieSdk.Model.Rhino
open GenieSdk.Model (AllocFlag BlkState KStat pendListAdd pendListAdd_perm)
open GenieSdk.Lib

/-- The current priorities. -/
def prioOf (s : Kern) (t : ℕ) : ℕ := (s.tasks t).prio

/-- The base priorities. -/
def basePrio (s : Kern) (t : ℕ) : ℕ := (s.tasks t).bPrio

/-- The task `w` waits for a mutex that `t` owns. -/
def WaitsOn (s : Kern) (w t : ℕ) : Prop := ∃ m, Owns s t m ∧ w ∈ (s.objs m).blkList

/-- The waiters of a mutex stand in the order of their priorities. -/
structure BlkOrdered (s : Kern) : Prop where
  sorted : ∀ m, (s.objs m).objType = .mutex →
    (s.objs m).blkList.Pairwise fun a b => prioOf s a ≤ prioOf s b
  policy : ∀ m, (s.objs m).objType = .mutex → (s.objs m).blkPolicy = .pri

/-- Every task but `exc` has the least of the priorities it has to meet, when `waits` says who waits
for whom. -/
structure Inherits (s : Kern) (waits : ℕ → ℕ → Prop) (exc : Option ℕ) : Prop where
  least : ∀ t, Live (s.tasks t) → some t ≠ exc →
    IsLeast (claims (basePrio s) (prioOf s) waits t) (prioOf s t)
  ordered : BlkOrdered s

section Lists

variable {s s' : Kern} {task mutex : ℕ} {prio prio' : ℕ → ℕ} {l : List ℕ}

/-- A task is added in the order of the priorities. -/
theorem pendListAdd_sorted (h : l.Pairwise fun a b => prio a ≤ prio b) :
    (pendListAdd prio task l).Pairwise fun a b => prio a ≤ prio b := by
  induction l with
  | nil => exact List.pairwise_singleton _ _
  | cons t ts ih =>
    obtain ⟨hhead, htail⟩ := List.pairwise_cons.1 h
    unfold pendListAdd
    split
    case isTrue hlt =>
      refine List.pairwise_cons.2 ⟨?_, h⟩
      intro u hu
      obtain rfl | hu := List.mem_cons.1 hu
      · exact hlt.le
      · exact hlt.le.trans (hhead u hu)
    case isFalse hge =>
      refine List.pairwise_cons.2 ⟨?_, ih htail⟩
      intro u hu
      rw [(pendListAdd_perm _ _ _).mem_iff, List.mem_cons] at hu
      obtain rfl | hu := hu
      · exact not_lt.1 hge
      · exact hhead u hu

/-- The priorities of the tasks in a list stay. -/
theorem sorted_congr (h : l.Pairwise fun a b => prio a ≤ prio b) (heq : ∀ t ∈ l, prio' t = prio t) :
    l.Pairwise fun a b => prio' a ≤ prio' b := by
  apply h.imp_of_mem
  intro a b ha hb hle
  rw [heq a ha, heq b hb]
  exact hle

/-- Tasks may leave the lists of mutexes, but nothing else happens to those lists. -/
theorem BlkOrdered.congr (h : BlkOrdered s)
    (hobj : ∀ m, (s'.objs m).objType = .mutex → (s.objs m).objType = .mutex ∧
      (s'.objs m).blkPolicy = (s.objs m).blkPolicy ∧
      ((s'.objs m).blkList).Sublist (s.objs m).blkList)
    (hprio : ∀ m, (s'.objs m).objType = .mutex → ∀ t ∈ (s'.objs m).blkList,
      prioOf s' t = prioOf s t) : BlkOrdered s' where
  sorted m hm := by
    obtain ⟨hold, -, hsub⟩ := hobj m hm
    exact sorted_congr ((h.sorted m hold).sublist hsub) (hprio m hm)
  policy m hm := by
    obtain ⟨hold, hpol, -⟩ := hobj m hm
    rw [hpol]
    exact h.policy m hold

/-- A frame of the kernel keeps who waits for whom. -/
theorem Frame.waitsOn (h : Frame s s') (w t : ℕ) : WaitsOn s' w t ↔ WaitsOn s w t := by
  unfold WaitsOn
  simp only [h.owns, (h.perm _).mem_iff]

/-- A step that changes priorities and lists leaves the base priorities. -/
theorem Frame.basePrio (h : Frame s s') : basePrio s' = basePrio s := by
  funext t
  unfold Rhino.basePrio
  rw [h.task]

end Lists

section Rounds

variable {s s' s₁ : Kern} {del exc : Option ℕ} {task newPri mutex : ℕ}
  {waits waits' extra : ℕ → ℕ → Prop}

/-- The priorities stay, and who waits for whom is said in another way. -/
theorem Inherits.transfer (h : Inherits s waits exc) (hprio : prioOf s' = prioOf s)
    (hbase : basePrio s' = basePrio s) (hlive : ∀ t, Live (s'.tasks t) → Live (s.tasks t))
    (hwaits : ∀ w t, waits' w t ↔ waits w t) (hord : BlkOrdered s') : Inherits s' waits' exc where
  least t ht hne := by
    have hclaims : claims (basePrio s') (prioOf s') waits' t =
        claims (basePrio s) (prioOf s) waits t := by
      rw [hprio, hbase]
      exact claims_congr rfl (fun w => hwaits w t) fun _ _ => rfl
    rw [hclaims, hprio]
    exact h.least t (hlive t ht) hne
  ordered := hord

/-- The inherited priorities depend on who waits for whom. -/
theorem Inherits.waits_congr (h : Inherits s waits exc) (hw : ∀ w t, waits' w t ↔ waits w t) :
    Inherits s waits' exc :=
  h.transfer rfl rfl (fun _ ht => ht) hw h.ordered

/-- The exception is none any more. -/
theorem Inherits.fill (h : Inherits s waits (some task))
    (hleast : Live (s.tasks task) →
      IsLeast (claims (basePrio s) (prioOf s) waits task) (prioOf s task)) :
    Inherits s waits none where
  least t ht _ := by
    by_cases htt : t = task
    · rw [htt] at ht ⊢
      exact hleast ht
    · exact h.least t ht (by simpa using htt)
  ordered := h.ordered

/-- They are right but for one task if they are right. -/
theorem Inherits.weaken (h : Inherits s waits none) (exc : Option ℕ) : Inherits s waits exc :=
  ⟨fun t ht _ => h.least t ht (by simp), h.ordered⟩

/-- Who waits for no mutex. -/
theorem KernOk.not_waitsOn (hk : KernOk s del)
    (hnot : ∀ m, Pending (s.tasks task) → (s.tasks task).blkObj = some m →
      (s.objs m).objType ≠ .mutex) (t : ℕ) : ¬ WaitsOn s task t := by
  rintro ⟨m, hown, hmem⟩
  obtain ⟨hpend, hobj⟩ := hk.waiter hmem
  exact hnot m hpend hobj hown.1

/-- Who waits for a mutex waits for its owner alone. -/
theorem KernOk.waitsOn_iff {owner : ℕ} (hk : KernOk s del) (hpend : Pending (s.tasks task))
    (hobj : (s.tasks task).blkObj = some mutex) (htype : (s.objs mutex).objType = .mutex)
    (howner : (s.objs mutex).mutexTask = some owner) (t : ℕ) : WaitsOn s task t ↔ t = owner := by
  constructor
  · rintro ⟨m, hown, hmem⟩
    obtain ⟨-, hobj'⟩ := hk.waiter hmem
    obtain rfl : mutex = m := Option.some.inj (hobj.symm.trans hobj')
    exact owns_unique s t owner mutex hown ⟨htype, howner⟩
  · rintro rfl
    exact ⟨mutex, ⟨htype, howner⟩, (hk.membership.blk_iff task mutex).2 ⟨hpend, hobj⟩⟩

/-- Nobody waits for a mutex of his own. -/
theorem Owned.owner_ne {owner : ℕ} (ho : Owned s) (hk : KernOk s del) (hpend : Pending (s.tasks task))
    (hobj : (s.tasks task).blkObj = some mutex) (htype : (s.objs mutex).objType = .mutex)
    (howner : (s.objs mutex).mutexTask = some owner) : owner ≠ task := by
  rintro rfl
  exact ho.self owner mutex ⟨htype, howner⟩ ((hk.membership.blk_iff owner mutex).2 ⟨hpend, hobj⟩)

/-- **One round**: a task gets its priority, and at most the task it waits for has to follow. -/
theorem Inherits.round (h : Inherits s waits (some task)) (hframe : Frame s s₁)
    (hleast : IsLeast (claims (basePrio s) (prioOf s) waits task) newPri)
    (hprio : prioOf s₁ = Function.update (prioOf s) task newPri) (hself : ¬ waits task task)
    (hnext : ∀ t, waits task t → some t = exc) (hord : BlkOrdered s₁) : Inherits s₁ waits exc where
  least t ht hne := by
    have hnot : ¬ waits task t := fun hw => hne (hnext t hw)
    have hclaims : claims (basePrio s₁) (prioOf s₁) waits t =
        claims (basePrio s) (prioOf s) waits t := by
      apply claims_congr
      · rw [hframe.basePrio]
      · exact fun _ => Iff.rfl
      · intro w hw
        rw [hprio, Function.update_of_ne]
        rintro rfl
        exact hnot hw
    rw [hclaims]
    by_cases htt : t = task
    · subst htt
      rw [hprio, Function.update_self]
      exact hleast
    · rw [hprio, Function.update_of_ne htt]
      exact h.least t ((hframe.live t).1 ht) (by simpa using htt)
  ordered := hord

/-- A task that waits for no mutex gets a priority, and no mutex notices. -/
theorem BlkOrdered.setPrio (h : BlkOrdered s) (hk : KernOk s del)
    (hprio : prioOf s₁ = Function.update (prioOf s) task newPri)
    (hnot : ∀ m, Pending (s.tasks task) → (s.tasks task).blkObj = some m →
      (s.objs m).objType ≠ .mutex)
    (hobjs : ∀ m, (s₁.objs m).objType = .mutex → s₁.objs m = s.objs m) : BlkOrdered s₁ := by
  apply h.congr
  · intro m hm
    have heq := hobjs m hm
    rw [heq] at hm ⊢
    exact ⟨hm, rfl, List.Sublist.refl _⟩
  · intro m hm t ht
    have heq := hobjs m hm
    rw [heq] at hm ht
    rw [hprio, Function.update_of_ne]
    rintro rfl
    obtain ⟨hpend, hobj⟩ := hk.waiter ht
    exact hnot m hpend hobj hm

/-- The priorities after one task got another one. -/
theorem prioOf_setPrio
    (htasks : s₁.tasks = Function.update s.tasks task { s.tasks task with prio := newPri }) :
    prioOf s₁ = Function.update (prioOf s) task newPri := by
  funext t
  unfold prioOf
  rw [htasks, Function.update_apply, Function.update_apply]
  split
  · rfl
  · rfl

/-- A ready task gets its new priority. -/
theorem taskPriReady_eq (hc : taskPriReady s task newPri = some s₁) :
    s₁.tasks = Function.update s.tasks task { s.tasks task with prio := newPri } ∧
      s₁.objs = s.objs := by
  unfold taskPriReady at hc
  split at hc
  case h_1 => cases hc
  case h_2 s₂ hrm =>
    obtain ⟨rq, -, rfl⟩ := readyRm_cases hrm
    cases hc
    exact ⟨rfl, rfl⟩

/-- The priorities and the lists when a blocked task has its new priority. -/
theorem reordered_eq (hk : KernOk s del) (hpend : Pending (s.tasks task))
    (hobj : (s.tasks task).blkObj = some mutex) (newPri : ℕ) :
    prioOf (reordered s task newPri mutex) = Function.update (prioOf s) task newPri ∧
      (∀ m, m ≠ mutex → (reordered s task newPri mutex).objs m = s.objs m) ∧
      ((reordered s task newPri mutex).objs mutex).blkPolicy = (s.objs mutex).blkPolicy ∧
      ((s.objs mutex).blkPolicy = .pri → ((reordered s task newPri mutex).objs mutex).blkList =
        pendListAdd (prioOf (reordered s task newPri mutex)) task
          ((s.objs mutex).blkList.erase task)) := by
  set s₀ := s.setTask task { s.tasks task with prio := newPri } with hs₀
  have hobj₀ : (s₀.tasks task).blkObj = some mutex := by simpa [hs₀] using hobj
  have hmem : task ∈ (s₀.objs mutex).blkList := (hk.membership.blk_iff task mutex).2 ⟨hpend, hobj⟩
  obtain ⟨l, -, hl, heq⟩ := pendListReorder_objs hobj₀ hmem
  have hr : reordered s task newPri mutex = s₀.setObj mutex { s₀.objs mutex with blkList := l } := heq
  rw [hr]
  refine ⟨?_, ?_, ?_, ?_⟩
  · exact prioOf_setPrio rfl
  · intro m hm
    exact Function.update_of_ne hm _ _
  · rw [setObj_objs, Function.update_self]
    rfl
  · intro hpol
    rw [setObj_objs, Function.update_self]
    exact hl hpol

/-- The lists of mutexes when a blocked task has its new priority and its place. -/
theorem BlkOrdered.reordered (h : BlkOrdered s) (hk : KernOk s del) (hpend : Pending (s.tasks task))
    (hobj : (s.tasks task).blkObj = some mutex) : BlkOrdered (reordered s task newPri mutex) := by
  obtain ⟨hprio, hobjs, hpol, hlist⟩ := reordered_eq hk hpend hobj newPri
  have htype := (reordered_obj s task newPri mutex).1
  have hkeep : ∀ t, t ≠ task → prioOf (Rhino.reordered s task newPri mutex) t = prioOf s t := by
    intro t ht
    rw [hprio, Function.update_of_ne ht]
  constructor
  · intro m hm
    by_cases hmm : m = mutex
    · subst hmm
      rw [htype] at hm
      rw [hlist (h.policy m hm)]
      apply pendListAdd_sorted
      apply sorted_congr ((h.sorted m hm).sublist List.erase_sublist)
      intro t ht
      apply hkeep
      rintro rfl
      exact (hk.blk.nodup m).not_mem_erase ht
    · rw [hobjs m hmm] at hm ⊢
      apply sorted_congr (h.sorted m hm)
      intro t ht
      apply hkeep
      rintro rfl
      exact hmm (Option.some.inj ((hk.waiter ht).2.symm.trans hobj))
  · intro m hm
    by_cases hmm : m = mutex
    · subst hmm
      rw [hpol]
      exact h.policy m (htype ▸ hm)
    · rw [hobjs m hmm] at hm ⊢
      exact h.policy m hm

/-- What the search in a list of mutexes finds is the least of the claims. -/
theorem BlkOrdered.least_look {own : ℕ → ℕ → Prop} {p : ℕ} (h : BlkOrdered s)
    (hown : ∀ m, own task m → (s.objs m).objType = .mutex)
    (hleast : IsLeast (insert (s.tasks task).bPrio (waiterPrios s own task)) p) :
    IsLeast (claims (basePrio s) (prioOf s) (fun w t => ∃ m, own t m ∧ w ∈ (s.objs m).blkList) task)
      p := by
  apply least_claims_first
  · intro m hm
    exact h.sorted m (hown m hm)
  · exact hleast

/-- The search without a mutex to release. -/
theorem Owned.least_look {fuel p : ℕ} (ho : Owned s) (hord : BlkOrdered s)
    (hlive : Live (s.tasks task)) (hc : mutexPriLook fuel s task none = some (p, s₁)) :
    IsLeast (claims (basePrio s) (prioOf s) (WaitsOn s) task) p := by
  obtain ⟨-, hleast⟩ := OwnOk.look ho hlive (by simp) (by simp) hc
  have h := hord.least_look (fun m hm => hm.1.1) hleast
  rw [claims_congr rfl _ fun _ _ => rfl] at h
  · exact h
  · intro w
    simp [WaitsOn]

/-- The last round, when the task waits for no mutex. -/
theorem Inherits.lastRound (h : Inherits s waits (some task)) (hk : KernOk s del)
    (hwaits : ∀ w t, waits w t ↔ WaitsOn s w t ∨ extra w t) (hextra : ∀ t, ¬ extra task t)
    (hnot : ∀ m, Pending (s.tasks task) → (s.tasks task).blkObj = some m →
      (s.objs m).objType ≠ .mutex)
    (hleast : IsLeast (claims (basePrio s) (prioOf s) waits task) newPri) (hframe : Frame s s₁)
    (hprio : prioOf s₁ = Function.update (prioOf s) task newPri)
    (hobjs : ∀ m, (s₁.objs m).objType = .mutex → s₁.objs m = s.objs m) : Inherits s₁ waits none := by
  have hno : ∀ t, ¬ waits task t := by
    intro t hw
    obtain hw | hw := (hwaits task t).1 hw
    · exact hk.not_waitsOn hnot t hw
    · exact hextra t hw
  exact h.round hframe hleast hprio (hno task) (fun t hw => absurd hw (hno t))
    (h.ordered.setPrio hk hprio hnot hobjs)

/-- A round after which the owner of a mutex has to follow. -/
theorem Inherits.nextRound {owner : ℕ} (h : Inherits s waits (some task)) (hk : KernOk s del)
    (ho : Owned s) (hwaits : ∀ w t, waits w t ↔ WaitsOn s w t ∨ extra w t)
    (hextra : ∀ t, ¬ extra task t) (hpend : Pending (s.tasks task))
    (hobj : (s.tasks task).blkObj = some mutex) (htype : (s.objs mutex).objType = .mutex)
    (howner : (s.objs mutex).mutexTask = some owner)
    (hleast : IsLeast (claims (basePrio s) (prioOf s) waits task) newPri) :
    Inherits (reordered s task newPri mutex) waits (some owner) := by
  have hiff : ∀ t, waits task t ↔ t = owner := by
    intro t
    rw [hwaits, hk.waitsOn_iff hpend hobj htype howner]
    exact or_iff_left (hextra t)
  apply h.round (reordered_frame hk hpend hobj).1 hleast (reordered_eq hk hpend hobj newPri).1
  · rw [hiff]
    exact (ho.owner_ne hk hpend hobj htype howner).symm
  · intro t hw
    rw [(hiff t).1 hw]
  · exact h.ordered.reordered hk hpend hobj

/-- **A change of priority along the chain of owners.** The task that comes first has a priority to
take that is the least of its claims. Tasks that are about to wait are `extra`: they are as urgent as
the new priority, and none of them is in the chain. -/
theorem PriChange.inherits (hc : PriChange s task newPri s') (hk : KernOk s del) (ho : Owned s)
    (hp : newPri < priMax) (hwaits : ∀ w t, waits w t ↔ WaitsOn s w t ∨ extra w t)
    (hextra : ∀ w t, extra w t → newPri < prioOf s task ∧ prioOf s w = newPri)
    (h : Inherits s waits (some task))
    (hleast : Live (s.tasks task) → IsLeast (claims (basePrio s) (prioOf s) waits task) newPri) :
    Inherits s' waits none := by
  induction hc with
  | @same s task newPri hprio =>
    apply h.fill
    intro hlive
    unfold prioOf
    rw [hprio]
    exact hleast hlive
  | @ready s s' task newPri hprio hstate hready =>
    obtain ⟨htasks, hobjs⟩ := taskPriReady_eq hready
    refine h.lastRound hk hwaits (fun t ht => hprio (hextra _ _ ht).2) ?_
      (hleast (by simp [Live, hstate])) (taskPriReady_frame hready).1 (prioOf_setPrio htasks) ?_
    · intro m hpend
      simp [Pending, hstate] at hpend
    · intro m _
      rw [hobjs]
  | @still s task newPri hprio hstate =>
    have hnpend : ¬ Pending (s.tasks task) := by
      obtain hs | hs | hs := hstate
      all_goals simp [Pending, hs]
    have hlive : Live (s.tasks task) := by
      obtain hs | hs | hs := hstate
      all_goals simp [Live, hs]
    exact h.lastRound hk hwaits (fun t ht => hprio (hextra _ _ ht).2)
      (fun m hpend => absurd hpend hnpend) (hleast hlive) (frame_setPrio s task newPri).1
      (prioOf_setPrio rfl) (fun _ _ => rfl)
  | @blocked s task newPri obj hprio hpend hobj htype =>
    obtain ⟨hprio', hobjs, -, -⟩ := reordered_eq hk hpend hobj newPri
    refine h.lastRound hk hwaits (fun t ht => hprio (hextra _ _ ht).2) ?_
      (hleast (pending_live hpend)) (reordered_frame hk hpend hobj).1 hprio' ?_
    · intro m _ hm
      rw [hobj] at hm
      cases hm
      exact htype
    · intro m hm
      apply hobjs
      rintro rfl
      rw [(reordered_obj s task newPri m).1] at hm
      exact htype hm
  | @raise s s' task newPri obj owner hprio hpend hobj htype howner hlt hrest ih =>
    have hnot : ∀ t, ¬ extra task t := fun t ht => hprio (hextra _ _ ht).2
    obtain ⟨hframe, hlinks⟩ := @reordered_frame s del task newPri obj hk hpend hobj
    have hprio' := (reordered_eq hk hpend hobj newPri).1
    have hwait : waits task owner :=
      (hwaits task owner).2 (.inl ((hk.waitsOn_iff hpend hobj htype howner owner).2 rfl))
    have hself : owner ≠ task := ho.owner_ne hk hpend hobj htype howner
    have hold : prioOf (reordered s task newPri obj) owner = prioOf s owner := by
      rw [hprio', Function.update_of_ne hself]
    refine ih (reordered_ok hk hp hpend hobj) (ho.same (hframe.sameOwn hlinks)) hp ?_ ?_
      (h.nextRound hk ho hwaits hnot hpend hobj htype howner (hleast (pending_live hpend))) ?_
    · intro w t
      rw [hwaits, hframe.waitsOn]
    · intro w t hw
      refine ⟨hlt, ?_⟩
      rw [hprio', Function.update_of_ne]
      · exact (hextra w t hw).2
      · rintro rfl
        exact hnot t hw
    · intro _
      rw [hframe.basePrio, hprio']
      have howner := h.least owner (ho.live owner obj ⟨htype, howner⟩) (by simpa using hself)
      apply least_claims_raise howner hwait
      rw [← hold]
      exact hlt
  | @look s s' task newPri obj owner fuel lookPri hprio hpend hobj htype howner hle heq hlook hrest ih =>
    -- the owner has the old priority of the task, so the new one is less urgent
    have hnone : ∀ w t, ¬ extra w t := by
      intro w t hw
      have hlt : newPri < (s.tasks task).prio := (hextra w t hw).1
      omega
    obtain ⟨hframe, hlinks⟩ := @reordered_frame s del task newPri obj hk hpend hobj
    have hk' : KernOk (reordered s task newPri obj) del := reordered_ok hk hp hpend hobj
    have ho' : Owned (reordered s task newPri obj) := ho.same (hframe.sameOwn hlinks)
    have h' := h.nextRound hk ho hwaits (hnone task) hpend hobj htype howner
      (hleast (pending_live hpend))
    have hwaits' : ∀ w t, waits w t ↔ WaitsOn (reordered s task newPri obj) w t ∨ extra w t := by
      intro w t
      rw [hwaits, hframe.waitsOn]
    refine ih hk' ho' (mutexPriLook_ok hk' hlook).2 hwaits'
      (fun w t hw => absurd hw (hnone w t)) h' ?_
    intro hlive
    have hfound := ho'.least_look h'.ordered hlive hlook
    rw [claims_congr rfl _ fun _ _ => rfl]
    · exact hfound
    · intro w
      rw [hwaits']
      exact or_iff_left (hnone w owner)
  | @stop s task newPri obj owner hprio hpend hobj htype howner hle hne =>
    have hprio' := (reordered_eq hk hpend hobj newPri).1
    have hself : owner ≠ task := ho.owner_ne hk hpend hobj htype howner
    have hold : prioOf (reordered s task newPri obj) owner = prioOf s owner := by
      rw [hprio', Function.update_of_ne hself]
    apply (h.nextRound hk ho hwaits (fun t ht => hprio (hextra _ _ ht).2) hpend hobj htype howner
      (hleast (pending_live hpend))).fill
    intro _
    rw [hold, (reordered_frame hk hpend hobj).1.basePrio, hprio']
    apply least_claims_keep
    · exact h.least owner (ho.live owner obj ⟨htype, howner⟩) (by simpa using hself)
    · rw [← hold]
      exact hne
    · rw [← hold]
      exact hle

/-- A change of priority along the chain makes the one that was wrong right. -/
theorem PriChange.inherits_waitsOn (hc : PriChange s task newPri s') (hk : KernOk s del)
    (ho : Owned s) (hp : newPri < priMax) (h : Inherits s (WaitsOn s) (some task))
    (hleast : Live (s.tasks task) →
      IsLeast (claims (basePrio s) (prioOf s) (WaitsOn s) task) newPri) :
    Inherits s' (WaitsOn s') none := by
  have h' : Inherits s' (WaitsOn s) none :=
    @PriChange.inherits s s' del task newPri (WaitsOn s) (fun _ _ => False) hc hk ho hp (by simp)
      (by simp) h hleast
  exact h'.waits_congr (hc.frame hk hp).1.waitsOn

/-- A task whose claims have changed gets its priority anew. -/
theorem mutexRelease_inherits {fuel : ℕ} (hk : KernOk s del) (ho : Owned s)
    (h : Inherits s (WaitsOn s) (some task)) (hc : mutexRelease fuel s task none = some s') :
    Inherits s' (WaitsOn s') none := by
  obtain ⟨newPri, s₁, hlook, hchange⟩ := mutexRelease_cases hc
  obtain rfl : s₁ = s := mutexPriLookLoop_none hlook
  exact hchange.inherits_waitsOn hk ho (mutexPriLook_ok hk hlook).2 h
    (fun hlive => ho.least_look h.ordered hlive hlook)

end Rounds

end GenieSdk.Analysis.Rhino
