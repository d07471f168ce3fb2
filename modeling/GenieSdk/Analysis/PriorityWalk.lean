import GenieSdk.Analysis.PriorityInheritance
import GenieSdk.Analysis.LiveTasks

/-!
# The walk of `task_pri_change`

`task_pri_change` gives one task after the other a priority. Each round goes on with the owner of
the mutex that its task waits for. A round that raises leaves one task less that is to be raised, a
round that lowers leaves one task less with the old priority, and lowering can turn into raising
but not back. So the walk ends also where tasks wait for each other in a circle, and then every
waiter that it has passed has handed its priority on.
-/

set_option autoImplicit false

namespace GenieSdk.Analysis.Rhino

open GenieSdk.Model.Rhino
open GenieSdk.Lib

/-- One round of the loop: the state after it, and the task and the priority of the next round. -/
def priRound (fuel : ℕ) (s : Kern) (task newPri : ℕ) : Option (Kern × Option (ℕ × ℕ)) :=
  if (s.tasks task).prio = newPri then some (s, none)
  else
    match (s.tasks task).taskState with
    | .rdy => (taskPriReady s task newPri).map fun s => (s, none)
    | .sleep => some (s.setTask task { s.tasks task with prio := newPri }, none)
    | .suspended => some (s.setTask task { s.tasks task with prio := newPri }, none)
    | .sleepSuspended => some (s.setTask task { s.tasks task with prio := newPri }, none)
    | .seed => none
    | .deleted => none
    | _ =>
      let oldPri := (s.tasks task).prio
      match (s.tasks task).blkObj with
      | none => none
      | some obj =>
        let s := reordered s task newPri obj
        if (s.objs obj).objType = .mutex then
          match (s.objs obj).mutexTask with
          | none => none
          | some mutexTask =>
            if newPri < (s.tasks mutexTask).prio then some (s, some (mutexTask, newPri))
            else if (s.tasks mutexTask).prio = oldPri then
              (mutexPriLook fuel s mutexTask none).map fun r =>
                (r.2, if r.1 ≠ (r.2.tasks mutexTask).prio then some (mutexTask, r.1) else none)
            else some (s, none)
        else some (s, none)

/-- **The loop is a sequence of rounds.** -/
theorem taskPriChange_round (fuel : ℕ) (s : Kern) (task newPri : ℕ) :
    taskPriChange (fuel + 1) s task newPri =
      match priRound fuel s task newPri with
      | none => none
      | some (s, none) => some s
      | some (s, some (task, newPri)) => taskPriChange fuel s task newPri := by
  rw [taskPriChange]
  unfold priRound
  split
  case isTrue => rfl
  case isFalse =>
    cases hs : (s.tasks task).taskState with
    | rdy =>
      simp only
      cases taskPriReady s task newPri with
      | none => rfl
      | some s₁ => rfl
    | seed => rfl
    | deleted => rfl
    | sleep => rfl
    | suspended => rfl
    | sleepSuspended => rfl
    | pend | pendSuspended =>
      obtain hobj | ⟨obj, hobj⟩ := Option.eq_none_or_eq_some (s.tasks task).blkObj
      · simp only [hobj]
      · simp only [hobj, reordered]
        generalize pendListReorder _ obj task = s₁
        by_cases htype : (s₁.objs obj).objType = .mutex
        · simp only [if_pos htype]
          cases (s₁.objs obj).mutexTask with
          | none => rfl
          | some mutexTask =>
            by_cases hlt : newPri < (s₁.tasks mutexTask).prio
            · simp only [if_pos hlt]
            · simp only [if_neg hlt]
              by_cases heq : (s₁.tasks mutexTask).prio = (s.tasks task).prio
              · simp only [if_pos heq]
                cases mutexPriLook fuel s₁ mutexTask none with
                | none => rfl
                | some r =>
                  simp only [Option.map_some]
                  split
                  case isTrue => rfl
                  case isFalse => rfl
              · simp only [if_neg heq]
        · simp only [if_neg htype]

/-- The lists, the owners and the order of the waiters are as they should be. -/
structure ChainOk (s : Kern) : Prop where
  ok : KernOk s none
  own : Owned s
  ordered : BlkOrdered s

/-- The task has its new priority and its place in the list it is in. -/
structure Given (s : Kern) (task newPri : ℕ) (s₁ : Kern) : Prop where
  chain : ChainOk s₁
  frame : Frame s s₁
  prio : prioOf s₁ = Function.update (prioOf s) task newPri

/-- **What one round does**: nothing if the task has the priority already, and otherwise the task
gets it. The walk goes on with the owner of the mutex that the task waits for, if there is one: if
the owner is less urgent, or if it has the priority that the task has had and now gets another. -/
inductive Round (s : Kern) (task newPri : ℕ) : Kern → Option (ℕ × ℕ) → Prop
  | same (hprio : prioOf s task = newPri) : Round s task newPri s none
  | free {s₁ : Kern} (hgiven : Given s task newPri s₁) (hno : ∀ t, ¬ WaitsOn s task t) :
    Round s task newPri s₁ none
  | raise {s₁ : Kern} {owner : ℕ} (hgiven : Given s task newPri s₁)
    (hwaits : ∀ t, WaitsOn s task t ↔ t = owner) (hself : owner ≠ task)
    (hlt : newPri < prioOf s owner) : Round s task newPri s₁ (some (owner, newPri))
  | look {s₁ : Kern} {owner lookPri : ℕ} {next : Option (ℕ × ℕ)} (hgiven : Given s task newPri s₁)
    (hwaits : ∀ t, WaitsOn s task t ↔ t = owner) (hself : owner ≠ task)
    (hlt : prioOf s task < newPri) (heq : prioOf s owner = prioOf s task)
    (hleast : IsLeast (claims (basePrio s₁) (prioOf s₁) (WaitsOn s₁) owner) lookPri)
    (hnext : next = if lookPri ≠ prioOf s owner then some (owner, lookPri) else none) :
    Round s task newPri s₁ next
  | stop {s₁ : Kern} {owner : ℕ} (hgiven : Given s task newPri s₁)
    (hwaits : ∀ t, WaitsOn s task t ↔ t = owner) (hself : owner ≠ task)
    (hle : prioOf s owner ≤ newPri) (hne : prioOf s owner ≠ prioOf s task) :
    Round s task newPri s₁ none

section Rounds

variable {s s' s₁ : Kern} {next : Option (ℕ × ℕ)} {task newPri fuel : ℕ}

/-- A frame keeps the owners. -/
theorem ChainOk.given (h : ChainOk s) (hframe : Frame s s₁ ∧ SameLinks s s₁) (hk : KernOk s₁ none)
    (hord : BlkOrdered s₁) (hprio : prioOf s₁ = Function.update (prioOf s) task newPri) :
    Given s task newPri s₁ :=
  ⟨⟨hk, h.own.same (hframe.1.sameOwn hframe.2), hord⟩, hframe.1, hprio⟩

/-- A task that waits for no mutex gets its priority. -/
theorem ChainOk.roundFree (h : ChainOk s) (hframe : Frame s s₁ ∧ SameLinks s s₁)
    (hk : KernOk s₁ none) (hprio : prioOf s₁ = Function.update (prioOf s) task newPri)
    (hnot : ∀ m, Pending (s.tasks task) → (s.tasks task).blkObj = some m →
      (s.objs m).objType ≠ .mutex)
    (hobjs : ∀ m, (s₁.objs m).objType = .mutex → s₁.objs m = s.objs m) :
    Round s task newPri s₁ none := by
  have hord : BlkOrdered s₁ := h.ordered.setPrio h.ok hprio hnot hobjs
  exact .free (h.given hframe hk hord hprio) (h.ok.not_waitsOn hnot)

/-- A blocked task has its new priority. -/
theorem ChainOk.reordered {obj : ℕ} (h : ChainOk s) (hp : newPri < priMax)
    (hpend : Pending (s.tasks task)) (hobj : (s.tasks task).blkObj = some obj) :
    Given s task newPri (reordered s task newPri obj) :=
  h.given (reordered_frame h.ok hpend hobj) (reordered_ok h.ok hp hpend hobj)
    (h.ordered.reordered h.ok hpend hobj) (reordered_eq h.ok hpend hobj newPri).1

/-- Of the states that a task can be in, two are waits. -/
theorem pending_of {t : KTask} (hrdy : t.taskState ≠ .rdy) (hsleep : t.taskState ≠ .sleep)
    (hsusp : t.taskState ≠ .suspended) (hboth : t.taskState ≠ .sleepSuspended)
    (hseed : t.taskState ≠ .seed) (hdel : t.taskState ≠ .deleted) : Pending t := by
  unfold Pending
  cases hs : t.taskState <;> simp_all

/-- A task that neither runs nor waits gets its priority. -/
theorem ChainOk.roundStill (h : ChainOk s) (hp : newPri < priMax)
    (hstate : (s.tasks task).taskState = .sleep ∨ (s.tasks task).taskState = .suspended ∨
      (s.tasks task).taskState = .sleepSuspended) :
    Round s task newPri (s.setTask task { s.tasks task with prio := newPri }) none := by
  have hnrdy : (s.tasks task).taskState ≠ .rdy := by
    obtain hs | hs | hs := hstate
    all_goals simp [hs]
  have hnpend : ¬ Pending (s.tasks task) := by
    obtain hs | hs | hs := hstate
    all_goals simp [Pending, hs]
  exact h.roundFree (frame_setPrio s task newPri) (h.ok.setPrio hp hnrdy) (prioOf_setPrio rfl)
    (fun m hpend => absurd hpend hnpend) fun _ _ => rfl

/-- **A round that ends does what `Round` says.** -/
theorem priRound_sound (h : ChainOk s) (hp : newPri < priMax)
    (hc : priRound fuel s task newPri = some (s₁, next)) : Round s task newPri s₁ next := by
  unfold priRound at hc
  split at hc
  case isTrue hprio =>
    cases hc
    exact .same hprio
  case isFalse hprio =>
    split at hc
    case h_1 hs =>
      obtain ⟨s₂, hready, heq⟩ := Option.map_eq_some_iff.1 hc
      cases heq
      obtain ⟨htasks, hobjs⟩ := taskPriReady_eq hready
      refine h.roundFree (taskPriReady_frame hready) (taskPriReady_ok h.ok hp hs hready)
        (prioOf_setPrio htasks) ?_ fun m _ => by rw [hobjs]
      intro m hpend
      simp [Pending, hs] at hpend
    case h_2 hs =>
      cases hc
      exact h.roundStill hp (.inl hs)
    case h_3 hs =>
      cases hc
      exact h.roundStill hp (.inr (.inl hs))
    case h_4 hs =>
      cases hc
      exact h.roundStill hp (.inr (.inr hs))
    case h_5 => cases hc
    case h_6 => cases hc
    case h_7 h1 h2 h3 h4 h5 h6 =>
      have hpend : Pending (s.tasks task) := pending_of h1 h2 h3 h4 h5 h6
      obtain ⟨obj, hobj⟩ := (h.ok.tasks task).blkObj hpend
      have hgiven := @ChainOk.reordered s task newPri obj h hp hpend hobj
      obtain ⟨htype, howner⟩ := reordered_obj s task newPri obj
      simp only [hobj] at hc
      by_cases hmutex : (s.objs obj).objType = .mutex
      · rw [if_pos (htype.trans hmutex)] at hc
        split at hc
        case h_1 => cases hc
        case h_2 owner hread =>
          have hown : (s.objs obj).mutexTask = some owner := howner.symm.trans hread
          have hwaits := h.ok.waitsOn_iff hpend hobj hmutex hown
          have hself : owner ≠ task := h.own.owner_ne h.ok hpend hobj hmutex hown
          have hold : ((reordered s task newPri obj).tasks owner).prio = prioOf s owner := by
            change prioOf (reordered s task newPri obj) owner = prioOf s owner
            rw [hgiven.prio, Function.update_of_ne hself]
          rw [hold] at hc
          split at hc
          case isTrue hlt =>
            cases hc
            exact .raise hgiven hwaits hself hlt
          case isFalse hge =>
            split at hc
            case isTrue heq =>
              obtain ⟨⟨lookPri, s₂⟩, hlook, hr⟩ := Option.map_eq_some_iff.1 hc
              obtain rfl : s₂ = reordered s task newPri obj := mutexPriLookLoop_none hlook
              cases hr
              have hlive : Live ((reordered s task newPri obj).tasks owner) :=
                (hgiven.frame.live owner).2 (h.own.live owner obj ⟨hmutex, hown⟩)
              have hleast := hgiven.chain.own.least_look hgiven.chain.ordered hlive hlook
              have hlt : prioOf s task < newPri := by
                have heq' : prioOf s owner = prioOf s task := heq
                have hne : prioOf s task ≠ newPri := hprio
                omega
              refine .look hgiven hwaits hself hlt heq hleast ?_
              simp only [hold]
            case isFalse hne =>
              cases hc
              exact .stop hgiven hwaits hself (not_lt.1 hge) hne
      · rw [if_neg (fun hm => hmutex (htype.symm.trans hm))] at hc
        cases hc
        refine .free hgiven (h.ok.not_waitsOn ?_)
        intro m _ hm
        obtain rfl : obj = m := Option.some.inj (hobj.symm.trans hm)
        exact hmutex

/-- The search along a list that ends. -/
theorem mutexPriLookLoop_total {l : List ℕ} {prev : MutexListPtr} (pri newPri : ℕ)
    (hl : SList (links s) (s.readPtr prev) l) :
    ∃ p, ∀ fuel > l.length, mutexPriLookLoop none fuel s prev pri newPri = some (p, s) := by
  induction l generalizing prev pri newPri with
  | nil =>
    refine ⟨newPri, fun fuel hfuel => ?_⟩
    obtain ⟨n, rfl⟩ := Nat.exists_eq_add_of_lt hfuel
    unfold mutexPriLookLoop
    rw [show s.readPtr prev = none from hl]
  | cons a l ih =>
    obtain ⟨hread, hrest⟩ := hl
    obtain ⟨p, hloop⟩ := @ih (.ofMutex a) (firstBlkPrio s a pri)
      (if firstBlkPrio s a pri < newPri then firstBlkPrio s a pri else newPri) hrest
    refine ⟨p, fun fuel hfuel => ?_⟩
    cases fuel with
    | zero => cases hfuel
    | succ fuel =>
      unfold mutexPriLookLoop
      rw [hread]
      simp only [reduceCtorEq, if_false]
      exact hloop fuel (Nat.lt_of_succ_lt_succ hfuel)

/-- If the given task or an owner is the last ready one, then another task is ready: the idle task,
when it neither is given nor owns a mutex. -/
def NotLastReady (s : Kern) (task : ℕ) : Prop :=
  ∀ t, (s.tasks t).taskState = .rdy → (t = task ∨ ∃ m, Owns s t m) →
    ∃ u, u ≠ t ∧ (s.tasks u).taskState = .rdy

/-- What holds of a task and the owners holds of the owner of a mutex. -/
theorem NotLastReady.owner {owner mutex : ℕ} (h : NotLastReady s task) (hframe : Frame s s₁)
    (hown : Owns s owner mutex) : NotLastReady s₁ owner := by
  intro t ht hcases
  rw [hframe.task] at ht
  obtain ⟨u, hne, hu⟩ := h t ht (.inr (by
    obtain rfl | ⟨m, hm⟩ := hcases
    · exact ⟨mutex, hown⟩
    · exact ⟨m, (hframe.owns t m).1 hm⟩))
  refine ⟨u, hne, ?_⟩
  rw [hframe.task]
  exact hu

/-- A ready task that is not the last one can change its list. -/
theorem taskPriReady_total (h : KernOk s none) (hready : NotLastReady s task)
    (hs : (s.tasks task).taskState = .rdy) : ∃ s', taskPriReady s task newPri = some s' := by
  obtain ⟨u, hne, hu⟩ := hready task hs (.inl rfl)
  obtain ⟨rq, hrq⟩ := h.rq.rm_total (by simp [readyPrio, hs]; rfl)
    (u := u) (q := (s.tasks u).prio) (by simp [readyPrio, hu]) hne
  unfold taskPriReady Kern.readyRm
  rw [hrq]
  exact ⟨_, rfl⟩

/-- **Every round ends**, whatever fuel there is beyond some bound. -/
theorem priRound_total (h : ChainOk s) (hp : newPri < priMax) (hlive : Live (s.tasks task))
    (hready : NotLastReady s task) :
    ∃ n r, ∀ fuel ≥ n, priRound fuel s task newPri = some r := by
  unfold priRound
  split
  case isTrue => exact ⟨0, _, fun _ _ => rfl⟩
  case isFalse =>
    split
    case h_1 hs =>
      obtain ⟨s', hs'⟩ := @taskPriReady_total s task newPri h.ok hready hs
      rw [hs']
      exact ⟨0, _, fun _ _ => rfl⟩
    case h_2 => exact ⟨0, _, fun _ _ => rfl⟩
    case h_3 => exact ⟨0, _, fun _ _ => rfl⟩
    case h_4 => exact ⟨0, _, fun _ _ => rfl⟩
    case h_5 hs => exact absurd hs hlive.1
    case h_6 hs => exact absurd hs hlive.2
    case h_7 h1 h2 h3 h4 h5 h6 =>
      have hpend : Pending (s.tasks task) := pending_of h1 h2 h3 h4 h5 h6
      obtain ⟨obj, hobj⟩ := (h.ok.tasks task).blkObj hpend
      have hgiven := @ChainOk.reordered s task newPri obj h hp hpend hobj
      obtain ⟨htype, howner⟩ := reordered_obj s task newPri obj
      simp only [hobj]
      split
      case isFalse => exact ⟨0, _, fun _ _ => rfl⟩
      case isTrue hmutex =>
        have hmem : task ∈ (s.objs obj).blkList := (h.ok.membership.blk_iff task obj).2 ⟨hpend, hobj⟩
        split
        case h_1 hnone =>
          rw [htype] at hmutex
          rw [howner] at hnone
          rw [h.own.free obj hmutex hnone] at hmem
          cases hmem
        case h_2 owner hread =>
          split
          case isTrue => exact ⟨0, _, fun _ _ => rfl⟩
          case isFalse =>
            split
            case isFalse => exact ⟨0, _, fun _ _ => rfl⟩
            case isTrue =>
              have hlive' := hgiven.chain.own.live owner obj ⟨hmutex, hread⟩
              obtain ⟨l, hl, -, -⟩ := hgiven.chain.own.chain owner hlive' (by simp)
              obtain ⟨p, hlook⟩ := @mutexPriLookLoop_total _ l (.ofTask owner)
                ((reordered s task newPri obj).tasks owner).bPrio
                ((reordered s task newPri obj).tasks owner).bPrio hl
              refine ⟨l.length + 1, (reordered s task newPri obj,
                if p ≠ ((reordered s task newPri obj).tasks owner).prio then some (owner, p)
                else none), fun fuel hfuel => ?_⟩
              rw [mutexPriLook, hlook fuel hfuel]
              rfl

end Rounds

section Ends

variable {s s' s₁ : Kern} {task newPri owner p fuel : ℕ} {l : Finset ℕ}

/-- Every claim is a priority. -/
theorem KernOk.claims_lt {q : ℕ} (h : KernOk s none)
    (hq : q ∈ claims (basePrio s) (prioOf s) (WaitsOn s) task) : q < priMax := by
  obtain rfl | ⟨w, -, rfl⟩ := hq
  · exact (h.tasks task).bPrio_lt
  · exact (h.tasks w).prio_lt

/-- Where the next round starts. -/
theorem Round.start (hr : Round s task newPri s₁ (some (owner, p))) (hp : newPri < priMax) :
    Given s task newPri s₁ ∧ p < priMax ∧ ∃ m, Owns s owner m := by
  cases hr with
  | raise hgiven hwaits hself hlt =>
    obtain ⟨m, hm, -⟩ := (hwaits owner).2 rfl
    exact ⟨hgiven, hp, m, hm⟩
  | look hgiven hwaits hself hlt heq hleast hnext =>
    split at hnext
    case isFalse => cases hnext
    case isTrue =>
      cases hnext
      obtain ⟨m, hm, -⟩ := (hwaits owner).2 rfl
      exact ⟨hgiven, hgiven.chain.ok.claims_lt hleast.1, m, hm⟩

/-- A round uses up a part of the walk. -/
theorem Round.shrinks (hr : Round s task newPri s₁ (some (owner, p))) (ht : task ∈ l) :
    walkSize l (prioOf s₁) owner p < walkSize l (prioOf s) task newPri := by
  cases hr with
  | raise hgiven hwaits hself hlt =>
    rw [hgiven.prio]
    apply walkSize_raise ht
    rw [Function.update_of_ne hself]
    exact hlt
  | look hgiven hwaits hself hlt heq hleast hnext =>
    split at hnext
    case isFalse => cases hnext
    case isTrue =>
      cases hnext
      rw [hgiven.prio]
      exact walkSize_lower ht hlt hself heq

/-- **The loop ends**, as there are finitely many tasks. The induction is on what is left of the
walk. -/
theorem taskPriChange_total (h : ChainOk s) (hp : newPri < priMax) (hlive : Live (s.tasks task))
    (hready : NotLastReady s task) (hl : ∀ t, Live (s.tasks t) → t ∈ l) :
    ∃ n s', ∀ fuel ≥ n, taskPriChange fuel s task newPri = some s' := by
  induction hsize : walkSize l (prioOf s) task newPri using Nat.strong_induction_on
    generalizing s task newPri with
  | h k ih =>
    obtain ⟨n, ⟨s₁, next⟩, hround⟩ := priRound_total h hp hlive hready
    have hr := priRound_sound h hp (hround n le_rfl)
    cases next with
    | none =>
      refine ⟨n + 1, s₁, fun fuel hfuel => ?_⟩
      obtain ⟨f, rfl⟩ : ∃ f, fuel = f + 1 := ⟨fuel - 1, by omega⟩
      rw [taskPriChange_round, hround f (by omega)]
    | some r =>
      obtain ⟨owner, p⟩ := r
      obtain ⟨hgiven, hp₁, m, hm⟩ := hr.start hp
      have hsmaller := hr.shrinks (hl task hlive)
      rw [hsize] at hsmaller
      obtain ⟨n₁, s', hrest⟩ := ih _ hsmaller hgiven.chain hp₁
        ((hgiven.frame.live owner).2 (h.own.live owner m hm)) (hready.owner hgiven.frame hm)
        (fun t ht => hl t ((hgiven.frame.live t).1 ht)) rfl
      refine ⟨max n n₁ + 1, s', fun fuel hfuel => ?_⟩
      obtain ⟨f, rfl⟩ : ∃ f, fuel = f + 1 := ⟨fuel - 1, by omega⟩
      rw [taskPriChange_round, hround f (by omega)]
      exact hrest f (by omega)

end Ends

/-- The tasks that the rounds give a priority, in their order. -/
def priWalk : ℕ → Kern → ℕ → ℕ → List ℕ
  | 0, _, _, _ => []
  | fuel + 1, s, task, newPri =>
    task ::
      match priRound fuel s task newPri with
      | some (s, some (task, newPri)) => priWalk fuel s task newPri
      | _ => []

/-- Before a round: with the new priority of `task`, every task but `x` has the least of its claims,
and `x` is as urgent as those of the tasks `W` that wait for it. -/
structure Passing (x : ℕ) (W : Set ℕ) (s : Kern) (task newPri : ℕ) : Prop where
  least : ∀ t, Live (s.tasks t) → t ≠ x →
    IsLeast (claims (basePrio s) (prioOf s) (WaitsOn s) t) (Function.update (prioOf s) task newPri t)
  passed : ∀ w ∈ W, w ≠ task → WaitsOn s w x →
    Function.update (prioOf s) task newPri x ≤ prioOf s w
  first : prioOf s task = newPri → task = x

/-- After the walk. -/
structure Restored (x : ℕ) (W : Set ℕ) (s : Kern) : Prop where
  least : ∀ t, Live (s.tasks t) → t ≠ x →
    IsLeast (claims (basePrio s) (prioOf s) (WaitsOn s) t) (prioOf s t)
  passed : ∀ w ∈ W, WaitsOn s w x → prioOf s x ≤ prioOf s w

section Restores

variable {s s' s₁ : Kern} {task newPri owner p fuel x : ℕ} {W : Set ℕ}

/-- The claims on a task with one priority changed. -/
theorem Given.claims_eq (h : Given s task newPri s₁) (t : ℕ) :
    claims (basePrio s₁) (prioOf s₁) (WaitsOn s₁) t =
      claims (basePrio s) (Function.update (prioOf s) task newPri) (WaitsOn s) t := by
  rw [h.prio]
  apply claims_congr
  · rw [h.frame.basePrio]
  · exact fun w => h.frame.waitsOn w t
  · exact fun _ _ => rfl

/-- Whom the task does not wait for. -/
theorem Passing.others (h : Passing x W s task newPri) (hgiven : Given s task newPri s₁) {t : ℕ}
    (ht : Live (s₁.tasks t)) (hx : t ≠ x) (hno : ¬ WaitsOn s task t) :
    IsLeast (claims (basePrio s₁) (prioOf s₁) (WaitsOn s₁) t) (prioOf s₁ t) := by
  have hclaims : claims (basePrio s) (Function.update (prioOf s) task newPri) (WaitsOn s) t =
      claims (basePrio s) (prioOf s) (WaitsOn s) t := by
    refine claims_congr rfl (fun _ => Iff.rfl) fun w hw => ?_
    apply Function.update_of_ne
    rintro rfl
    exact hno hw
  rw [hgiven.claims_eq, hclaims, hgiven.prio]
  exact h.least t ((hgiven.frame.live t).1 ht) hx

/-- The tasks that were passed before. -/
theorem Passing.earlier (h : Passing x W s task newPri) (hgiven : Given s task newPri s₁) {w : ℕ}
    (hW : w ∈ W) (hne : w ≠ task) (hw : WaitsOn s₁ w x) : prioOf s₁ x ≤ prioOf s₁ w := by
  rw [hgiven.prio, Function.update_of_ne hne]
  exact h.passed w hW hne ((hgiven.frame.waitsOn w x).1 hw)

/-- The task does not wait for `x`. -/
theorem Passing.elsewhere (h : Passing x W s task newPri) (hgiven : Given s task newPri s₁) {w : ℕ}
    (hno : ¬ WaitsOn s task x) (hW : w ∈ insert task W) (hw : WaitsOn s₁ w x) :
    prioOf s₁ x ≤ prioOf s₁ w := by
  have hne : w ≠ task := by
    rintro rfl
    exact hno ((hgiven.frame.waitsOn w x).1 hw)
  obtain rfl | hW := hW
  · exact absurd rfl hne
  · exact h.earlier hgiven hW hne hw

/-- A round that hands the priority on makes it the least claim on the owner. -/
theorem Passing.raised (h : Passing x W s task newPri) (hgiven : Given s task newPri s₁)
    (hlive : Live (s₁.tasks owner)) (hx : owner ≠ x) (hself : owner ≠ task)
    (hwait : WaitsOn s task owner) (hlt : newPri < prioOf s owner) :
    IsLeast (claims (basePrio s₁) (prioOf s₁) (WaitsOn s₁) owner) newPri := by
  have hleast := h.least owner ((hgiven.frame.live owner).1 hlive) hx
  rw [Function.update_of_ne hself] at hleast
  rw [hgiven.claims_eq]
  exact least_claims_raise hleast hwait hlt

/-- **A round after which another comes.** -/
theorem Round.passes (hr : Round s task newPri s₁ (some (owner, p)))
    (h : Passing x W s task newPri) : Passing x (insert task W) s₁ owner p := by
  cases hr with
  | raise hgiven hwaits hself hlt =>
    have hprio : prioOf s₁ owner = prioOf s owner := by
      rw [hgiven.prio, Function.update_of_ne hself]
    refine ⟨?_, ?_, fun heq => ?_⟩
    · intro t ht hx
      by_cases hto : t = owner
      · subst hto
        rw [Function.update_self]
        exact h.raised hgiven ht hx hself ((hwaits t).2 rfl) hlt
      · rw [Function.update_of_ne hto]
        exact h.others hgiven ht hx fun hw => hto ((hwaits t).1 hw)
    · rintro w hW hne hw
      by_cases hxo : x = owner
      · subst hxo
        rw [Function.update_self]
        obtain rfl | hW := hW
        · rw [hgiven.prio, Function.update_self]
        · by_cases hwt : w = task
          · rw [hwt, hgiven.prio, Function.update_self]
          · have hle := h.earlier hgiven hW hwt hw
            rw [hprio] at hle
            exact hlt.le.trans hle
      · rw [Function.update_of_ne hxo]
        exact h.elsewhere hgiven (fun hx => hxo ((hwaits x).1 hx)) hW hw
    · rw [hprio] at heq
      omega
  | look hgiven hwaits hself hlt heq hleast hnext =>
    split at hnext
    case isFalse => cases hnext
    case isTrue hne' =>
      cases hnext
      refine ⟨?_, ?_, fun hsame => ?_⟩
      · intro t ht hx
        by_cases hto : t = owner
        · subst hto
          rw [Function.update_self]
          exact hleast
        · rw [Function.update_of_ne hto]
          exact h.others hgiven ht hx fun hw => hto ((hwaits t).1 hw)
      · rintro w hW hne hw
        by_cases hxo : x = owner
        · subst hxo
          rw [Function.update_self]
          exact hleast.2 (prio_mem_claims hw)
        · rw [Function.update_of_ne hxo]
          exact h.elsewhere hgiven (fun hx => hxo ((hwaits x).1 hx)) hW hw
      · rw [hgiven.prio, Function.update_of_ne hself] at hsame
        exact absurd hsame.symm hne'

/-- **The last round.** -/
theorem Round.restores (hr : Round s task newPri s₁ none) (ho : Owned s)
    (h : Passing x W s task newPri) : Restored x (insert task W) s₁ := by
  cases hr with
  | same hprio =>
    have hupdate : Function.update (prioOf s) task newPri = prioOf s := by
      rw [← hprio, Function.update_eq_self]
    obtain ⟨hleast, hpassed, hfirst⟩ := h
    rw [hupdate] at hleast hpassed
    refine ⟨hleast, ?_⟩
    intro w hW hw
    have hne : w ≠ task := by
      rintro rfl
      obtain ⟨m, hm, hmem⟩ := hw
      rw [← hfirst hprio] at hm
      exact ho.self w m hm hmem
    obtain rfl | hW := hW
    · exact absurd rfl hne
    · exact hpassed w hW hne hw
  | free hgiven hno =>
    exact ⟨fun t ht hx => h.others hgiven ht hx (hno t),
      fun w hW hw => h.elsewhere hgiven (hno x) hW hw⟩
  | @look _ owner lookPri _ hgiven hwaits hself hlt heq hleast hnext =>
    have hprio : prioOf s₁ owner = prioOf s owner := by
      rw [hgiven.prio, Function.update_of_ne hself]
    have hsame : lookPri = prioOf s₁ owner := by
      split at hnext
      case isTrue => cases hnext
      case isFalse hsame => exact (not_not.1 hsame).trans hprio.symm
    subst hsame
    constructor
    · intro t ht hx
      by_cases hto : t = owner
      · rw [hto]
        exact hleast
      · exact h.others hgiven ht hx fun hw => hto ((hwaits t).1 hw)
    · intro w hW hw
      by_cases hxo : x = owner
      · rw [hxo] at hw ⊢
        exact hleast.2 (prio_mem_claims hw)
      · exact h.elsewhere hgiven (fun hx => hxo ((hwaits x).1 hx)) hW hw
  | @stop _ owner hgiven hwaits hself hle hne =>
    have hprio : prioOf s₁ owner = prioOf s owner := by
      rw [hgiven.prio, Function.update_of_ne hself]
    constructor
    · intro t ht hx
      by_cases hto : t = owner
      · -- neither the old nor the new priority of the task counts
        subst hto
        have hleast := h.least t ((hgiven.frame.live t).1 ht) hx
        rw [Function.update_of_ne hself] at hleast
        rw [hgiven.claims_eq, hprio]
        exact least_claims_keep hleast hne hle
      · exact h.others hgiven ht hx fun hw => hto ((hwaits t).1 hw)
    · intro w hW hw
      by_cases hxo : x = owner
      · by_cases hwt : w = task
        · rw [hxo, hprio, hwt, hgiven.prio, Function.update_self]
          exact hle
        · exact h.earlier hgiven (hW.resolve_left hwt) hwt hw
      · exact h.elsewhere hgiven (fun hx => hxo ((hwaits x).1 hx)) hW hw

/-- **The whole walk** restores the priorities of all tasks but `x`, and `x` is as urgent as the
tasks that were passed and wait for it. -/
theorem taskPriChange_restores (h : ChainOk s) (hp : newPri < priMax)
    (hpass : Passing x W s task newPri) (hc : taskPriChange fuel s task newPri = some s') :
    Restored x (W ∪ {w | w ∈ priWalk fuel s task newPri}) s' := by
  induction fuel generalizing s task newPri W with
  | zero => cases hc
  | succ fuel ih =>
    rw [taskPriChange_round] at hc
    have hset : ∀ l : List ℕ, W ∪ {w | w ∈ task :: l} = insert task W ∪ {w | w ∈ l} := by
      intro l
      ext w
      simp only [Set.mem_union, Set.mem_ofPred_eq, List.mem_cons, Set.mem_insert_iff]
      tauto
    unfold priWalk
    rw [hset]
    split at hc
    case h_1 => cases hc
    case h_2 s₁ hround =>
      cases hc
      rw [hround]
      obtain ⟨hleast, hpassed⟩ := (priRound_sound h hp hround).restores h.own hpass
      exact ⟨hleast, fun w hw => hpassed w (hw.resolve_right (by simp))⟩
    case h_3 s₁ owner p hround =>
      rw [hround]
      have hr := priRound_sound h hp hround
      obtain ⟨hgiven, hp₁, -⟩ := hr.start hp
      exact ih hgiven.chain hp₁ (hr.passes hpass) hc

end Restores

section Runs

/-- **The walk ends and restores the priorities**, in every reachable state of a run in which no
task is deleted again while its old `mutex_list` points at mutexes: every waiter that it passes has
an owner that is as urgent, and every task but the first has the least of its claims. -/
theorem inheritance_walk (fuel : ℕ) (acts : List KernAct) (s : Kern) (task newPri : ℕ)
    (hrun : runSteps (kernStep fuel) krhinoStart acts = some s)
    (hmeet : StepsMeet (kernStep fuel) FirstDeletion krhinoStart acts)
    (hlive : Live (s.tasks task)) (hp : newPri < priMax) (hready : NotLastReady s task) :
    ∃ n s', (∀ fuel ≥ n, taskPriChange fuel s task newPri = some s') ∧
      (∀ w ∈ priWalk n s task newPri, ∀ o, WaitsOn s' w o →
        (s'.tasks o).prio ≤ (s'.tasks w).prio) ∧
      ∀ t, t ≠ task → Live (s'.tasks t) →
        IsLeast (claims (basePrio s') (prioOf s') (WaitsOn s') t) (s'.tasks t).prio := by
  obtain ⟨hk, ho, hinherits⟩ := kernRun_inherits hrun hmeet
  obtain ⟨l, hl⟩ := kernRun_tasks hrun
  have hchain : ChainOk s := ⟨hk, ho, hinherits.ordered⟩
  obtain ⟨n, s', hend⟩ := taskPriChange_total hchain hp hlive hready hl
  have hpass : Passing task ∅ s task newPri := by
    refine ⟨?_, by simp, fun _ => rfl⟩
    intro t ht hne
    rw [Function.update_of_ne hne]
    exact hinherits.least t ht (by simp)
  obtain ⟨hleast, hpassed⟩ := taskPriChange_restores hchain hp hpass (hend n le_rfl)
  have ho' : Owned s' := ho.same ((taskPriChange_sound (hend n le_rfl)).sameOwn hk hp)
  refine ⟨n, s', hend, ?_, fun t hne ht => hleast t ht hne⟩
  intro w hw o hwo
  by_cases hot : o = task
  · rw [hot] at hwo ⊢
    exact hpassed w (.inr hw) hwo
  · obtain ⟨m, hm, -⟩ := id hwo
    exact (hleast o (ho'.live o m hm) hot).2 (prio_mem_claims hwo)

/-- Task 1 owns mutex 1 and waits for mutex 2, and task 2 owns mutex 2 and waits for mutex 1. -/
def circleRun : List KernAct :=
  [.call (.taskCreate 1 20 0 true .staticAlloc), .coreSched, .call (.mutexCreate 1 .staticAlloc),
    .call (.mutexCreate 2 .staticAlloc), .call (.mutexLock 1 waitForever),
    .call (.taskCreate 4 30 0 true .staticAlloc), .call (.taskCreate 2 15 0 true .staticAlloc),
    .coreSched, .call (.mutexLock 2 waitForever), .call (.mutexLock 1 waitForever), .coreSched,
    .call (.mutexLock 2 waitForever), .coreSched]

/-- The walk goes once around the circle. -/
theorem inheritance_walk_circle :
    ∃ s, runSteps (kernStep 9) krhinoStart circleRun = some s ∧
      (s.objs 1).mutexTask = some 1 ∧ (s.objs 1).blkList = [2] ∧
      (s.objs 2).mutexTask = some 2 ∧ (s.objs 2).blkList = [1] ∧
      ∃ n s', (∀ fuel ≥ n, taskPriChange fuel s 1 10 = some s') ∧
        (∀ w ∈ priWalk n s 1 10, ∀ o, WaitsOn s' w o → (s'.tasks o).prio ≤ (s'.tasks w).prio) ∧
        ∀ t, t ≠ 1 → Live (s'.tasks t) →
          IsLeast (claims (basePrio s') (prioOf s') (WaitsOn s') t) (s'.tasks t).prio := by
  obtain ⟨s, hrun, hone, hwait, htwo, hwait', hstate, hidle, hother⟩ : ∃ s,
      runSteps (kernStep 9) krhinoStart circleRun = some s ∧
      (s.objs 1).mutexTask = some 1 ∧ (s.objs 1).blkList = [2] ∧
      (s.objs 2).mutexTask = some 2 ∧ (s.objs 2).blkList = [1] ∧
      (s.tasks 1).taskState = .pend ∧ (s.tasks 0).taskState = .rdy ∧ (s.tasks 4).taskState = .rdy :=
    ⟨_, rfl, rfl, rfl, rfl, rfl, rfl, rfl, rfl⟩
  refine ⟨s, hrun, hone, hwait, htwo, hwait',
    inheritance_walk 9 circleRun s 1 10 hrun ?_ ?_ (by decide) ?_⟩
  · apply stepsMeet_of_forall
    intro a ha s
    simp only [circleRun, List.mem_cons, List.not_mem_nil, or_false] at ha
    obtain rfl | rfl | rfl | rfl | rfl | rfl | rfl | rfl | rfl | rfl | rfl | rfl | rfl := ha
    all_goals trivial
  · simp [Live, hstate]
  · intro t _ _
    by_cases ht : t = 0
    · exact ⟨4, by omega, hother⟩
    · exact ⟨0, Ne.symm ht, hidle⟩

/-- Task 2 owns mutex 1. Task 1, which has locked it and is deleted, is deleted again, so that the
mutex is free; task 2 locks it again, and task 3 waits for it. -/
def relockRun : List KernAct :=
  ownerRun ++ [.call (.taskDel none), .coreSched, .call (.mutexLock 1 waitForever),
    .call (.taskDel (some 1)), .call (.mutexLock 1 waitForever),
    .call (.taskCreate 3 5 0 true .staticAlloc), .coreSched, .call (.mutexLock 1 waitForever),
    .coreSched]

/-- The search in a list whose last link leads back to its mutex. -/
theorem mutexPriLookLoop_endless {s : Kern} {mutex : ℕ}
    (hlink : (s.objs mutex).mutexList = some mutex) (fuel pri newPri : ℕ) :
    mutexPriLookLoop none fuel s (.ofMutex mutex) pri newPri = none := by
  induction fuel generalizing pri newPri with
  | zero => rfl
  | succ fuel ih =>
    unfold mutexPriLookLoop
    simp only [Kern.readPtr, hlink, reduceCtorEq, if_false]
    exact ih _ _

/-- The list of task 2 leads from mutex 1 to mutex 1. When task 3 becomes less urgent, the search for
the priority of task 2 does not end. -/
theorem inheritance_walk_endless :
    ∃ s, runSteps (kernStep 9) krhinoStart relockRun = some s ∧
      (s.tasks 3).taskState = .pend ∧ (s.tasks 0).taskState = .rdy ∧ (s.tasks 2).taskState = .rdy ∧
      (s.tasks 2).mutexList = some 1 ∧ (s.objs 1).mutexList = some 1 ∧
      ∀ fuel, taskPriChange fuel s 3 10 = none := by
  obtain ⟨s, hrun, hstate, hidle, hrdy, hlist, hlink, hprio, hobj, htype, howner, hlist', hlink',
      hprio'⟩ : ∃ s, runSteps (kernStep 9) krhinoStart relockRun = some s ∧
      (s.tasks 3).taskState = .pend ∧ (s.tasks 0).taskState = .rdy ∧ (s.tasks 2).taskState = .rdy ∧
      (s.tasks 2).mutexList = some 1 ∧ (s.objs 1).mutexList = some 1 ∧
      (s.tasks 3).prio = 5 ∧ (s.tasks 3).blkObj = some 1 ∧ (s.objs 1).objType = .mutex ∧
      (s.objs 1).mutexTask = some 2 ∧ ((reordered s 3 10 1).tasks 2).mutexList = some 1 ∧
      ((reordered s 3 10 1).objs 1).mutexList = some 1 ∧
      ((reordered s 3 10 1).tasks 2).prio = 5 :=
    ⟨_, rfl, rfl, rfl, rfl, rfl, rfl, rfl, rfl, rfl, rfl, rfl, rfl, rfl⟩
  refine ⟨s, hrun, hstate, hidle, hrdy, hlist, hlink, fun fuel => ?_⟩
  by_contra hsome
  obtain ⟨s', hs'⟩ := Option.ne_none_iff_exists'.1 hsome
  cases taskPriChange_sound hs' with
  | same h => simp [hprio] at h
  | ready _ h => simp [hstate] at h
  | still _ h => simp [hstate] at h
  | blocked _ _ ho h =>
    cases hobj.symm.trans ho
    exact h htype
  | raise _ _ ho _ how hlt =>
    cases hobj.symm.trans ho
    cases howner.symm.trans how
    rw [hprio'] at hlt
    omega
  | @look _ _ _ _ _ _ n _ _ _ ho _ how _ _ hlook =>
    cases hobj.symm.trans ho
    cases howner.symm.trans how
    cases n with
    | zero => cases hlook
    | succ n =>
      unfold mutexPriLook mutexPriLookLoop at hlook
      simp only [Kern.readPtr, hlist', reduceCtorEq, if_false] at hlook
      rw [mutexPriLookLoop_endless hlink'] at hlook
      cases hlook
  | stop _ _ ho _ how _ hne =>
    cases hobj.symm.trans ho
    cases howner.symm.trans how
    rw [hprio', hprio] at hne
    exact hne rfl

end Runs

end GenieSdk.Analysis.Rhino
