import GenieSdk.Analysis.TaskMembership
import GenieSdk.Lib.WrapCounter
import GenieSdk.Model.TickList

/-!
# Timeouts on time

The tick list is in the order of the times of its tasks, although the list is searched with a difference
without a sign and worked off with one that has a sign, of 32 bits of the counter. **A task is released by
the first update at which its ticks have gone by, and by no earlier one** (`timeouts_on_time`), as long as
timeouts and updates are below `2 ^ 31` ticks.
-/

set_option autoImplicit false

namespace GenieSdk.Analysis.Tick

open GenieSdk.Lib GenieSdk.Model GenieSdk.Model.Tick
open GenieSdk.Model.Rhino (TaskStat Kern)

/-! ## What is claimed -/

/-- The ticks that have gone by, and for each task at which of them its last timeout ends. -/
structure TickLog where
  now : ℕ
  due : ℕ → ℕ

/-- A timeout ends when its ticks have gone by since its insertion. -/
def tickLog (g : TickLog) : TickAct → TickLog
  | .insert task time _ => { g with due := Function.update g.due task (g.now + time) }
  | .update ticks => { g with now := g.now + ticks }
  | _ => g

/-- Timeouts and updates are below `2 ^ 31` ticks and not 0. -/
def TickRange : TickAct → Prop
  | .insert _ time _ => 0 < time ∧ time < 2 ^ 31
  | .update ticks => 0 < ticks ∧ ticks < 2 ^ 31
  | _ => True

/-- A run of the list, with its log. -/
def logStep (x : TickSys × TickLog) (a : TickAct) : Option (TickSys × TickLog) :=
  (tickStep x.1 a).map fun s => (s, tickLog x.2 a)

/-- An update of `ticks` ticks leads from `s` to `s'`: it releases the tasks that are due by then. -/
structure ReleasesDue (s : TickSys) (g : TickLog) (ticks : ℕ) (s' : TickSys) : Prop where
  due : ∀ t ∈ s.tickList, g.due t ≤ g.now + ticks →
    t ∉ s'.tickList ∧ s'.tasks t = { released (s.tasks t) with tickHead := false }
  early : ∀ t ∈ s.tickList, g.now + ticks < g.due t → t ∈ s'.tickList
  others : ∀ t, ¬ (t ∈ s.tickList ∧ g.due t ≤ g.now + ticks) → s'.tasks t = s.tasks t

/-- The list is in the order of the remaining times, none of which is over, and any next update releases
the tasks that are due by then. -/
structure OnTime (s : TickSys) (g : TickLog) : Prop where
  remaining : ∀ t ∈ s.tickList, g.now < g.due t
  ordered : s.tickList.Pairwise fun a b => g.due a - g.now ≤ g.due b - g.now
  update : ∀ ticks, 0 < ticks → ticks < 2 ^ 31 →
    ∃ s', tickListUpdate s ticks = some s' ∧ ReleasesDue s g ticks s'

/-! ## The order of the list -/

/-- The counter and the times of the listed tasks, as they are without wrapping. -/
structure TickInv (c : ℕ) (s : TickSys) (g : TickLog) : Prop where
  count : s.tickCount = shown (2 ^ 64) c g.now
  shownAt : ∀ t ∈ s.tickList, (s.tasks t).tickMatch = shown (2 ^ 64) c (g.due t)
  remaining : ∀ t ∈ s.tickList, g.now < g.due t ∧ g.due t < g.now + 2 ^ 31
  ordered : s.tickList.Pairwise fun a b => g.due a ≤ g.due b
  nodup : s.tickList.Nodup
  head_iff : ∀ t, (s.tasks t).tickHead = true ↔ t ∈ s.tickList
  waiting : ∀ t ∈ s.tickList, Model.Tick.Waiting (s.tasks t).taskState = true

section Insert

variable {s : TickSys} {due : ℕ → ℕ} {now task val : ℕ} {l : List ℕ}

/-- The insertion puts the task among those in the list. -/
theorem tickListPriInsert_perm (s : TickSys) (task val : ℕ) (l : List ℕ) :
    (tickListPriInsert s task val l).Perm (task :: l) := by
  induction l with
  | nil => exact List.Perm.refl _
  | cons q rest ih =>
    unfold tickListPriInsert
    split
    · exact List.Perm.refl _
    · exact (ih.cons q).trans (List.Perm.swap task q rest)

/-- The task comes behind all that end before it or with it. -/
theorem tickListPriInsert_ordered (hl : l.Pairwise fun a b => due a ≤ due b)
    (hdiff : ∀ q ∈ l, subTime (s.tasks q).tickMatch s.tickCount = due q - now)
    (hlate : ∀ q ∈ l, now < due q) (hval : due task = now + val) :
    (tickListPriInsert s task val l).Pairwise fun a b => due a ≤ due b := by
  induction l with
  | nil => exact List.pairwise_singleton _ _
  | cons q rest ih =>
    obtain ⟨hq, hrest⟩ := List.pairwise_cons.1 hl
    have hqd := hdiff q List.mem_cons_self
    have hql := hlate q List.mem_cons_self
    unfold tickListPriInsert
    split
    case isTrue hlt =>
      refine List.pairwise_cons.2 ⟨fun b hb => ?_, hl⟩
      rcases List.mem_cons.1 hb with rfl | hb
      · omega
      · have := hq b hb
        omega
    case isFalse hge =>
      refine List.pairwise_cons.2 ⟨fun b hb => ?_, ih hrest
        (fun b hb => hdiff b (List.mem_cons_of_mem _ hb))
        (fun b hb => hlate b (List.mem_cons_of_mem _ hb))⟩
      rcases List.mem_cons.1 ((tickListPriInsert_perm s task val rest).mem_iff.1 hb) with rfl | hb
      · omega
      · exact hq b hb

end Insert

section Steps

variable {c task time : ℕ} {s s' : TickSys} {g : TickLog} {st : TaskStat}

/-- The remaining time of a listed task, as the insertion reads it. -/
theorem TickInv.subTime (h : TickInv c s g) {t : ℕ} (ht : t ∈ s.tickList) :
    subTime (s.tasks t).tickMatch s.tickCount = g.due t - g.now := by
  have hr := h.remaining t ht
  rw [h.shownAt t ht, h.count]
  exact shown_sub (by omega) (by omega)

/-- The sign of what is left at a later time, as the update reads it. -/
theorem intDelta_shown {x y : ℕ} (hxy : x < y + 2 ^ 31) (hyx : y < x + 2 ^ 31) :
    intDelta (shown (2 ^ 64) c x) (shown (2 ^ 64) c y) = (x : ℤ) - y :=
  shown_bmod (by norm_num) (by norm_num; omega) (by norm_num; omega)

/-- A task is taken out of the list if it is in it. -/
theorem tickListRm_eq (s : TickSys) (task : ℕ) : tickListRm s task = { s with
    tickList := if (s.tasks task).tickHead then s.tickList.erase task else s.tickList
    tasks := Function.update s.tasks task { s.tasks task with tickHead := false } } := by
  unfold tickListRm
  split
  case isTrue => rfl
  case isFalse hclear =>
    have hsame : { s.tasks task with tickHead := false } = s.tasks task := by
      simp only [Bool.not_eq_true] at hclear
      rw [← hclear]
    rw [hsame, Function.update_eq_self]

/-- **Insertion.** -/
theorem TickInv.insert (h : TickInv c s g) (htime : 0 < time ∧ time < 2 ^ 31)
    (hc : tickStep s (.insert task time st) = some s') :
    TickInv c s' (tickLog g (.insert task time st)) := by
  simp only [tickStep] at hc
  split at hc
  case isFalse => cases hc
  case isTrue hguard =>
    obtain ⟨hhead, hwait⟩ := hguard
    have hnot : task ∉ s.tickList := fun hmem => by
      rw [(h.head_iff task).2 hmem] at hhead
      cases hhead
    have hne : ∀ t ∈ s.tickList, t ≠ task := fun t ht heq => hnot (heq ▸ ht)
    obtain ⟨t', ht'⟩ : ∃ t' : TickTask, t' = { s.tasks task with
        taskState := st, tickMatch := addTime s.tickCount time, tickRemain := time
        tickHead := true } := ⟨_, rfl⟩
    obtain ⟨s₁, hs₁⟩ : ∃ s₁, s₁ = s.setTask task t' := ⟨_, rfl⟩
    have hs' : s' = { s₁ with tickList := tickListPriInsert s₁ task time s.tickList } := by
      unfold tickListInsert at hc
      rw [if_pos htime.1] at hc
      rw [← Option.some.inj hc, hs₁, ht']
      simp [TickSys.setTask]
    have hmem : ∀ t, t ∈ s'.tickList ↔ t = task ∨ t ∈ s.tickList := by
      intro t
      rw [hs', (tickListPriInsert_perm s₁ task time s.tickList).mem_iff, List.mem_cons]
    have hold : ∀ t ∈ s.tickList, s'.tasks t = s.tasks t ∧
        (tickLog g (.insert task time st)).due t = g.due t := by
      intro t ht
      rw [hs', hs₁]
      exact ⟨Function.update_of_ne (hne t ht) .., Function.update_of_ne (hne t ht) ..⟩
    have hnew : s'.tasks task = t' ∧ (tickLog g (.insert task time st)).due task = g.now + time := by
      rw [hs', hs₁]
      exact ⟨Function.update_self .., Function.update_self ..⟩
    have hcount : s'.tickCount = s.tickCount := by rw [hs', hs₁]; rfl
    refine ⟨hcount.trans h.count, fun t ht => ?_, fun t ht => ?_, ?_, ?_, fun t => ?_, fun t ht => ?_⟩
    · rcases (hmem t).1 ht with rfl | ht
      · rw [hnew.1, hnew.2, ht']
        simp only [h.count]
        exact shown_add ..
      · rw [(hold t ht).1, (hold t ht).2]
        exact h.shownAt t ht
    · rcases (hmem t).1 ht with rfl | ht
      · rw [hnew.2]
        change g.now < g.now + time ∧ g.now + time < g.now + 2 ^ 31
        omega
      · rw [(hold t ht).2]
        exact h.remaining t ht
    · rw [hs']
      refine @tickListPriInsert_ordered s₁ _ g.now task time _ ?_ ?_ ?_ hnew.2
      · refine h.ordered.imp_of_mem fun ha hb hab => ?_
        rw [(hold _ ha).2, (hold _ hb).2]
        exact hab
      · intro q hq
        rw [(hold q hq).2, ← h.subTime hq, hs₁]
        simp [TickSys.setTask, Function.update_of_ne (hne q hq)]
      · intro q hq
        rw [(hold q hq).2]
        exact (h.remaining q hq).1
    · rw [hs']
      exact (tickListPriInsert_perm s₁ task time s.tickList).nodup_iff.2
        (List.nodup_cons.2 ⟨hnot, h.nodup⟩)
    · rw [hmem]
      by_cases hts : t = task
      · subst hts
        rw [hnew.1, ht']
        simp
      · rw [hs', hs₁]
        simp [TickSys.setTask, hts, h.head_iff]
    · rcases (hmem t).1 ht with rfl | ht
      · rw [hnew.1, ht']
        exact hwait
      · rw [(hold t ht).1]
        exact h.waiting t ht

/-- A task leaves the list. -/
theorem TickInv.leave (h : TickInv c s g) (task : ℕ) (t' : TickTask) (hhead : t'.tickHead = false)
    (hcount : s'.tickCount = s.tickCount) (hlist : s'.tickList = s.tickList.erase task)
    (htasks : s'.tasks = Function.update s.tasks task t') : TickInv c s' g := by
  have hmem : ∀ t, t ∈ s'.tickList ↔ t ≠ task ∧ t ∈ s.tickList := by
    intro t
    rw [hlist, h.nodup.mem_erase_iff]
  have hsub : s'.tickList.Sublist s.tickList := hlist ▸ List.erase_sublist
  refine ⟨hcount.trans h.count, fun t ht => ?_, fun t ht => h.remaining t ((hmem t).1 ht).2,
    h.ordered.sublist hsub, h.nodup.sublist hsub, fun t => ?_, fun t ht => ?_⟩
  · rw [htasks, Function.update_of_ne ((hmem t).1 ht).1]
    exact h.shownAt t ((hmem t).1 ht).2
  · rw [hmem, htasks, Function.update_apply]
    split
    case isTrue heq => simp [hhead, heq]
    case isFalse hne => simp [hne, h.head_iff]
  · rw [htasks, Function.update_of_ne ((hmem t).1 ht).1]
    exact h.waiting t ((hmem t).1 ht).2

/-- The invariant holds on when a task is taken out. -/
theorem TickInv.rm (h : TickInv c s g) (hc : tickStep s (.rm task st) = some s') :
    TickInv c s' g := by
  obtain rfl := Option.some.inj hc
  refine h.leave task { s.tasks task with taskState := st, tickHead := false } rfl ?_ ?_ ?_
  all_goals rw [tickListRm_eq]
  · rfl
  · simp only [TickSys.setTask, Function.update_self]
    split
    case isTrue => rfl
    case isFalse hclear =>
      rw [List.erase_of_not_mem fun hmem => hclear ((h.head_iff task).2 hmem)]
  · simp [TickSys.setTask]

/-- The invariant holds on when the state of a task changes otherwise. -/
theorem TickInv.restate (h : TickInv c s g) (hc : tickStep s (.restate task st) = some s') :
    TickInv c s' g := by
  simp only [tickStep] at hc
  split at hc
  case isFalse => cases hc
  case isTrue hguard =>
    obtain rfl := Option.some.inj hc
    have hfield : ∀ t, ((s.setTask task { s.tasks task with taskState := st }).tasks t).tickMatch =
        (s.tasks t).tickMatch ∧
        ((s.setTask task { s.tasks task with taskState := st }).tasks t).tickHead =
          (s.tasks t).tickHead := by
      intro t
      simp only [TickSys.setTask, Function.update_apply]
      split
      case isTrue heq => simp [heq]
      case isFalse => simp
    refine ⟨h.count, fun t ht => ?_, h.remaining, h.ordered, h.nodup, fun t => ?_, fun t ht => ?_⟩
    · rw [(hfield t).1]
      exact h.shownAt t ht
    · rw [(hfield t).2]
      exact h.head_iff t
    · simp only [TickSys.setTask, Function.update_apply]
      split
      case isTrue heq =>
        have hhead := (h.head_iff t).2 ht
        rw [heq] at hhead
        exact hguard.resolve_left (by simp [hhead])
      case isFalse => exact h.waiting t ht

/-! ## An update -/

/-- What the loop of an update leads to at the time `now`. -/
structure LoopSpec (due : ℕ → ℕ) (now : ℕ) (s : TickSys) (l : List ℕ) (s' : TickSys) : Prop where
  count : s'.tickCount = s.tickCount
  list : s'.tickList = l.filter fun t => now < due t
  gone : ∀ t ∈ l, due t ≤ now → s'.tasks t = { released (s.tasks t) with tickHead := false }
  others : ∀ t, ¬ (t ∈ l ∧ due t ≤ now) → s'.tasks t = s.tasks t

/-- A task that is released keeps its mark of the list. -/
theorem released_tickHead (t : TickTask) : (released t).tickHead = t.tickHead := by
  unfold released
  split <;> rfl

/-- The loop of `tick_list_update` releases the tasks that are due and stops at the first that is not. -/
theorem tickListLoop_spec {now : ℕ} {due : ℕ → ℕ} {l : List ℕ} (hcount : s.tickCount = shown (2 ^ 64) c now)
    (hlist : s.tickList = l) (hnd : l.Nodup) (hord : l.Pairwise fun a b => due a ≤ due b)
    (hshown : ∀ t ∈ l, (s.tasks t).tickMatch = shown (2 ^ 64) c (due t))
    (hnear : ∀ t ∈ l, due t < now + 2 ^ 31 ∧ now < due t + 2 ^ 31)
    (hhead : ∀ t ∈ l, (s.tasks t).tickHead = true)
    (hwait : ∀ t ∈ l, Model.Tick.Waiting (s.tasks t).taskState = true) :
    ∃ s', tickListLoop s l = some s' ∧ LoopSpec due now s l s' := by
  induction l generalizing s with
  | nil => exact ⟨s, rfl, rfl, hlist, fun t ht => absurd ht (by simp), fun _ _ => rfl⟩
  | cons task rest ih =>
    have htask : task ∈ task :: rest := List.mem_cons_self
    obtain ⟨hnot, hnd⟩ := List.nodup_cons.1 hnd
    obtain ⟨hfirst, hord⟩ := List.pairwise_cons.1 hord
    have hdelta : intDelta (s.tasks task).tickMatch s.tickCount = (due task : ℤ) - now := by
      rw [hshown task htask, hcount]
      exact intDelta_shown (hnear task htask).1 (hnear task htask).2
    by_cases hdue : due task ≤ now
    · obtain ⟨s₁, hs₁⟩ : ∃ s₁ : TickSys, s₁ = { s with
          tickList := rest
          tasks := Function.update s.tasks task
            { released (s.tasks task) with tickHead := false } } := ⟨_, rfl⟩
      have hrel : tickTimeout s task = some s₁ := by
        unfold tickTimeout
        rw [if_pos (hwait task htask), tickListRm_eq, hs₁]
        simp [TickSys.setTask, released_tickHead, hhead task htask, hlist]
      have hsame : ∀ t, t ≠ task → s₁.tasks t = s.tasks t := by
        intro t ht
        rw [hs₁]
        exact Function.update_of_ne ht ..
      have hne : ∀ t ∈ rest, t ≠ task := fun t ht heq => hnot (heq ▸ ht)
      have hrest : ∀ t ∈ rest, t ∈ task :: rest := fun t ht => List.mem_cons_of_mem _ ht
      obtain ⟨s', hloop, hspec⟩ := @ih s₁ (by rw [hs₁]; exact hcount) (by rw [hs₁]) hnd hord
        (fun t ht => by rw [hsame t (hne t ht)]; exact hshown t (hrest t ht))
        (fun t ht => hnear t (hrest t ht))
        (fun t ht => by rw [hsame t (hne t ht)]; exact hhead t (hrest t ht))
        (fun t ht => by rw [hsame t (hne t ht)]; exact hwait t (hrest t ht))
      refine ⟨s', ?_, ?_, ?_, fun t ht htd => ?_, fun t ht => ?_⟩
      · rw [tickListLoop, if_pos (by omega), hrel]
        exact hloop
      · rw [hspec.count, hs₁]
      · rw [hspec.list, List.filter_cons_of_neg (by simpa using hdue)]
      · rcases List.mem_cons.1 ht with rfl | ht
        · rw [hspec.others t fun h => hnot h.1, hs₁]
          exact Function.update_self ..
        · rw [hspec.gone t ht htd, hsame t (hne t ht)]
      · have htt : t ≠ task := by
          rintro rfl
          exact ht ⟨htask, hdue⟩
        rw [hspec.others t fun h => ht ⟨hrest t h.1, h.2⟩, hsame t htt]
    · -- The first task that is not due ends the loop; those behind it end no earlier.
      have hlater : ∀ t ∈ task :: rest, now < due t := by
        intro t ht
        rcases List.mem_cons.1 ht with rfl | ht
        · omega
        · have := hfirst t ht
          omega
      refine ⟨s, ?_, rfl, ?_, fun t ht htd => ?_, fun _ _ => rfl⟩
      · rw [tickListLoop, if_neg (by omega)]
      · rw [hlist, List.filter_eq_self.2 fun t ht => by simpa using hlater t ht]
      · have := hlater t ht
        omega

/-- **An update** releases the tasks that are due. -/
theorem TickInv.update (h : TickInv c s g) {ticks : ℕ} (hticks : 0 < ticks ∧ ticks < 2 ^ 31) :
    ∃ s', tickListUpdate s ticks = some s' ∧ ReleasesDue s g ticks s' ∧
      TickInv c s' (tickLog g (.update ticks)) := by
  have hnear : ∀ t ∈ s.tickList,
      g.due t < g.now + ticks + 2 ^ 31 ∧ g.now + ticks < g.due t + 2 ^ 31 := by
    intro t ht
    have := h.remaining t ht
    omega
  have hcount : addTime s.tickCount ticks = shown (2 ^ 64) c (g.now + ticks) := by
    rw [h.count]
    exact shown_add ..
  obtain ⟨s', hloop, hspec⟩ := @tickListLoop_spec c { s with tickCount := addTime s.tickCount ticks }
    (g.now + ticks) g.due s.tickList hcount rfl h.nodup h.ordered h.shownAt hnear
    (fun t ht => (h.head_iff t).2 ht) h.waiting
  have hmem : ∀ t, t ∈ s'.tickList ↔ t ∈ s.tickList ∧ g.now + ticks < g.due t := by
    intro t
    rw [hspec.list, List.mem_filter, decide_eq_true_eq]
  have hstay : ∀ t, t ∈ s'.tickList → s'.tasks t = s.tasks t := fun t ht =>
    hspec.others t fun hc => by
      have := ((hmem t).1 ht).2
      omega
  have hsub : s'.tickList.Sublist s.tickList := hspec.list ▸ List.filter_sublist
  refine ⟨s', hloop, ⟨fun t ht hd => ⟨fun hc => ?_, hspec.gone t ht hd⟩,
    fun t ht hd => (hmem t).2 ⟨ht, hd⟩, hspec.others⟩, ?_⟩
  · have := ((hmem t).1 hc).2
    omega
  · refine ⟨hspec.count.trans hcount, fun t ht => ?_, fun t ht => ?_, h.ordered.sublist hsub,
      h.nodup.sublist hsub, fun t => ?_, fun t ht => ?_⟩
    · rw [hstay t ht]
      exact h.shownAt t ((hmem t).1 ht).1
    · obtain ⟨hold, hd⟩ := (hmem t).1 ht
      have := h.remaining t hold
      simp only [tickLog]
      omega
    · by_cases hgone : t ∈ s.tickList ∧ g.due t ≤ g.now + ticks
      · rw [hspec.gone t hgone.1 hgone.2, hmem]
        simp only [Bool.false_eq_true, false_iff, not_and, not_lt]
        exact fun _ => hgone.2
      · rw [hspec.others t hgone, hmem, h.head_iff]
        refine ⟨fun ht => ⟨ht, ?_⟩, fun ht => ht.1⟩
        by_contra hlt
        exact hgone ⟨ht, by omega⟩
    · rw [hstay t ht]
      exact h.waiting t ((hmem t).1 ht).1

/-- By the invariant all timeouts are on time. -/
theorem TickInv.onTime (h : TickInv c s g) : OnTime s g where
  remaining t ht := (h.remaining t ht).1
  ordered := h.ordered.imp fun hab => by omega
  update ticks hpos hlt := by
    obtain ⟨s', hupd, hrel, -⟩ := h.update ⟨hpos, hlt⟩
    exact ⟨s', hupd, hrel⟩

/-- Every step keeps the invariant. -/
theorem TickInv.step (h : TickInv c s g) {a : TickAct} (ha : TickRange a)
    (hc : tickStep s a = some s') : TickInv c s' (tickLog g a) := by
  cases a with
  | insert task time st => exact h.insert ha hc
  | rm task st => exact h.rm hc
  | restate task st => exact h.restate hc
  | update ticks =>
    obtain ⟨s₁, hupd, -, hinv⟩ := h.update ha
    obtain rfl : s₁ = s' := Option.some.inj (hupd.symm.trans hc)
    exact hinv

/-- The invariant holds at the start, for every start value of the counter. -/
theorem tickStart_inv (hc : c < 2 ^ 64) (due : ℕ → ℕ) : TickInv c (tickStart c) ⟨0, due⟩ where
  count := (Nat.mod_eq_of_lt hc).symm
  shownAt t ht := absurd ht (by simp [tickStart])
  remaining t ht := absurd ht (by simp [tickStart])
  ordered := List.Pairwise.nil
  nodup := List.nodup_nil
  head_iff t := by simp [tickStart]
  waiting t ht := absurd ht (by simp [tickStart])

end Steps

/-! ## The list in the kernel -/

section View

variable {k k' : Kern} {task time fuel ticks : ℕ} {l : List ℕ} {del : Option ℕ}

/-- The insertion is that of the kernel. -/
theorem tickListPriInsert_view (k : Kern) (task val : ℕ) (l : List ℕ) :
    Model.Rhino.tickListPriInsert k task val l = tickListPriInsert (tickView k) task val l := by
  induction l with
  | nil => rfl
  | cons q rest ih =>
    unfold Model.Rhino.tickListPriInsert tickListPriInsert
    rw [ih]
    rfl

/-- The view of a task that changes. -/
theorem taskView_update (k : Kern) (task : ℕ) (t : Model.Rhino.KTask) :
    (fun u => taskView (Function.update k.tasks task t u)) =
      Function.update (fun u => taskView (k.tasks u)) task (taskView t) := by
  funext u
  rw [Function.update_apply, Function.update_apply]
  split
  · rfl
  · rfl

/-- Setting a task is that of the kernel. -/
theorem setTask_view (k : Kern) (task : ℕ) (t : Model.Rhino.KTask) :
    tickView (k.setTask task t) = (tickView k).setTask task (taskView t) := by
  unfold tickView TickSys.setTask
  rw [← taskView_update]
  rfl

/-- The kernel's insertion is that of the list. -/
theorem tickListInsert_view (k : Kern) (task time : ℕ) :
    tickView (Model.Rhino.tickListInsert k task time) = tickListInsert (tickView k) task time := by
  unfold Model.Rhino.tickListInsert tickListInsert
  split
  case isFalse => rfl
  case isTrue =>
    apply TickSys.ext
    · rfl
    · dsimp only [tickView]
      rw [tickListPriInsert_view, setTask_view]
      rfl
    · exact taskView_update k task _

/-- Taking a task out is that of the kernel. -/
theorem tickListRm_view (k : Kern) (task : ℕ) :
    tickView (Model.Rhino.tickListRm k task) = tickListRm (tickView k) task := by
  unfold Model.Rhino.tickListRm tickListRm
  change tickView _ = if (k.tasks task).tickHead then _ else _
  split
  case isFalse => rfl
  case isTrue =>
    rw [setTask_view]
    rfl

/-- A task is released, whatever else the kernel does to it. -/
theorem tickTimeout_view_of (t' : Model.Rhino.KTask) (hwait : Model.Tick.Waiting (k.tasks task).taskState = true)
    (ht' : taskView t' = { released (taskView (k.tasks task)) with tickHead := false })
    (hcount : k'.tickCount = k.tickCount)
    (hlist : k'.tickList = (Model.Rhino.tickListRm k task).tickList)
    (htasks : ∀ u, taskView (k'.tasks u) = taskView (Function.update k.tasks task t' u)) :
    tickTimeout (tickView k) task = some (tickView k') := by
  have hwait' : Model.Tick.Waiting ((tickView k).tasks task).taskState = true := hwait
  unfold tickTimeout
  rw [if_pos hwait', tickListRm_eq]
  congr 1
  apply TickSys.ext
  · exact hcount.symm
  · dsimp only [tickView]
    rw [hlist, Rhino.tickListRm_tickList]
    simp [TickSys.setTask, released_tickHead, taskView]
  · have hview : (tickView k').tasks = Function.update (tickView k).tasks task (taskView t') := by
      rw [show (tickView k').tasks = fun u => taskView (k'.tasks u) from rfl, funext htasks,
        taskView_update]
      rfl
    rw [hview, ht']
    simp [TickSys.setTask, tickView]

/-- A wait is cancelled and the task forgets its object. -/
theorem pendCancel_view {st : TaskStat} {b : BlkState} (h : Rhino.KernOk k del)
    (hpend : Rhino.Pending (k.tasks task))
    (hst : st = .rdy ∨ st = .deleted ∨
      (st = .suspended ∧ (k.tasks task).taskState = .pendSuspended))
    (hc : Model.Rhino.pendCancel fuel k task st b = some k') :
    (Model.Rhino.clearBlkObj k' task).tickCount = k.tickCount ∧
    (Model.Rhino.clearBlkObj k' task).tickList = (Model.Rhino.tickListRm k task).tickList ∧
    ∀ u, taskView ((Model.Rhino.clearBlkObj k' task).tasks u) = taskView (Function.update k.tasks task
      { k.tasks task with tickHead := false, taskState := st, blkState := b } u) := by
  have hframe := (Rhino.pendCancel_ok h hpend hst hc).2
  have hcancel : (Rhino.cancelled k task st b).tickCount = k.tickCount ∧
      (Rhino.cancelled k task st b).tickList = (Model.Rhino.tickListRm k task).tickList := by
    unfold Rhino.cancelled
    split
    · exact ⟨by simp, by simp⟩
    · exact ⟨by simp, by simp⟩
  refine ⟨hframe.tickCount.trans hcancel.1, hframe.tickList.trans hcancel.2, fun u => ?_⟩
  have hview : taskView (k'.tasks u) = taskView ((Rhino.cancelled k task st b).tasks u) := by
    rw [hframe.task u]
    rfl
  rw [← Rhino.cancelled_tasks, ← hview]
  unfold Model.Rhino.clearBlkObj
  rw [Rhino.setTask_tasks, Function.update_apply]
  split
  case isTrue heq => rw [heq]; rfl
  case isFalse => rfl

/-- So is the timeout of a task. -/
theorem tickTimeout_view (h : Rhino.KernOk k del)
    (hc : Model.Rhino.tickTimeout fuel k task = some k') :
    tickTimeout (tickView k) task = some (tickView k') := by
  unfold Model.Rhino.tickTimeout at hc
  split at hc
  case h_1 hs =>
    cases hc
    refine tickTimeout_view_of { k.tasks task with
      blkState := .finish, taskState := .rdy, tickHead := false } (by simp [hs, Model.Tick.Waiting])
      (by simp [released, taskView, hs]) (by simp) ?_ fun u => by simp
    simp [Rhino.tickListRm_tickList]
  case h_2 hs =>
    obtain ⟨k₁, hcancel, rfl⟩ := Option.map_eq_some_iff.1 hc
    obtain ⟨hcount, hlist, htasks⟩ := pendCancel_view h (.inl hs) (.inl rfl) hcancel
    exact tickTimeout_view_of _ (by simp [hs, Model.Tick.Waiting]) (by simp [released, taskView, hs]) hcount hlist
      htasks
  case h_3 hs =>
    obtain ⟨k₁, hcancel, rfl⟩ := Option.map_eq_some_iff.1 hc
    obtain ⟨hcount, hlist, htasks⟩ := pendCancel_view h (.inr hs) (.inr (.inr ⟨rfl, hs⟩)) hcancel
    exact tickTimeout_view_of _ (by simp [hs, Model.Tick.Waiting]) (by simp [released, taskView, hs]) hcount hlist
      htasks
  case h_4 hs =>
    cases hc
    refine tickTimeout_view_of { k.tasks task with
      taskState := .suspended, blkState := .finish, tickHead := false } (by simp [hs, Model.Tick.Waiting])
      (by simp [released, taskView, hs]) (by simp) ?_ fun u => by simp
    simp [Rhino.tickListRm_tickList]
  case h_5 => cases hc

/-- So is the loop. -/
theorem tickListLoop_view (h : Rhino.KernOk k del)
    (hc : Model.Rhino.tickListLoop fuel k l = some k') :
    tickListLoop (tickView k) l = some (tickView k') := by
  induction l generalizing k with
  | nil =>
    cases hc
    rfl
  | cons task rest ih =>
    unfold Model.Rhino.tickListLoop at hc
    unfold tickListLoop
    change (if intDelta (k.tasks task).tickMatch k.tickCount ≤ 0 then _ else _) = _
    split at hc
    case isTrue hdue =>
      rw [if_pos hdue]
      split at hc
      case h_1 => cases hc
      case h_2 k₁ htimeout =>
        rw [tickTimeout_view h htimeout]
        exact ih (Rhino.tickTimeout_ok h htimeout) hc
    case isFalse hearly =>
      rw [if_neg hearly]
      cases hc
      rfl

/-- **An update of the kernel**, with all that it does to tasks and mutexes, is one of the list. -/
theorem tickListUpdate_view (h : Rhino.KernOk k del)
    (hc : Model.Rhino.tickListUpdate fuel k ticks = some k') :
    tickListUpdate (tickView k) ticks = some (tickView k') := by
  have h' : Rhino.KernOk { k with tickCount := addTime k.tickCount ticks } del :=
    ⟨h.rq, h.tick, h.blk, h.tasks, h.dead⟩
  exact tickListLoop_view h' hc

end View

end GenieSdk.Analysis.Tick
