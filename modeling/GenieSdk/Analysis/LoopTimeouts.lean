import GenieSdk.Lib.Runs
import GenieSdk.Model.YloopEvents

/-!
# Delayed actions of the event loop

The list of timeouts is sorted by the time at which they are due, those due together in the order in which
they were posted. Every action that was posted is still in the list, due its delay after it was posted, or has
run when it was due, or has been cancelled, and only one of the three (`DelayedRight`).
-/

set_option autoImplicit false

namespace GenieSdk.Analysis

open GenieSdk.Lib GenieSdk.Model

/-- `a` is due before `b`, or together with it and was posted before. -/
def DueBefore (a b : YloopTimeout) : Prop :=
  a.timeoutMs < b.timeoutMs ∨ a.timeoutMs = b.timeoutMs ∧ a.id < b.id

/-- What the posted action with the number `id` is to be: due `ms` after it was posted. -/
def PostedAction.timeout (id : ℕ) (post : PostedAction) : YloopTimeout :=
  { timeoutMs := post.time + post.ms, privateData := post.privateData, cb := post.cb, ms := post.ms, id }

/-- All that is to be done of what was posted, in the order of posting. -/
def timeoutsOf (posted : List PostedAction) : List YloopTimeout := posted.mapIdx PostedAction.timeout

/-- What was posted is in the list, or has run, or was cancelled. -/
structure DelayedRight (s : EventLoop) : Prop where
  sorted : s.timeouts.Pairwise DueBefore
  once : (s.ran.map Prod.fst ++ s.cancelled ++ s.timeouts).Perm (timeoutsOf s.posted)
  due : ∀ r ∈ s.ran, r.1.timeoutMs ≤ r.2

variable {s s' : EventLoop}

/-- The invariant holds at the start. -/
theorem delayedRight_init : DelayedRight eventLoopInit :=
  ⟨List.Pairwise.nil, List.Perm.refl [], fun _ h => absurd h List.not_mem_nil⟩

/-- What was posted is numbered in the order of posting. -/
theorem timeoutsOf_ids (posted : List PostedAction) :
    (timeoutsOf posted).map YloopTimeout.id = List.range posted.length := by
  have hid : ∀ (i : ℕ) (post : PostedAction), (PostedAction.timeout i post).id = i := fun _ _ => rfl
  apply List.ext_getElem
  · simp [timeoutsOf]
  · intro i h₁ h₂
    simp [timeoutsOf, hid]

/-- What has run, was cancelled or is pending is what was posted under its number. -/
theorem DelayedRight.posted (h : DelayedRight s) {tmo : YloopTimeout}
    (hmem : tmo ∈ s.ran.map Prod.fst ++ s.cancelled ++ s.timeouts) :
    ∃ post, s.posted[tmo.id]? = some post ∧ tmo = PostedAction.timeout tmo.id post := by
  obtain ⟨i, hi, heq⟩ := List.mem_iff_getElem.1 (h.once.mem_iff.1 hmem)
  simp only [timeoutsOf, List.getElem_mapIdx] at heq
  simp only [timeoutsOf, List.length_mapIdx] at hi
  have hid : i = tmo.id := by
    rw [← heq]
    rfl
  subst hid
  exact ⟨s.posted[tmo.id], List.getElem?_eq_getElem hi, heq.symm⟩

/-- What concerns the delayed actions is the same. -/
structure SameDelayed (s s' : EventLoop) : Prop where
  timeouts : s'.timeouts = s.timeouts
  posted : s'.posted = s.posted
  ran : s'.ran = s.ran
  cancelled : s'.cancelled = s.cancelled

/-- It depends on the timeouts only. -/
theorem DelayedRight.congr (h : DelayedRight s) (hsame : SameDelayed s s') : DelayedRight s' := by
  obtain ⟨htimeouts, hposted, hran, hcancelled⟩ := hsame
  constructor
  · rw [htimeouts]
    exact h.sorted
  · rw [hran, hcancelled, htimeouts, hposted]
    exact h.once
  · rw [hran]
    exact h.due

/-- No two posted actions are the same. -/
theorem timeoutsOf_nodup (posted : List PostedAction) : (timeoutsOf posted).Nodup := by
  apply List.Nodup.of_map YloopTimeout.id
  rw [timeoutsOf_ids]
  exact List.nodup_range

/-- An entry of the list has a smaller number than the next one posted. -/
theorem DelayedRight.id_lt (h : DelayedRight s) {tmo : YloopTimeout} (hmem : tmo ∈ s.timeouts) :
    tmo.id < s.posted.length := by
  obtain ⟨post, hpost, -⟩ := h.posted (List.mem_append_right _ hmem)
  exact (List.getElem?_eq_some_iff.1 hpost).1

/-- **Posting keeps the list sorted**: the new entry goes behind those that are due together with it. -/
theorem pairwise_orderedInsert {l : List YloopTimeout} {tmo : YloopTimeout} (h : l.Pairwise DueBefore)
    (hid : ∀ t ∈ l, t.id < tmo.id) :
    (l.orderedInsert (fun a b => a.timeoutMs < b.timeoutMs) tmo).Pairwise DueBefore := by
  induction l with
  | nil => exact List.pairwise_singleton _ _
  | cons t l ih =>
    obtain ⟨hall, hrest⟩ := List.pairwise_cons.1 h
    rw [List.orderedInsert_cons]
    by_cases hlt : tmo.timeoutMs < t.timeoutMs
    · rw [if_pos hlt, List.pairwise_cons]
      refine ⟨fun u hu => Or.inl ?_, h⟩
      obtain rfl | hu := List.mem_cons.1 hu
      · exact hlt
      · obtain hbefore | ⟨heq, -⟩ := hall u hu
        · exact hlt.trans hbefore
        · rwa [← heq]
    · rw [if_neg hlt, List.pairwise_cons]
      refine ⟨fun u hu => ?_, ih hrest fun u hu => hid u (List.mem_cons_of_mem t hu)⟩
      obtain rfl | hu := (List.mem_orderedInsert _).1 hu
      · obtain hlater | heq := lt_or_eq_of_le (not_lt.1 hlt)
        · exact Or.inl hlater
        · exact Or.inr ⟨heq, hid t List.mem_cons_self⟩
      · exact hall u hu

/-- An action is posted. -/
theorem DelayedRight.post (h : DelayedRight s) (ms : ℤ) (action param : ℕ)
    (hstep : eventLoopStep s (.postDelayed ms action param) = some s') : DelayedRight s' := by
  cases hstep
  unfold aosPostDelayedAction
  by_cases hnull : action = 0
  · simp only [if_pos hnull]
    exact h.congr ⟨rfl, rfl, rfl, rfl⟩
  · simp only [if_neg hnull]
    refine ⟨pairwise_orderedInsert h.sorted fun t ht => h.id_lt ht, ?_, h.due⟩
    have hinsert := List.perm_orderedInsert (fun a b : YloopTimeout => a.timeoutMs < b.timeoutMs)
      { timeoutMs := s.now + ms, privateData := param, cb := action, ms, id := s.posted.length }
      s.timeouts
    refine (hinsert.append_left _).trans (List.perm_middle.trans ?_)
    refine (h.once.cons _).trans ((List.perm_append_singleton _ _).symm.trans ?_)
    have hposted : timeoutsOf (s.posted ++
        [{ time := s.now, ms, cb := action, privateData := param }]) = timeoutsOf s.posted ++
          [{ timeoutMs := s.now + ms, privateData := param, cb := action, ms, id := s.posted.length }] :=
      List.mapIdx_concat
    exact hposted ▸ List.Perm.refl _

/-- The entry that `aos_cancel_delayed_action` looks for is the one that was to be cancelled. -/
theorem firstPending_eq (s : EventLoop) (ms : ℤ) (cb privateData : ℕ) :
    firstPending s ms cb privateData = s.timeouts.find? (cancelMatches ms cb privateData) := by
  unfold firstPending
  congr 1
  funext tmo
  rw [Bool.eq_iff_iff]
  simp [cancelMatches, or_iff_not_imp_left, and_assoc]

/-- **A cancellation** takes the entry out, and nothing else. -/
theorem cancel_timeouts (s : EventLoop) (ms : ℤ) (cb privateData : ℕ) :
    (firstPending s ms cb privateData = none ∧
      (aosCancelDelayedAction s ms cb privateData).timeouts = s.timeouts) ∨
    ∃ tmo before after, firstPending s ms cb privateData = some tmo ∧
      s.timeouts = before ++ tmo :: after ∧
      (aosCancelDelayedAction s ms cb privateData).timeouts = before ++ after := by
  rw [firstPending_eq]
  cases hfind : s.timeouts.find? (cancelMatches ms cb privateData) with
  | none => exact .inl ⟨rfl, List.eraseP_of_forall_not (List.find?_eq_none.1 hfind)⟩
  | some tmo =>
    obtain ⟨hmatch, before, after, heq, hnot⟩ := List.find?_eq_some_iff_append.1 hfind
    refine .inr ⟨tmo, before, after, rfl, heq, ?_⟩
    change s.timeouts.eraseP (cancelMatches ms cb privateData) = before ++ after
    rw [heq, List.eraseP_append_right _ fun t ht => by simpa using hnot t ht,
      List.eraseP_cons_of_pos hmatch]

/-- An action is cancelled. -/
theorem DelayedRight.cancel (h : DelayedRight s) (ms : ℤ) (cb privateData : ℕ)
    (hstep : eventLoopStep s (.cancelDelayed ms cb privateData) = some s') : DelayedRight s' := by
  cases hstep
  refine ⟨h.sorted.sublist List.eraseP_sublist, ?_, h.due⟩
  change (s.ran.map Prod.fst ++ (s.cancelled ++ (firstPending s ms cb privateData).toList) ++
    (aosCancelDelayedAction s ms cb privateData).timeouts).Perm (timeoutsOf s.posted)
  obtain ⟨hnone, hsame⟩ | ⟨tmo, before, after, hsome, heq, herase⟩ := cancel_timeouts s ms cb privateData
  · rw [hnone, hsame, Option.toList_none, List.append_nil]
    exact h.once
  · have honce := h.once
    rw [heq] at honce
    rw [hsome, herase, Option.toList_some]
    refine List.Perm.trans ?_ honce
    -- the entry moves from its place in the list to the end of what is cancelled
    simp only [List.append_assoc, List.cons_append, List.nil_append]
    exact (List.perm_middle.symm.append_left _).append_left _

/-- The first entry of the list is taken out when it is due. -/
theorem DelayedRight.runTimeout (h : DelayedRight s) : DelayedRight (runTimeout s) := by
  unfold Model.runTimeout
  split
  · rename_i tmo timeouts heq
    split
    · rename_i hdue
      have hsorted := h.sorted
      have honce := h.once
      rw [heq] at hsorted honce
      refine ⟨(List.pairwise_cons.1 hsorted).2, ?_, ?_⟩
      · change ((s.ran ++ [(tmo, s.now)]).map Prod.fst ++ s.cancelled ++ timeouts).Perm
          (timeoutsOf s.posted)
        refine List.Perm.trans ?_ honce
        simp only [List.map_append, List.map_singleton, List.append_assoc, List.cons_append,
          List.nil_append]
        exact List.perm_middle.symm.append_left _
      · intro r hr
        obtain hr | hr := List.mem_append.1 hr
        · exact h.due r hr
        · obtain rfl := List.mem_singleton.1 hr
          exact hdue
    · exact h
  · exact h

/-- It holds on when the loop runs a timeout. -/
theorem DelayedRight.fire (h : DelayedRight s) (hstep : loopFire s = some s') : DelayedRight s' := by
  unfold loopFire at hstep
  split at hstep
  · cases hstep
    exact h.runTimeout.congr ⟨rfl, rfl, rfl, rfl⟩
  · cases hstep

/-- A call that is posted concerns no delayed action. -/
theorem scheduleCall_sameDelayed {id : ℕ} {func arg : UInt32} {urgent : Bool}
    (hstep : (scheduleCall s id func arg urgent).map (recordCall s func arg urgent) = some s') :
    SameDelayed s s' := by
  obtain ⟨t, hcall, rfl⟩ := Option.map_eq_some_iff.1 hstep
  have ht : SameDelayed s t := by
    unfold scheduleCall at hcall
    split at hcall
    · cases hcall
      exact ⟨rfl, rfl, rfl, rfl⟩
    · obtain ⟨dev, -, rfl⟩ := Option.map_eq_some_iff.1 hcall
      exact ⟨rfl, rfl, rfl, rfl⟩
  unfold recordCall
  split
  · exact ht
  · exact ⟨ht.timeouts, ht.posted, ht.ran, ht.cancelled⟩

/-- **One step** of the loop or of another task. -/
theorem DelayedRight.step {a : EventLoopAct} (h : DelayedRight s) (hstep : eventLoopStep s a = some s') :
    DelayedRight s' := by
  cases a with
  | pass ms =>
    cases hstep
    exact h.congr ⟨rfl, rfl, rfl, rfl⟩
  | postDelayed ms action param => exact h.post ms action param hstep
  | cancelDelayed ms cb privateData => exact h.cancel ms cb privateData hstep
  | schedule func arg => exact h.congr (scheduleCall_sameDelayed hstep)
  | scheduleUrgent func arg => exact h.congr (scheduleCall_sameDelayed hstep)
  | event buf urgent =>
    simp only [eventLoopStep] at hstep
    split at hstep
    · cases hstep
      exact h.congr ⟨rfl, rfl, rfl, rfl⟩
    · cases hstep
  | plan =>
    simp only [eventLoopStep, loopPlan] at hstep
    split at hstep
    · cases hstep
      exact h.congr ⟨rfl, rfl, rfl, rfl⟩
    · cases hstep
  | setup =>
    simp only [eventLoopStep, loopSetup] at hstep
    split at hstep
    · cases hstep
      exact h.congr ⟨rfl, rfl, rfl, rfl⟩
    · cases hstep
  | wake ret isset other =>
    simp only [eventLoopStep, loopWake] at hstep
    split at hstep
    · split at hstep
      · cases hstep
        exact h.congr ⟨rfl, rfl, rfl, rfl⟩
      · cases hstep
    · cases hstep
  | teardown =>
    simp only [eventLoopStep, loopTeardown] at hstep
    split at hstep
    · cases hstep
      exact h.congr ⟨rfl, rfl, rfl, rfl⟩
    · cases hstep
  | fire => exact h.fire hstep
  | read =>
    simp only [eventLoopStep, loopRead] at hstep
    split at hstep
    · split at hstep
      · cases hstep
        exact h.congr ⟨rfl, rfl, rfl, rfl⟩
      · cases hstep
        exact h.congr ⟨rfl, rfl, rfl, rfl⟩
    · cases hstep

/-- An action has run, was cancelled or is pending, never two of them. -/
theorem DelayedRight.nodup (h : DelayedRight s) :
    (s.ran.map Prod.fst ++ s.cancelled ++ s.timeouts).Nodup :=
  h.once.nodup_iff.2 (timeoutsOf_nodup s.posted)

/-- **No delayed action runs twice, or after it has been cancelled.** -/
theorem DelayedRight.ran_once (h : DelayedRight s) :
    (s.ran.map fun r => r.1.id).Nodup ∧ ∀ r ∈ s.ran, r.1 ∉ s.cancelled := by
  have hids : ((timeoutsOf s.posted).map YloopTimeout.id).Nodup := by
    rw [timeoutsOf_ids]
    exact List.nodup_range
  have hmap := (h.once.map YloopTimeout.id).nodup_iff.2 hids
  rw [List.append_assoc, List.map_append, List.map_map] at hmap
  refine ⟨(List.nodup_append.1 hmap).1, fun r hr hcancelled => ?_⟩
  have hfirst := (List.nodup_append'.1 h.nodup).1
  exact (List.nodup_append'.1 hfirst).2.2 (List.mem_map_of_mem (f := Prod.fst) hr) hcancelled

/-- **What has run was posted**, with its callback and its data, and has run when its delay was over. -/
theorem DelayedRight.ran_posted (h : DelayedRight s) {r : YloopTimeout × ℤ} (hr : r ∈ s.ran) :
    ∃ post, s.posted[r.1.id]? = some post ∧ r.1.cb = post.cb ∧ r.1.privateData = post.privateData ∧
      post.time + post.ms ≤ r.2 := by
  have hmem : r.1 ∈ s.ran.map Prod.fst ++ s.cancelled ++ s.timeouts :=
    List.mem_append_left _ (List.mem_append_left _ (List.mem_map_of_mem (f := Prod.fst) hr))
  obtain ⟨post, hpost, heq⟩ := h.posted hmem
  have hdue := h.due r hr
  rw [heq] at hdue
  exact ⟨post, hpost, congrArg YloopTimeout.cb heq, congrArg YloopTimeout.privateData heq, hdue⟩

/-- **A cancellation removes the first pending match**: it is pending no more, and all others are. -/
theorem DelayedRight.cancelled_gone (h : DelayedRight s) (ms : ℤ) (cb privateData : ℕ) (t : YloopTimeout) :
    t ∈ (aosCancelDelayedAction s ms cb privateData).timeouts ↔
      t ∈ s.timeouts ∧ firstPending s ms cb privateData ≠ some t := by
  obtain ⟨hnone, hsame⟩ | ⟨tmo, before, after, hsome, heq, herase⟩ := cancel_timeouts s ms cb privateData
  · rw [hnone, hsame]
    simp
  · have hnodup := (List.nodup_append'.1 h.nodup).2.1
    rw [heq, List.nodup_middle, List.nodup_cons] at hnodup
    rw [hsome, herase, heq]
    simp only [ne_eq, Option.some.injEq, List.mem_append, List.mem_cons] at hnodup ⊢
    constructor
    · intro ht
      refine ⟨by tauto, ?_⟩
      rintro rfl
      exact hnodup.1 ht
    · rintro ⟨ht | rfl | ht, hne⟩
      · exact .inl ht
      · exact absurd rfl hne
      · exact .inr ht

end GenieSdk.Analysis
