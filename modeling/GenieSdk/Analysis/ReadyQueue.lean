import GenieSdk.Analysis.Bitmap
import GenieSdk.Model.RunQueue

/-!
# The ready queue

What the lists, the bitmap and `highest_pri` of the run queue say together, and that each
`ready_list_*` function keeps it. `ready t` is the priority at which task `t` is ready, if it is;
a function that adds or removes a task changes `ready` at that task alone.
-/

set_option autoImplicit false

namespace GenieSdk.Analysis.Rhino

open GenieSdk.Model.Rhino
open GenieSdk.Model (krhinoBitmapSet krhinoBitmapClear krhinoFindFirstBit)

/-- The run queue holds each task `t` once in the list of priority `ready t`, and nothing else; a
bit is set if and only if its list is not empty; `highest_pri` is the least such priority. -/
structure RunQueueOk (rq : RunQueue) (ready : ℕ → Option ℕ) : Prop where
  mem_iff : ∀ t p, t ∈ rq.curListItem p ↔ ready t = some p
  nodup : ∀ p, (rq.curListItem p).Nodup
  lt_priMax : ∀ t p, ready t = some p → p < priMax
  words : BitmapWords rq.taskBitMap
  length : rq.taskBitMap.length = numWords
  bit_iff : ∀ p, bitmapTest rq.taskBitMap p = true ↔ rq.curListItem p ≠ []
  highest : IsLeast {p | rq.curListItem p ≠ []} rq.highestPri

variable {rq rq' : RunQueue} {ready : ℕ → Option ℕ} {task prio : ℕ}

/-- The word of a priority's bit is in the bitmap. -/
theorem word_lt (h : rq.taskBitMap.length = numWords) (hp : prio < priMax) :
    prio / 32 < rq.taskBitMap.length := by
  rw [h]
  unfold numWords priMax at *
  omega

/-- A task that is not ready is in no list. -/
theorem RunQueueOk.notMem (h : RunQueueOk rq ready) (ht : ready task = none) (p : ℕ) :
    task ∉ rq.curListItem p := by
  rw [h.mem_iff, ht]
  simp

/-- `highest_pri` after `ready_list_init` is the lesser of the two priorities. -/
theorem readyListInit_eq (rq : RunQueue) (task prio : ℕ) :
    readyListInit rq task prio =
      { curListItem := Function.update rq.curListItem prio [task]
        taskBitMap := krhinoBitmapSet rq.taskBitMap prio
        highestPri := min prio rq.highestPri } := by
  have hmin : (if prio < rq.highestPri then prio else rq.highestPri) = min prio rq.highestPri := by
    rw [Nat.min_def]
    split_ifs <;> omega
  rw [← hmin]
  rfl

/-- The first task of a priority. -/
theorem RunQueueOk.init (h : RunQueueOk rq ready) (ht : ready task = none) (hp : prio < priMax)
    (hempty : rq.curListItem prio = []) :
    RunQueueOk (readyListInit rq task prio) (Function.update ready task (some prio)) where
  mem_iff t p := by
    simp only [readyListInit_eq, Function.update_apply]
    by_cases htt : t = task
    · subst htt
      by_cases hpp : p = prio
      · simp [hpp]
      · simp [hpp, Ne.symm hpp, h.notMem ht]
    · by_cases hpp : p = prio
      · subst hpp
        have hnot : ready t ≠ some p := by
          rw [ne_eq, ← h.mem_iff, hempty]
          simp
        simp [htt, hnot]
      · simp [hpp, htt, h.mem_iff]
  nodup p := by
    simp only [readyListInit_eq, Function.update_apply]
    split
    · simp
    · exact h.nodup p
  lt_priMax t p htp := by
    rw [Function.update_apply] at htp
    split at htp
    · cases htp
      exact hp
    · exact h.lt_priMax t p htp
  words := h.words.set prio
  length := by
    simp only [readyListInit_eq, krhinoBitmapSet, List.length_set]
    exact h.length
  bit_iff p := by
    simp only [readyListInit_eq, Function.update_apply,
      bitmapTest_set (word_lt h.length hp)]
    by_cases hpp : p = prio
    · simp [hpp]
    · simp [hpp, h.bit_iff]
  highest := by
    obtain ⟨hmem, hleast⟩ := h.highest
    simp only [readyListInit_eq, Function.update_apply]
    constructor
    · rw [Set.mem_ofPred_eq]
      by_cases hlt : prio < rq.highestPri
      · simp [min_eq_left hlt.le]
      · rw [min_eq_right (not_lt.1 hlt)]
        split
        · simp
        · exact hmem
    · intro p hpne
      rw [Set.mem_ofPred_eq] at hpne
      by_cases hpp : p = prio
      · rw [hpp]
        exact min_le_left _ _
      · rw [if_neg hpp] at hpne
        exact (min_le_right _ _).trans (hleast hpne)

/-- A list that is not empty and stays so is replaced; bitmap and `highest_pri` stay. -/
theorem RunQueueOk.setList {ready' : ℕ → Option ℕ} {l : List ℕ} (h : RunQueueOk rq ready)
    (hp : prio < priMax) (hold : rq.curListItem prio ≠ []) (hnew : l ≠ []) (hl : l.Nodup)
    (hmem : ∀ t, t ∈ l ↔ ready' t = some prio)
    (hother : ∀ t p, p ≠ prio → (ready' t = some p ↔ ready t = some p)) :
    RunQueueOk (rq.setList prio l) ready' where
  mem_iff t p := by
    simp only [RunQueue.setList, Function.update_apply]
    by_cases hpp : p = prio
    · subst hpp
      rw [if_pos rfl]
      exact hmem t
    · rw [if_neg hpp, hother t p hpp]
      exact h.mem_iff t p
  nodup p := by
    simp only [RunQueue.setList, Function.update_apply]
    split
    · exact hl
    · exact h.nodup p
  lt_priMax t p htp := by
    by_cases hpp : p = prio
    · rw [hpp]
      exact hp
    · exact h.lt_priMax t p ((hother t p hpp).1 htp)
  words := h.words
  length := h.length
  bit_iff p := by
    simp only [RunQueue.setList, Function.update_apply]
    by_cases hpp : p = prio
    · subst hpp
      simp [hnew, h.bit_iff, hold]
    · simp [hpp, h.bit_iff]
  highest := by
    have hset : {p | Function.update rq.curListItem prio l p ≠ []} =
        {p | rq.curListItem p ≠ []} := by
      ext p
      simp only [Set.mem_ofPred_eq, Function.update_apply]
      by_cases hpp : p = prio
      · subst hpp
        simp [hnew, hold]
      · simp [hpp]
    simp only [RunQueue.setList]
    rw [hset]
    exact h.highest

/-- One more task in a list that is not empty, at either end. -/
theorem RunQueueOk.insert {l : List ℕ} (h : RunQueueOk rq ready) (ht : ready task = none)
    (hp : prio < priMax) (hold : rq.curListItem prio ≠ [])
    (hl : l.Perm (task :: rq.curListItem prio)) :
    RunQueueOk (rq.setList prio l) (Function.update ready task (some prio)) := by
  apply h.setList hp hold
  · intro hnil
    rw [hnil] at hl
    exact List.cons_ne_nil _ _ (List.nil_perm.1 hl)
  · rw [hl.nodup_iff, List.nodup_cons]
    exact ⟨h.notMem ht prio, h.nodup prio⟩
  · intro t
    rw [hl.mem_iff, List.mem_cons, Function.update_apply]
    by_cases htt : t = task
    · simp [htt]
    · simp [htt, h.mem_iff]
  · intro t p hpp
    rw [Function.update_apply]
    by_cases htt : t = task
    · subst htt
      simp [ht, Ne.symm hpp]
    · simp [htt]

/-- A task that joins at the tail leaves the queue right. -/
theorem RunQueueOk.addTail (h : RunQueueOk rq ready) (ht : ready task = none) (hp : prio < priMax) :
    RunQueueOk (readyListAddTail rq task prio) (Function.update ready task (some prio)) := by
  unfold readyListAddTail
  split
  case isTrue hempty => exact h.init ht hp hempty
  case isFalse hold => exact h.insert ht hp hold List.perm_append_comm

/-- So does one that joins at the head. -/
theorem RunQueueOk.addHead (h : RunQueueOk rq ready) (ht : ready task = none) (hp : prio < priMax) :
    RunQueueOk (readyListAddHead rq task prio) (Function.update ready task (some prio)) := by
  unfold readyListAddHead
  split
  case isTrue hempty => exact h.init ht hp hempty
  case isFalse hold => exact h.insert ht hp hold (List.Perm.refl _)

/-- Or at either end. -/
theorem RunQueueOk.add (h : RunQueueOk rq ready) (ht : ready task = none) (hp : prio < priMax)
    (activePrio : ℕ) :
    RunQueueOk (readyListAdd rq task prio activePrio) (Function.update ready task (some prio)) := by
  unfold readyListAdd
  split
  · exact h.addTail ht hp
  · exact h.addHead ht hp

/-- The last task of a priority leaves; `i` is the new `highest_pri`. -/
theorem RunQueueOk.clear {i : ℕ} (h : RunQueueOk rq ready) (hlist : rq.curListItem prio = [task])
    (hi : IsLeast {p | p ≠ prio ∧ rq.curListItem p ≠ []} i) :
    RunQueueOk { curListItem := Function.update rq.curListItem prio []
                 taskBitMap := krhinoBitmapClear rq.taskBitMap prio
                 highestPri := i } (Function.update ready task none) where
  mem_iff t p := by
    have ht : ready task = some prio := by rw [← h.mem_iff, hlist]; simp
    simp only [Function.update_apply]
    by_cases hpp : p = prio
    · subst hpp
      by_cases htt : t = task
      · simp [htt]
      · have hnot : ready t ≠ some p := by
          rw [ne_eq, ← h.mem_iff, hlist]
          simp [htt]
        simp [htt, hnot]
    · by_cases htt : t = task
      · subst htt
        simp [hpp, h.mem_iff, ht, Ne.symm hpp]
      · simp [hpp, htt, h.mem_iff]
  nodup p := by
    simp only [Function.update_apply]
    split
    · simp
    · exact h.nodup p
  lt_priMax t p htp := by
    rw [Function.update_apply] at htp
    split at htp
    · cases htp
    · exact h.lt_priMax t p htp
  words := h.words.clear prio
  length := by
    simp only [krhinoBitmapClear, List.length_set]
    exact h.length
  bit_iff p := by
    have hp : prio < priMax := h.lt_priMax task prio (by rw [← h.mem_iff, hlist]; simp)
    simp only [Function.update_apply, bitmapTest_clear (word_lt h.length hp)]
    by_cases hpp : p = prio
    · simp [hpp]
    · simp [hpp, h.bit_iff]
  highest := by
    have hset : {p | Function.update rq.curListItem prio [] p ≠ []} =
        {p | p ≠ prio ∧ rq.curListItem p ≠ []} := by
      ext p
      simp only [Set.mem_ofPred_eq, Function.update_apply]
      by_cases hpp : p = prio
      · simp [hpp]
      · simp [hpp]
    rw [hset]
    exact hi

/-- `ready_list_rm` of a ready task. -/
theorem RunQueueOk.rm (h : RunQueueOk rq ready) (ht : ready task = some prio)
    (hrm : readyListRm rq task prio = some rq') :
    RunQueueOk rq' (Function.update ready task none) := by
  have hmem : task ∈ rq.curListItem prio := (h.mem_iff task prio).2 ht
  obtain ⟨hhigh, hleast⟩ := h.highest
  unfold readyListRm at hrm
  split at hrm
  case h_1 hlist =>
    cases hrm
  case h_2 u hlist =>
    -- the list of the priority becomes empty
    obtain rfl : task = u := by
      rw [hlist] at hmem
      simpa using hmem
    by_cases hne : prio ≠ rq.highestPri
    · replace hrm := (if_pos (c := prio ≠ (rq.setList prio []).highestPri) hne).symm.trans hrm
      cases hrm
      apply h.clear hlist
      exact ⟨⟨Ne.symm hne, hhigh⟩, fun p hp => hleast hp.2⟩
    · replace hrm := (if_neg (c := prio ≠ (rq.setList prio []).highestPri) hne).symm.trans hrm
      obtain ⟨i, hi, rfl⟩ := Option.map_eq_some_iff.1 hrm
      have hp : prio < priMax := h.lt_priMax task prio ht
      obtain ⟨hset, hfirst⟩ := krhinoFindFirstBit_spec (h.words.clear prio) hi
      simp only [bitmapTest_clear (word_lt h.length hp)] at hset hfirst
      apply h.clear hlist
      constructor
      · simpa [h.bit_iff, and_comm] using hset
      · intro p hpp
        by_contra hlt
        have := hfirst p (by omega)
        simp [(h.bit_iff p).2 hpp.2, hpp.1] at this
  case h_3 l hnil hone =>
    cases hrm
    apply h.setList (h.lt_priMax task prio ht) (List.ne_nil_of_mem hmem)
    · intro he
      have hlen := List.length_erase_of_mem hmem
      rw [he, List.length_nil] at hlen
      obtain ⟨u, hu⟩ := List.length_eq_one_iff.1 (by
        have := List.length_pos_of_mem hmem
        omega : (rq.curListItem prio).length = 1)
      exact hone u hu
    · exact (h.nodup prio).erase task
    · intro t
      rw [(h.nodup prio).mem_erase_iff, Function.update_apply]
      by_cases htt : t = task
      · simp [htt]
      · simp [htt, h.mem_iff]
    · intro t p hpp
      rw [Function.update_apply]
      by_cases htt : t = task
      · subst htt
        simp [ht, Ne.symm hpp]
      · simp [htt]

/-- A task that is not the last ready one can be removed. -/
theorem RunQueueOk.rm_total {u q : ℕ} (h : RunQueueOk rq ready) (ht : ready task = some prio)
    (hu : ready u = some q) (hne : u ≠ task) : ∃ rq', readyListRm rq task prio = some rq' := by
  have hmem : task ∈ rq.curListItem prio := (h.mem_iff task prio).2 ht
  have hother : u ∈ rq.curListItem q := (h.mem_iff u q).2 hu
  unfold readyListRm
  split
  case h_1 hlist =>
    rw [hlist] at hmem
    cases hmem
  case h_2 v hlist =>
    -- the other task is ready at another priority, whose bit stays
    have hq : q ≠ prio := by
      rintro rfl
      rw [hlist, List.mem_singleton] at hmem hother
      exact hne (hother.trans hmem.symm)
    have hp : prio < priMax := h.lt_priMax task prio ht
    have hbit : bitmapTest (krhinoBitmapClear rq.taskBitMap prio) q = true := by
      rw [bitmapTest_clear (word_lt h.length hp), (h.bit_iff q).2 (List.ne_nil_of_mem hother)]
      simp [hq]
    obtain ⟨i, hi⟩ := krhinoFindFirstBit_total hbit
    apply Option.isSome_iff_exists.1
    by_cases hhigh : prio = rq.highestPri
    · simp [RunQueue.setList, ← hhigh, hi]
    · simp [RunQueue.setList, hhigh]
  case h_3 => exact ⟨_, rfl⟩

/-- Rotating a list. -/
theorem RunQueueOk.headToTail (h : RunQueueOk rq ready)
    (hrot : readyListHeadToTail rq prio = some rq') : RunQueueOk rq' ready := by
  unfold readyListHeadToTail at hrot
  split at hrot
  case h_1 => cases hrot
  case h_2 first rest hlist =>
    cases hrot
    have hperm : (rest ++ [first]).Perm (rq.curListItem prio) := by
      rw [hlist]
      exact List.perm_append_comm
    have hp : prio < priMax := h.lt_priMax first prio (by rw [← h.mem_iff, hlist]; simp)
    apply h.setList hp (by rw [hlist]; simp) (by simp)
    · exact hperm.nodup_iff.2 (h.nodup prio)
    · intro t
      rw [hperm.mem_iff, h.mem_iff]
    · intro t p _
      exact Iff.rfl

/-- **Rotation keeps the order of the other tasks.** -/
theorem readyListHeadToTail_order (h : RunQueueOk rq ready)
    (hrot : readyListHeadToTail rq prio = some rq') :
    ∃ first rest, rq.curListItem prio = first :: rest ∧ rq'.curListItem prio = rest ++ [first] ∧
      ∀ p, (rq'.curListItem p).erase first = (rq.curListItem p).erase first := by
  unfold readyListHeadToTail at hrot
  split at hrot
  case h_1 => cases hrot
  case h_2 first rest hlist =>
    cases hrot
    refine ⟨first, rest, hlist, by simp [RunQueue.setList], ?_⟩
    intro p
    simp only [RunQueue.setList, Function.update_apply]
    split
    case isTrue hpp =>
      subst hpp
      have hnot : first ∉ rest := by
        have := h.nodup p
        rw [hlist] at this
        exact (List.nodup_cons.1 this).1
      rw [hlist, List.erase_append_right _ hnot]
      simp
    case isFalse => rfl

/-- The run queue with its first task, as `krhino_init` leaves it. -/
theorem runQueueOk_start (hp : prio < priMax) :
    RunQueueOk (readyListAddTail runqueueInit task prio)
      (Function.update (fun _ => none) task (some prio)) := by
  have hwords : BitmapWords runqueueInit.taskBitMap := by
    intro w hw
    rw [List.eq_of_mem_replicate hw]
    norm_num
  have hzero : ∀ p, bitmapTest runqueueInit.taskBitMap p = false := by
    intro p
    unfold bitmapTest runqueueInit
    have hget : (List.replicate numWords 0).getD (p / 32) 0 = 0 := by
      rw [List.getD_eq_getElem?_getD, List.getElem?_replicate]
      split
      · rfl
      · rfl
    rw [hget, Nat.zero_testBit]
  unfold readyListAddTail
  rw [if_pos (show runqueueInit.curListItem prio = [] from rfl)]
  constructor
  case mem_iff =>
    intro t p
    simp only [readyListInit_eq, runqueueInit, Function.update_apply]
    by_cases htt : t = task
    · by_cases hpp : p = prio
      · simp [htt, hpp]
      · simp [htt, hpp, Ne.symm hpp]
    · by_cases hpp : p = prio
      · simp [htt, hpp]
      · simp [htt, hpp]
  case nodup =>
    intro p
    simp only [readyListInit_eq, runqueueInit, Function.update_apply]
    split
    · simp
    · simp
  case lt_priMax =>
    intro t p htp
    rw [Function.update_apply] at htp
    split at htp
    · cases htp
      exact hp
    · cases htp
  case words => exact hwords.set prio
  case length => simp [readyListInit_eq, krhinoBitmapSet, runqueueInit]
  case bit_iff =>
    intro p
    have hword : prio / 32 < runqueueInit.taskBitMap.length :=
      word_lt (by simp only [runqueueInit, List.length_replicate]) hp
    simp only [readyListInit_eq, bitmapTest_set hword, hzero, Function.update_apply]
    by_cases hpp : p = prio
    · simp [hpp]
    · simp [hpp, runqueueInit]
  case highest =>
    simp only [readyListInit_eq, runqueueInit, min_eq_left hp.le, Function.update_apply]
    constructor
    · simp
    · intro p hpne
      simp only [Set.mem_ofPred_eq] at hpne
      by_cases hpp : p = prio
      · rw [hpp]
      · simp [hpp] at hpne

end GenieSdk.Analysis.Rhino
