import GenieSdk.Analysis.TimerSlots

/-!
# Messages that delete timers

The index of a timer travels from a byte of the message through an `int8_t` to comparisons with
`GENIE_TIME_MAX`. A byte below that bound removes the timer that carries it; every other byte, `0xFF`
among them, removes nothing. **A message does what it asks for exactly if each timer it is to delete
is named by a byte below the bound** (`timing_remove_iff`).
-/

set_option autoImplicit false

namespace GenieSdk.Analysis

open GenieSdk.Lib
open GenieSdk.Model

/-- The byte that stands for all timers. -/
def deleteAll : UInt8 := 0xFF

/-- The message asks for the timer to be deleted. -/
def AsksFor (indices : List UInt8) (node : GenieTimer) : Prop :=
  deleteAll ∈ indices ∨ ∃ b ∈ indices, b.toNat = node.index

instance (indices : List UInt8) (node : GenieTimer) : Decidable (AsksFor indices node) :=
  inferInstanceAs (Decidable (_ ∨ _))

/-- A byte of the message, below the bound, is the timer's index. -/
def Named (indices : List UInt8) (node : GenieTimer) : Prop :=
  node.index < genieTimeMax ∧ ∃ b ∈ indices, b.toNat = node.index

instance (indices : List UInt8) (node : GenieTimer) : Decidable (Named indices node) :=
  inferInstanceAs (Decidable (_ ∧ _))

/-- A byte from the bound on is refused or not found. -/
theorem genieTimeRemove_high {s : GenieTime} {b : ℕ} (hb : b < 256) (hge : genieTimeMax ≤ b) :
    (genieTimeRemove s (toI8 b)).2 = s := by
  have hne : toI8 b ≠ 0xFF := by
    unfold toI8
    split <;> omega
  have hfind : toI8 b < genieTimeMax → genieTimeFind s (toI8 b % 256).toNat = none := by
    intro hlt
    unfold genieTimeFind
    rw [if_pos]
    unfold toI8 genieTimeMax at *
    split at hlt <;> omega
  unfold genieTimeRemove
  rw [if_neg hne]
  unfold genieTimeStop
  split_ifs with hinit hupd hmax
  · rfl
  · rfl
  · rfl
  · rw [hfind (by omega)]

/-- A byte below the bound removes the active timer that carries it, if there is one. -/
theorem genieTimeRemove_low {s : GenieTime} (hs : TimersOk s) {b : ℕ} (hlt : b < genieTimeMax) :
    (genieTimeRemove s (toI8 b)).2.active = s.active.filter fun node => node.index ≠ b := by
  have hi8 : toI8 b = b := if_pos (by unfold genieTimeMax at hlt; omega)
  have hmod : ((b : ℤ) % 256).toNat = b := by
    unfold genieTimeMax at hlt
    omega
  unfold genieTimeMax at hlt
  rw [hi8, genieTimeRemove, if_neg (by omega), genieTimeStop, if_neg (by simp [hs.init])]
  by_cases hnil : s.active = []
  · have hfind : genieTimeFind s b = none := by
      unfold genieTimeFind genieTimeMax
      rw [if_neg (by omega), hnil]
      rfl
    rw [hmod, hfind]
    split_ifs <;> simp [hnil]
  · rw [if_neg (by simp [hs.update hnil]), if_neg (by unfold genieTimeMax; omega), hmod]
    cases hfind : genieTimeFind s b with
    | none =>
      refine (List.filter_eq_self.2 fun node hmem => ?_).symm
      simpa using genieTimeFind_none hfind hlt node hmem
    | some node =>
      obtain ⟨-, hmem, hindex⟩ := genieTimeFind_some hfind
      obtain ⟨l₁, l₂, hsplit, hactive⟩ := unlist_split hs.slots hmem
      have hothers := hs.index_ne hsplit (hindex.symm ▸ hlt)
      rw [hindex] at hothers
      show (s.unlist node).active = _
      have hkeep : (l₁ ++ l₂).filter (fun other => decide (other.index ≠ b)) = l₁ ++ l₂ :=
        List.filter_eq_self.2 fun other hother => decide_eq_true (hothers other hother)
      rw [hactive, hsplit, List.filter_append, List.filter_cons_of_neg (by simpa using hindex),
        ← List.filter_append, hkeep]

/-- One byte of the message. -/
theorem genieTimeRemove_active {s : GenieTime} (hs : TimersOk s) (b : UInt8) :
    (genieTimeRemove s (toI8 b.toNat)).2.active =
      s.active.filter fun node => ¬ Named [b] node := by
  by_cases hlt : b.toNat < genieTimeMax
  · rw [genieTimeRemove_low hs hlt]
    refine List.filter_congr fun node _ => decide_eq_decide.2 (not_congr ?_)
    simp only [Named, List.mem_singleton, exists_eq_left]
    exact ⟨fun h => ⟨h ▸ hlt, h.symm⟩, fun h => h.2.symm⟩
  · rw [genieTimeRemove_high b.toNat_lt (Nat.not_lt.1 hlt)]
    refine (List.filter_eq_self.2 fun node _ => decide_eq_true ?_).symm
    rintro ⟨hnode, hb⟩
    simp only [List.mem_singleton, exists_eq_left] at hb
    omega

/-- The loop over the bytes removes the timers that are named. -/
theorem genieTimeRemoveLoop_active {s : GenieTime} (hs : TimersOk s) (indices : List UInt8) :
    (genieTimeRemoveLoop s indices).active = s.active.filter fun node => ¬ Named indices node := by
  induction indices generalizing s with
  | nil =>
    refine (List.filter_eq_self.2 fun node _ => decide_eq_true ?_).symm
    rintro ⟨-, b, hb, -⟩
    cases hb
  | cons b rest ih =>
    have hs' : TimersOk (genieTimeRemove s (toI8 b.toNat)).2 :=
      (genieTimeRemove_effect s (toI8 b.toNat) True hs).1
    show (genieTimeRemoveLoop (genieTimeRemove s (toI8 b.toNat)).2 rest).active = _
    rw [ih hs', genieTimeRemove_active hs b, List.filter_filter]
    refine List.filter_congr fun node _ => ?_
    have hnamed : Named (b :: rest) node ↔ Named [b] node ∨ Named rest node := by
      simp only [Named, List.mem_cons, List.not_mem_nil, or_false, exists_eq_or_imp,
        exists_eq_left]
      tauto
    simp only [hnamed]
    by_cases h₁ : Named [b] node <;> by_cases h₂ : Named rest node <;> simp [h₁, h₂]

/-- What a deletion message does. -/
theorem genieTimeTimingRemoveEvent_delete (s : GenieTime) (indices : List UInt8) :
    genieTimeTimingRemoveEvent s timingSetAck (0x12 :: 0xF0 :: indices) =
      some (true, genieTimeRemoveLoop s indices) := by
  unfold genieTimeTimingRemoveEvent
  dsimp only
  rw [if_neg (by decide), if_neg (by decide)]

/-- **Deletion messages.** In every state reached by any calls, a message with any index bytes leaves
exactly the active timers it does not ask for if and only if each active timer it asks for is named by
a byte below `GENIE_TIME_MAX`. -/
theorem timing_remove_iff (as : List GenieTimeAct) (s : GenieTime) (indices : List UInt8)
    (hrun : runSteps genieTimeStep genieTimeInit as = some s) :
    (∃ s', genieTimeTimingRemoveEvent s timingSetAck (0x12 :: 0xF0 :: indices) = some (true, s') ∧
        s'.active = s.active.filter fun node => ¬ AsksFor indices node) ↔
      ∀ node ∈ s.active, AsksFor indices node → Named indices node := by
  have hasks : ∀ node, Named indices node → AsksFor indices node := fun _ h => Or.inr h.2
  rw [genieTimeTimingRemoveEvent_delete]
  simp only [Option.some.injEq, Prod.mk.injEq, true_and, exists_eq_left']
  rw [genieTimeRemoveLoop_active (timersOk_run hrun)]
  constructor
  · intro heq node hmem hask
    by_contra hno
    have hin : node ∈ s.active.filter fun node => ¬ AsksFor indices node := by
      rw [← heq]
      exact List.mem_filter.2 ⟨hmem, decide_eq_true hno⟩
    exact of_decide_eq_true (List.mem_filter.1 hin).2 hask
  · intro hall
    refine List.filter_congr fun node hmem => ?_
    rw [decide_eq_decide]
    exact not_congr ⟨hasks node, hall node hmem⟩

/-- Timers 3 and 4 are active, and 3 is deleted. -/
theorem timing_remove_three :
    ∃ s, runSteps genieTimeStep genieTimeInit
        [.localTimeUpdate 1610668800, .start 3 1610668900 { type := 0x100, para := 1 },
          .start 4 1610668900 { type := 0x100, para := 0 }] = some s ∧
      ∃ s', genieTimeTimingRemoveEvent s timingSetAck [0x12, 0xF0, 3] = some (true, s') ∧
        s'.active = s.active.filter fun node => ¬ AsksFor [3] node := by
  obtain ⟨s, hrun⟩ : ∃ s, runSteps genieTimeStep genieTimeInit
      [.localTimeUpdate 1610668800, .start 3 1610668900 { type := 0x100, para := 1 },
        .start 4 1610668900 { type := 0x100, para := 0 }] = some s := ⟨_, rfl⟩
  refine ⟨s, hrun, (timing_remove_iff _ s [3] hrun).2 ?_⟩
  cases hrun
  decide

/-- Timer 3 is active, and all timers are to be deleted. -/
theorem timing_remove_all_fails :
    ¬ ∀ (as : List GenieTimeAct) (s s' : GenieTime) (indices : List UInt8),
      runSteps genieTimeStep genieTimeInit as = some s →
      genieTimeTimingRemoveEvent s timingSetAck (0x12 :: 0xF0 :: indices) = some (true, s') →
      s'.active = s.active.filter fun node => ¬ AsksFor indices node := by
  intro hall
  have h := hall
    [.localTimeUpdate 1610668800, .start 3 1610668900 { type := 0x100, para := 1 }] _ _ [0xFF] rfl
    (genieTimeTimingRemoveEvent_delete _ _)
  revert h
  decide

end GenieSdk.Analysis
