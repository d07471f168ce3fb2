import GenieSdk.Analysis.WaitOutcomes

/-!
# Who waits for an object

A task comes to wait for an object that is no mutex through `blkObjPend` alone: **every other call of the
kernel leaves the tasks that wait for such an object where they are or takes them away**
(`kernStep_keeps`), whatever the outcome of their waits.
-/

set_option autoImplicit false

namespace GenieSdk.Analysis.Rhino

open GenieSdk.Model.Rhino
open GenieSdk.Model (BlkState)

/-- An object that is no mutex stays one, and no task comes to wait for it. -/
def KeepsWaiters (obj : ℕ) (s s' : Kern) : Prop :=
  (s.objs obj).objType = .other → (s'.objs obj).objType = .other ∧
    ∀ t, waitsFor (s'.tasks t) = some obj → waitsFor (s.tasks t) = some obj

section Keeps

variable {P : ℕ → Prop} {obj task fuel : ℕ} {s s' s₁ s₂ s₃ : Kern} {del : Option ℕ}

/-- Nothing is done. -/
theorem KeepsWaiters.refl (obj : ℕ) (s : Kern) : KeepsWaiters obj s s := fun h => ⟨h, fun _ h => h⟩

/-- Two steps that keep the tasks that wait for an object. -/
theorem KeepsWaiters.trans (h : KeepsWaiters obj s₁ s₂) (h' : KeepsWaiters obj s₂ s₃) :
    KeepsWaiters obj s₁ s₃ := by
  intro htype
  obtain ⟨h₁, hw₁⟩ := h htype
  obtain ⟨h₂, hw₂⟩ := h' h₁
  exact ⟨h₂, fun t ht => hw₁ t (hw₂ t ht)⟩

/-- Nothing need be said of the outcomes. -/
theorem keeps_of_kept (h : (s.objs obj).objType = .other →
    Kept (fun o => o = obj) (fun _ => True) s s') : KeepsWaiters obj s s' := by
  intro htype
  have hkept := h htype
  exact ⟨(hkept.type obj rfl).trans htype, fun t ht => hkept.waiters obj t rfl ht⟩

/-- The end of a wait keeps the other tasks. -/
theorem pendTaskEnd_keeps {b : BlkState} (hc : pendTaskEnd s task b = some s') :
    KeepsWaiters obj s s' :=
  keeps_of_kept fun _ => pendTaskEnd_kept hc fun h => absurd trivial h

/-- Waking the tasks of another object keeps them. -/
theorem pendTaskRmAll_keeps {mutex : ℕ} (hc : pendTaskRmAll fuel s mutex = some s') :
    KeepsWaiters obj s s' :=
  keeps_of_kept fun _ => pendTaskRmAll_kept hc

/-- A task blocks on another object. -/
theorem pendToBlkObj_keeps {o ticks : ℕ} (hne : o ≠ obj) (hticks : 0 < ticks)
    (hc : pendToBlkObj s o task ticks = some s') : KeepsWaiters obj s s' :=
  keeps_of_kept fun _ => pendToBlkObj_kept hne trivial hticks hc

/-- A task is deleted; who gets its mutexes does not matter. -/
theorem Deletes.kept_all (hc : Deletes fuel s task s') (hk : KernOk s del) :
    Kept P (fun _ => True) s s' := by
  obtain ⟨s₁, hfree, ⟨-, rfl⟩ | hswitch⟩ := hc
  · exact taskMutexFree_kept_all hfree
  · exact (taskMutexFree_kept_all hfree).trans
      (taskDelSwitch_kept (taskMutexFree_ok hk hfree) trivial hswitch)

/-- So does every call that is not about the object. -/
theorem kernCall_keeps {c : KernCall} (h : KernOk s none) (hother : ¬ UsesObj obj c)
    (hc : kernCall fuel s c = some s') : KeepsWaiters obj s s' := by
  refine keeps_of_kept fun htype => kernCall_kept h ?_ (.inl trivial) ?_ hc
  · rintro o rfl
    exact ⟨htype, hother⟩
  · rintro given (rfl | rfl)
    · obtain ⟨st, hc⟩ := map_snd_eq hc
      obtain rfl | ⟨-, hdel⟩ := krhinoTaskDel_cases hc
      · exact .refl _ _ _
      · exact hdel.kept_all h
    · obtain ⟨st, hc⟩ := map_snd_eq hc
      obtain rfl | ⟨-, -, s₀, hgive, hdel⟩ := krhinoTaskDynDel_cases hc
      · exact .refl _ _ _
      · have hkept : Kept (fun o => o = obj) (fun _ => True) s s₀ := by
          obtain rfl | ⟨-, first, rest, -, hwake⟩ := resSemGive_cases hgive
          · exact .refl _ _ _
          · exact pendTaskEnd_kept hwake fun h => absurd trivial h
        exact hkept.trans (hdel.kept_all (resSemGive_ok h hgive))

/-- **Every step of the kernel** but a wait for the object itself keeps the object, and brings no task to
wait for it. -/
theorem kernStep_keeps {a : KernAct} (h : KernOk s none)
    (hother : ∀ c, a = .call c → ¬ UsesObj obj c) (hc : kernStep fuel s a = some s') :
    KeepsWaiters obj s s' := by
  obtain ⟨c, rfl, -, hcall⟩ | ⟨-, task, level, rfl⟩ := kernStep_cases hc
  · exact kernCall_keeps h (hother c rfl) hcall
  · exact keeps_of_kept fun _ => kept_of_tasks rfl fun _ _ => rfl

end Keeps

end GenieSdk.Analysis.Rhino
