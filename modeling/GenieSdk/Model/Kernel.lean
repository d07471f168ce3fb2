import Mathlib.Tactic

/-!
# Kernel types and arithmetic

The status codes of `k_err.h` the modelled kernel calls return, the reasons a blocked task is
woken for and the priority order of blocked tasks (`k_pend.c`), and the unsigned arithmetic of the
32-bit `size_t` and the 64-bit `sys_time_t` on the target. Sizes, times and pointers are natural
numbers; wherever the source can wrap, the operation goes through `addSize`, `subSize`, `addTime`
or `subTime`.
-/

set_option autoImplicit false

namespace GenieSdk.Model

/-- `kstat_t` (k_err.h), restricted to the codes the modelled functions return. -/
inductive KStat
  | success
  | invParam
  | nullPtr
  | kobjTypeErr
  | mmPoolSizeErr
  | ringbufFull
  | ringbufEmpty
  | schedDisable
  | noPendWait
  | blkAbort
  | blkTimeout
  | blkDel
  | blkInvState
  | bufQueueSizeZero
  | bufQueueFull
  | bufQueueMsgSizeOverflow
  | notCalledByIntrpt
  | taskInvState
  | taskNotSuspended
  | taskSuspendNotAllowed
  | taskDelNotAllowed
  | suspendedCountOvf
  | priChgNotAllowed
  | beyondMaxPri
  | idleTaskExist
  | kobjDelErr
  | mutexOwnerNested
  | mutexNotReleasedByOwner
  | schedLockCountOvf
  | schedAlreadyEnabled
  | semOvf
  | workqueueWorkExist
  | workqueueWorkRunning
  deriving DecidableEq, Repr

/-- `blk_state_t` (k_obj.h). -/
inductive BlkState
  | finish
  | abort
  | timeout
  | del
  | invalid
  deriving DecidableEq, Repr

/-- `mm_alloc_flag` -/
inductive AllocFlag
  | staticAlloc
  | dynAlloc
  deriving DecidableEq, Repr

/-- `pend_state_end_proc` (k_pend.c:108-132). -/
def pendStateEndProc (b : BlkState) : KStat :=
  match b with
  | .finish => .success
  | .abort => .blkAbort
  | .timeout => .blkTimeout
  | .del => .blkDel
  | .invalid => .blkInvState

/-- `pend_list_add` (k_pend.c:7-20): before the first task of lower priority. -/
def pendListAdd (prio : ℕ → ℕ) (task : ℕ) : List ℕ → List ℕ
  | [] => [task]
  | t :: ts => if prio task < prio t then task :: t :: ts else t :: pendListAdd prio task ts

/-- The insertion puts the task among those that wait. -/
theorem pendListAdd_perm (prio : ℕ → ℕ) (task : ℕ) (l : List ℕ) :
    (pendListAdd prio task l).Perm (task :: l) := by
  induction l with
  | nil => exact List.Perm.refl _
  | cons t ts ih =>
    unfold pendListAdd
    split
    · exact List.Perm.refl _
    · exact (ih.cons t).trans (List.Perm.swap task t ts)

/-- The number of values of the 32-bit `size_t`. -/
@[irreducible] def sizeRange : ℕ := 2 ^ 32

/-- `a + b` in `size_t`, for `a` and `b` in range. -/
def addSize (a b : ℕ) : ℕ := if a + b < sizeRange then a + b else a + b - sizeRange

/-- `a - b` in `size_t`, for `a` and `b` in range. -/
def subSize (a b : ℕ) : ℕ := if b ≤ a then a - b else a + sizeRange - b

/-- `a + b` in `sys_time_t` -/
def addTime (a b : ℕ) : ℕ := (a + b) % 2 ^ 64

/-- `a - b` in `sys_time_t` -/
def subTime (a b : ℕ) : ℕ := (a + 2 ^ 64 - b) % 2 ^ 64

/-- `(int)a - (int)b`: the low 32 bits of the difference. -/
def intDelta (a b : ℕ) : ℤ := Int.bmod ((a : ℤ) - b) (2 ^ 32)

/-- The value of `sizeRange`, for arithmetic. -/
theorem sizeRange_eq : sizeRange = 4294967296 := by
  unfold sizeRange
  norm_num

/-- Without overflow `addSize` is addition. -/
theorem addSize_eq {a b : ℕ} (h : a + b < sizeRange) : addSize a b = a + b :=
  if_pos h

/-- Without underflow `subSize` is subtraction. -/
theorem subSize_eq {a b : ℕ} (h : b ≤ a) : subSize a b = a - b :=
  if_pos h

end GenieSdk.Model
