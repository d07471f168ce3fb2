import GenieSdk.Analysis.TimerOrder
import GenieSdk.Analysis.WorkOrder

/-!
# A cancelled work

The works with the timer task that serves their timers. `krhino_work_cancel` looks at `wq` to tell
whether the timer of a delayed work has to be stopped, and the stop is only sent to the timer task.
**A work whose cancellation succeeded is not run before it is submitted again, provided that no
cancellation leaves a timer behind that may still fire, that the timer does not fire while the
stop waits, and that no submission or expiry of the work is half done** (`cancelled_not_run`).
-/

set_option autoImplicit false

namespace GenieSdk.Analysis

open GenieSdk.Lib GenieSdk.Model

/-! ## The system -/

/-- What the tasks and workers do, the timer task, ticks and what others do with their timers. -/
inductive WorkSysAct
  | work (a : WorkAct)
  | timer
  | other (a : TimerAct)
  deriving DecidableEq

/-- The timer whose callback the timer task calls next. SRCLINE: k_timer.c:243-249 -/
def dueTimer (t : TimerSys) : Option ℕ :=
  match t.pc with
  | .cbProc (some q) =>
    if intDelta (t.timers q).matchTick t.timerCount ≤ 0 then some q else none
  | _ => none

/-- The timer an action is about. -/
def timerOf : TimerAct → Option ℕ
  | .tick _ => none
  | .create timer _ _ _ _ => some timer
  | .dynCreate timer _ _ _ _ => some timer
  | .start timer => some timer
  | .stop timer => some timer
  | .change timer _ _ => some timer
  | .argChange timer _ => some timer
  | .argChangeAuto timer _ => some timer
  | .del timer => some timer
  | .dynDel timer => some timer
  | .task => none

/-- The timers of others have the numbers in `foreign`. -/
def workSysStep (foreign : ℕ → Bool) (s : WorkSys) : WorkSysAct → Option WorkSys
  | .work (.expire _ _) => none
  | .work (.init work dly) => if foreign work then none else workStep s (.init work dly)
  | .work a => workStep s a
  | .timer =>
    if s.timerCb = .none then
      match timerTask s.timers with
      | none => none
      | some timers =>
        match dueTimer s.timers with
        | none => some { s with timers := timers }
        | some q =>
          if foreign q then some { s with timers := timers }
          else
            some { s with timers := timers, timerCb := .enter q (s.timers.timers q).timerCbArg }
    else none
  | .other a =>
    if a = .task ∨ (timerOf a).any (fun timer => !foreign timer) then none
    else
      match timerStep s.timers a with
      | none => none
      | some timers => some { s with timers := timers }

/-- Whether a work is cancelled: its last successful cancellation came after its last
submission. -/
def cancelledAfter (work : ℕ) (cancelled : Bool) : WorkEvent → Bool
  | .run _ _ w => if w = work then false else cancelled
  | .cancelled _ w stat => if w = work ∧ stat = .success then true else cancelled
  | _ => cancelled

def cancelledIn (work : ℕ) (log : List WorkEvent) : Bool :=
  log.foldl (cancelledAfter work) false

/-- No handler of a cancelled work is invoked. -/
def CancelKept (log : List WorkEvent) : Prop :=
  ∀ pre wq work post, log = pre ++ .invoked wq work :: post → cancelledIn work pre = false

@[simp] theorem cancelledIn_append (work : ℕ) (log : List WorkEvent) (e : WorkEvent) :
    cancelledIn work (log ++ [e]) = cancelledAfter work (cancelledIn work log) e := by
  simp [cancelledIn]

/-- One more event, which invokes no work that is cancelled. -/
theorem CancelKept.append {log : List WorkEvent} {e : WorkEvent} (h : CancelKept log)
    (he : ∀ wq work, e = .invoked wq work → cancelledIn work log = false) :
    CancelKept (log ++ [e]) := by
  intro pre wq work post heq
  rcases List.eq_nil_or_concat post with rfl | ⟨post', last, rfl⟩
  · obtain ⟨hlog, hlast⟩ := List.append_inj' heq rfl
    rw [← hlog]
    exact he wq work (List.cons.inj hlast).1
  · rw [List.concat_eq_append, ← List.cons_append, ← List.append_assoc] at heq
    exact h pre wq work post' (List.append_inj' heq rfl).1

/-! ## The commands on their way to a timer -/

/-- The command the timer task has received and not yet carried out. -/
def receivedCmd (t : TimerSys) : List TimerQueueCb :=
  match t.pc with
  | .received cb => [cb]
  | .receivedInTime cb => [cb]
  | _ => []

/-- The commands that are still to be carried out. -/
def pendingCmds (t : TimerSys) : List TimerQueueCb := receivedCmd t ++ t.queue

/-- The last command for a timer. -/
def lastCmd (timer : ℕ) : List TimerQueueCb → Option TimerCmd
  | [] => none
  | cb :: rest =>
    match lastCmd timer rest with
    | some cmd => some cmd
    | none => if cb.timer = timer then some cb.cbNum else none

/-- The timer is not listed and nothing is on its way to it. -/
def Untouched (t : TimerSys) (timer : ℕ) : Prop :=
  lastCmd timer (pendingCmds t) = none ∧ timer ∉ t.head

/-- The timer is stopped, or a stop is the last thing on its way to it. -/
def Halted (t : TimerSys) (timer : ℕ) : Prop :=
  lastCmd timer (pendingCmds t) = some .stop ∨ Untouched t timer

instance (t : TimerSys) (timer : ℕ) : Decidable (Untouched t timer) :=
  inferInstanceAs (Decidable (_ ∧ _))

instance (t : TimerSys) (timer : ℕ) : Decidable (Halted t timer) :=
  inferInstanceAs (Decidable (_ ∨ _))

section Pending

variable {t t' : TimerSys} {timer : ℕ} {cb : TimerQueueCb} {l : List TimerQueueCb}

/-- A command for another timer does not change the last one. -/
theorem lastCmd_append_other (h : cb.timer ≠ timer) : lastCmd timer (l ++ [cb]) = lastCmd timer l := by
  induction l with
  | nil => simp [lastCmd, h]
  | cons a l ih =>
    rw [List.cons_append, lastCmd, lastCmd, ih]

/-- A command for the timer is the last one. -/
theorem lastCmd_append_self (h : cb.timer = timer) :
    lastCmd timer (l ++ [cb]) = some cb.cbNum := by
  induction l with
  | nil => simp [lastCmd, h]
  | cons a l ih =>
    rw [List.cons_append, lastCmd, ih]

/-- While the task is blocked there is no command in the queue. -/
def BlockedEmpty (t : TimerSys) : Prop :=
  t.pc = .blockedForever ∨ (∃ tickStart deadline, t.pc = .blocked tickStart deadline) → t.queue = []

/-- A command for another timer is sent. -/
theorem pendingCmds_send (t : TimerSys) (cb : TimerQueueCb) :
    pendingCmds { t with queue := t.queue ++ [cb] } = pendingCmds t ++ [cb] := by
  unfold pendingCmds
  rw [List.append_assoc]
  rfl

/-- What the interface does to the commands and the list. -/
theorem timerSend_pending (ht : BlockedEmpty t) (cb : TimerQueueCb) :
    (timerSend t cb).2.head = t.head ∧
    (pendingCmds (timerSend t cb).2 = pendingCmds t ++ [cb] ∨
      (¬ t.queue.length < timerMsgNum ∧ pendingCmds (timerSend t cb).2 = pendingCmds t)) := by
  unfold timerSend
  split
  · next hpc =>
    have hqueue := ht (.inl hpc)
    exact ⟨rfl, .inl (by simp [pendingCmds, receivedCmd, hpc, hqueue])⟩
  · next tickStart deadline hpc =>
    have hqueue := ht (.inr ⟨tickStart, deadline, hpc⟩)
    exact ⟨rfl, .inl (by simp [pendingCmds, receivedCmd, hpc, hqueue])⟩
  · split
    case isTrue => exact ⟨rfl, .inl (pendingCmds_send t cb)⟩
    case isFalse hfull => exact ⟨rfl, .inr ⟨hfull, rfl⟩⟩

/-- What the timer task does to the commands and the list. -/
inductive PendingEffect (t t' : TimerSys) : Prop
  | same (hpending : pendingCmds t' = pendingCmds t) (hhead : t'.head = t.head)
  | cmd (cb : TimerQueueCb) (t₁ : TimerSys)
      (hpending : pendingCmds t = cb :: pendingCmds t')
      (hcmd : timerCmdProc { t with timerCount := t.tickCount } cb = some t₁)
      (hhead : t'.head = t₁.head)
  | fire (q : ℕ) (hdue : dueTimer t = some q) (hpending : pendingCmds t' = pendingCmds t)
      (hhead : t'.head = (fireTimer t q).head)

/-- The timer task takes commands from the front of those that are pending. -/
theorem timerTask_pending (h : timerTask t = some t') : PendingEffect t t' := by
  unfold timerTask at h
  split at h
  · -- recvForever
    next hpc =>
    split at h
    · cases h
      exact .same (by simp [pendingCmds, receivedCmd, hpc]) rfl
    · next cb rest hqueue =>
      cases h
      exact .same (by simp [pendingCmds, receivedCmd, hpc, hqueue]) rfl
  · -- blockedForever
    cases h
  · -- received
    next cb hpc =>
    split at h
    · cases h
    · next t₁ hcmd =>
      cases h
      refine .cmd cb t₁ ?_ hcmd rfl
      simp [pendingCmds, receivedCmd, hpc, timerCmdProc_queue hcmd]
  · -- whileHead
    next hpc =>
    split at h
    · cases h
      exact .same (by simp [pendingCmds, receivedCmd, hpc]) rfl
    · dsimp only at h
      split at h
      · cases h
        exact .same (by simp [pendingCmds, receivedCmd, hpc]) rfl
      · cases h
        exact .same (by simp [pendingCmds, receivedCmd, hpc]) rfl
  · -- recvDelta
    next hpc =>
    split at h
    · cases h
      exact .same (by simp [pendingCmds, receivedCmd, hpc]) rfl
    · next cb rest hqueue =>
      cases h
      exact .same (by simp [pendingCmds, receivedCmd, hpc, hqueue]) rfl
  · -- blocked
    cases h
  · -- receivedInTime
    next cb hpc =>
    split at h
    · cases h
    · next t₁ hcmd =>
      cases h
      refine .cmd cb t₁ ?_ hcmd rfl
      simp [pendingCmds, receivedCmd, hpc, timerCmdProc_queue hcmd]
  · -- timedOut
    next hpc =>
    cases h
    exact .same (by simp [pendingCmds, receivedCmd, hpc]) rfl
  · -- cbProc
    next q hpc =>
    cases h
    cases q with
    | none => exact .same (by simp [pendingCmds, receivedCmd, hpc, timerCbProc]) rfl
    | some q =>
      rw [timerCbProc_some]
      split
      · next hdue =>
        refine .fire q (by simp [dueTimer, hpc, hdue]) ?_ rfl
        simp [pendingCmds, receivedCmd, hpc, fireTimer_queue]
      · exact .same (by simp [pendingCmds, receivedCmd, hpc]) rfl

/-- A command lists no timer but its own. -/
theorem cmd_not_listed (hcmd : timerCmdProc t cb = some t') (hne : cb.timer ≠ timer)
    (h : timer ∉ t.head) : timer ∉ t'.head := by
  refine timerCmdProc_inv (I := fun t => timer ∉ t.head) hcmd h ?_
  intro cmd s s' _ hs heff
  cases heff with
  | skip _ => exact hs
  | start _ _ =>
    intro hin
    rcases List.mem_cons.1 ((timerEnlist_head s cb.timer _).mem_iff.1 hin) with heq | hin
    · exact hne heq.symm
    · exact hs hin
  | stop _ _ =>
    intro hin
    apply hs
    unfold stopTimer timerListRm at hin
    split at hin
    · exact List.mem_of_mem_erase hin
    · exact hin
  | stopIdle _ => exact hs
  | edit _ _ _ _ _ _ => exact hs

/-- A stop takes its timer off the list. -/
theorem stop_not_listed (hlist : ListOk t) (hstop : cb.cbNum = .stop)
    (hcmd : timerCmdProc t cb = some t') : cb.timer ∉ t'.head := by
  have heff : CmdEffect t cb .stop t' := by
    unfold timerCmdProc at hcmd
    rw [hstop, if_neg (by decide)] at hcmd
    exact cmdProc_effect hcmd
  cases heff with
  | skip hne => exact absurd rfl hne
  | stop htimer hactive =>
    have hin : cb.timer ∈ t.head := by
      by_contra hout
      exact hactive (hlist.unlisted _ hout).2
    rw [(stopTimer_eq (hlist.listed _ hin).1).1, hlist.nodup.mem_erase_iff]
    exact fun h => h.1 rfl
  | stopIdle hidle => exact hlist.not_mem hidle
  | edit _ hidle _ _ _ _ => exact hlist.not_mem fun _ => hidle

/-- The timer that is due is at the cursor of the task. -/
theorem dueTimer_pc {q : ℕ} (h : dueTimer t = some q) : t.pc = .cbProc (some q) := by
  unfold dueTimer at h
  split at h
  case h_1 p hpc =>
    split at h
    case isTrue =>
      cases h
      exact hpc
    case isFalse => cases h
  case h_2 => cases h

/-- A timer that fires lists no other timer. -/
theorem fire_not_listed {q : ℕ} (ht : TimerInv t) (hdue : dueTimer t = some q) (hne : q ≠ timer)
    (h : timer ∉ t.head) : timer ∉ (fireTimer t q).head := by
  have hin := ht.cursor q (dueTimer_pc hdue)
  rw [(fireTimer_head (ht.list.listed q hin).1).mem_iff]
  split
  · intro hmem
    rcases List.mem_cons.1 hmem with heq | hmem
    · exact hne heq.symm
    · exact h (List.mem_of_mem_erase hmem)
  · exact fun hmem => h (List.mem_of_mem_erase hmem)

/-- A timer that nobody touches is not due. -/
theorem Untouched.not_due (h : Untouched t timer) (ht : TimerInv t) : dueTimer t ≠ some timer := by
  intro hdue
  exact h.2 (ht.cursor timer (dueTimer_pc hdue))

/-- A timer that is not to fire is not touched by the timer task. -/
theorem Untouched.task (h : Untouched t timer) (ht : TimerInv t) (hstep : timerTask t = some t') :
    Untouched t' timer := by
  obtain ⟨hnone, hout⟩ := h
  cases timerTask_pending hstep with
  | same hpending hhead => exact ⟨hpending ▸ hnone, hhead ▸ hout⟩
  | cmd cb t₁ hpending hcmd hhead =>
    rw [hpending, lastCmd] at hnone
    cases hrest : lastCmd timer (pendingCmds t') with
    | some cmd => simp [hrest] at hnone
    | none =>
      rw [hrest] at hnone
      have hne : cb.timer ≠ timer := by
        intro heq
        simp [heq] at hnone
      exact ⟨hrest, hhead ▸ cmd_not_listed hcmd hne hout⟩
  | fire q hdue hpending hhead =>
    have hne : q ≠ timer := by
      rintro rfl
      exact Untouched.not_due ⟨hnone, hout⟩ ht hdue
    exact ⟨hpending ▸ hnone, hhead ▸ fire_not_listed ht hdue hne hout⟩

/-- **A halted timer stays halted**, unless it fires while the stop waits. -/
theorem Halted.task (h : Halted t timer) (ht : TimerInv t) (hstep : timerTask t = some t') :
    Halted t' timer := by
  rcases h with hstop | huntouched
  · cases timerTask_pending hstep with
    | same hpending hhead => exact .inl (hpending ▸ hstop)
    | cmd cb t₁ hpending hcmd hhead =>
      rw [hpending, lastCmd] at hstop
      cases hrest : lastCmd timer (pendingCmds t') with
      | some cmd =>
        rw [hrest] at hstop
        exact .inl (hrest.trans hstop)
      | none =>
        rw [hrest] at hstop
        -- it was the command that is carried out now
        simp only [ite_eq_iff, reduceCtorEq, and_false, or_false, Option.some.injEq] at hstop
        obtain ⟨rfl, hnum⟩ := hstop
        refine .inr ⟨hrest, ?_⟩
        rw [hhead]
        have hlist : ListOk { t with timerCount := t.tickCount } := ht.list.congr rfl rfl rfl
        exact stop_not_listed hlist hnum hcmd
    | fire q hdue hpending hhead => exact .inl (hpending ▸ hstop)
  · exact .inr (huntouched.task ht hstep)

/-- A halted timer is due only while its stop waits. -/
theorem Halted.not_due (h : Halted t timer) (ht : TimerInv t)
    (hwait : lastCmd timer (pendingCmds t) ≠ some .stop) : dueTimer t ≠ some timer := by
  rcases h with hstop | huntouched
  · exact absurd hstop hwait
  · exact huntouched.not_due ht

/-- At most a command is sent. -/
def SendsCmd (t t' : TimerSys) (timer : ℕ) : Prop :=
  t'.head = t.head ∧ (pendingCmds t' = pendingCmds t ∨
    ∃ cb, cb.timer = timer ∧ pendingCmds t' = pendingCmds t ++ [cb])

/-- A command is sent for its timer. -/
theorem timerSend_sends (ht : BlockedEmpty t) (cb : TimerQueueCb) :
    SendsCmd t (timerSend t cb).2 cb.timer := by
  obtain ⟨hhead, hsent | ⟨-, hsame⟩⟩ := timerSend_pending ht cb
  · exact ⟨hhead, .inr ⟨cb, rfl, hsent⟩⟩
  · exact ⟨hhead, .inl hsame⟩

/-- Creating a timer sends a command for that one. -/
theorem timerCreate_sends (ht : BlockedEmpty t) (timer first round arg : ℕ) (autoRun : Bool)
    (mmAllocFlag : AllocFlag) :
    SendsCmd t (timerCreate t timer first round arg autoRun mmAllocFlag).2 timer := by
  unfold timerCreate
  split_ifs
  · exact ⟨rfl, .inl rfl⟩
  · exact ⟨rfl, .inl rfl⟩
  · exact ⟨rfl, .inl rfl⟩
  · obtain ⟨hhead, hpending⟩ := timerSend_sends (t := t.set timer
      { toHead := false, timerCbArg := arg, matchTick := 0, remain := 0, initCount := first
        roundTicks := round, isTimer := true, timerState := .deactive
        mmAllocFlag := mmAllocFlag }) ht
      { timer := timer, cbNum := .start, first := 0, round := 0, arg := 0 }
    exact ⟨hhead, hpending⟩
  · exact ⟨rfl, .inl rfl⟩

/-- So does creating a dynamic timer. -/
theorem timerDynCreate_sends (ht : BlockedEmpty t) (timer first round arg : ℕ) (autoRun : Bool) :
    SendsCmd t (krhinoTimerDynCreate t timer first round arg autoRun).2 timer := by
  unfold krhinoTimerDynCreate
  dsimp only
  split
  · exact timerCreate_sends ht timer first round arg autoRun _
  · exact ⟨rfl, .inl rfl⟩

/-- A command for another timer leaves the list and the last command of this one. -/
theorem SendsCmd.other {k : ℕ} (h : SendsCmd t t' k) (hne : k ≠ timer) : t'.head = t.head ∧
    lastCmd timer (pendingCmds t') = lastCmd timer (pendingCmds t) := by
  obtain ⟨hhead, hsame | ⟨cb, rfl, hsent⟩⟩ := h
  · exact ⟨hhead, by rw [hsame]⟩
  · exact ⟨hhead, by rw [hsent, lastCmd_append_other hne]⟩

/-- So a timer that is not to fire stays so. -/
theorem SendsCmd.untouched {k : ℕ} (h : SendsCmd t t' k) (hne : k ≠ timer)
    (hu : Untouched t timer) : Untouched t' timer := by
  obtain ⟨hhead, hcmd⟩ := h.other hne
  exact ⟨hcmd.trans hu.1, hhead ▸ hu.2⟩

/-- And a timer that is to be stopped stays so. -/
theorem SendsCmd.halted {k : ℕ} (h : SendsCmd t t' k) (hne : k ≠ timer) (hh : Halted t timer) :
    Halted t' timer := by
  obtain ⟨hhead, hcmd⟩ := h.other hne
  unfold Halted Untouched
  rw [hhead, hcmd]
  exact hh

/-- A call of the interface is about one timer. -/
theorem timerStep_sends {a : TimerAct} (ht : BlockedEmpty t) (hstep : timerStep t a = some t') (htask : a ≠ .task)
    (hne : timerOf a ≠ some timer) : t'.head = t.head ∧
    lastCmd timer (pendingCmds t') = lastCmd timer (pendingCmds t) := by
  have hsends : ∀ k, SendsCmd t t' k → timerOf a = some k → t'.head = t.head ∧
      lastCmd timer (pendingCmds t') = lastCmd timer (pendingCmds t) := by
    intro k hk hof
    refine hk.other ?_
    rintro rfl
    exact hne hof
  cases a with
  | task => exact absurd rfl htask
  | tick n =>
    cases hstep
    rcases timerTick_cases t n with heq | ⟨tickStart, deadline, hpc, heq⟩
    · rw [heq]
      exact ⟨rfl, rfl⟩
    · rw [heq]
      exact ⟨rfl, by simp [pendingCmds, receivedCmd, hpc]⟩
  | create k first round arg autoRun =>
    simp only [timerStep] at hstep
    split at hstep <;> cases hstep
    exact hsends k (timerCreate_sends ht k first round arg autoRun _) rfl
  | dynCreate k first round arg autoRun =>
    simp only [timerStep] at hstep
    split at hstep <;> cases hstep
    exact hsends k (timerDynCreate_sends ht k first round arg autoRun) rfl
  | start k =>
    cases hstep
    exact hsends k (timerSend_sends ht _) rfl
  | stop k =>
    cases hstep
    exact hsends k (timerSend_sends ht _) rfl
  | del k =>
    cases hstep
    exact hsends k (timerSend_sends ht _) rfl
  | dynDel k =>
    cases hstep
    exact hsends k (timerSend_sends ht _) rfl
  | argChange k arg =>
    cases hstep
    exact hsends k (timerSend_sends ht _) rfl
  | argChangeAuto k arg =>
    cases hstep
    exact hsends k (timerSend_sends ht _) rfl
  | change k first round =>
    cases hstep
    refine hsends k ?_ rfl
    unfold krhinoTimerChange
    split_ifs
    · exact ⟨rfl, .inl rfl⟩
    · exact ⟨rfl, .inl rfl⟩
    · exact ⟨rfl, .inl rfl⟩
    · exact timerSend_sends ht _

end Pending

/-! ## Cancelled works -/

/-- No submission and no expiry of the work is half done, and the work is not about to run. -/
structure Quiet (s : WorkSys) (work : ℕ) : Prop where
  exit : (s.works work).workExit = false
  called : ∀ wq, (s.queues wq).worker ≠ .call work
  entering : ∀ wq, s.timerCb ≠ .enter work wq
  starting : ∀ task wq : ℕ, s.tasks[task]? ≠ some (.timerArg wq work)

/-- A cancellation that has read `seen` in `wq` will succeed. -/
def CancelSucceeds (s : WorkSys) (work : ℕ) (seen : Option ℕ) : Prop :=
  ∀ wq, seen = some wq → (s.queues wq).workCurrent ≠ some work ∧ (s.works work).workExit = false

/-- **The condition.** A cancellation that is going to succeed finds the work quiet and does not
leave its timer behind: either it sends a stop, for which there is room, or the timer is halted
anyway. And the timer of a work does not fire while a stop for it waits. -/
def CancelOk (foreign : ℕ → Bool) (s : WorkSys) : WorkSysAct → Prop
  | .work (.task task) => ∀ (work : ℕ) (seen : Option ℕ), s.tasks[task]? = some (.cancel work seen) →
      CancelSucceeds s work seen → Quiet s work ∧ (0 < (s.works work).dly →
        (seen = none ∧ s.timers.queue.length < timerMsgNum) ∨ Halted s.timers work)
  | .timer => ∀ work, dueTimer s.timers = some work → foreign work = false →
      lastCmd work (pendingCmds s.timers) ≠ some .stop
  | _ => True

/-- **What holds along runs that meet the condition.** -/
structure CancelInv (foreign : ℕ → Bool) (s : WorkSys) : Prop where
  work : WorkInv s
  timer : TimerInv s.timers
  own : ∀ w, (s.works w).inited = true → foreign w = false
  untouched : ∀ w, foreign w = false → ((s.works w).inited = true → (s.works w).dly = 0) →
    Untouched s.timers w
  inited : ∀ w, cancelledIn w s.log = true → (s.works w).inited = true
  quiet : ∀ w, cancelledIn w s.log = true → Quiet s w
  halted : ∀ w, cancelledIn w s.log = true → Halted s.timers w
  kept : CancelKept s.log

section Cancelled

variable {foreign : ℕ → Bool} {s s' : WorkSys} {task work wq dly w : ℕ}

/-- What keeps a work quiet. -/
theorem Quiet.frame (h : Quiet s w) (hexit : (s'.works w).workExit = (s.works w).workExit)
    (hcalled : ∀ q, (s'.queues q).worker = .call w → (s.queues q).worker = .call w)
    (hentering : ∀ q, s'.timerCb = .enter w q → s.timerCb = .enter w q)
    (hstarting : ∀ t q : ℕ, s'.tasks[t]? = some (.timerArg q w) →
      s.tasks[t]? = some (.timerArg q w)) : Quiet s' w where
  exit := hexit.trans h.exit
  called := fun q hq => h.called q (hcalled q hq)
  entering := fun q hq => h.entering q (hentering q hq)
  starting := fun t q hq => h.starting t q (hstarting t q hq)

/-- A task moves to a place that has nothing to do with a timer of the work. -/
theorem tasks_set_starting {pc : WorkTaskPc} (hpc : ∀ q, pc ≠ .timerArg q w) :
    ∀ t q : ℕ, (s.tasks.set task pc)[t]? = some (.timerArg q w) →
      s.tasks[t]? = some (.timerArg q w) := by
  intro t q ht
  by_cases heq : task = t
  · subst heq
    rw [List.getElem?_set_self'] at ht
    cases hs : s.tasks[task]? with
    | none => simp [hs] at ht
    | some y =>
      rw [hs] at ht
      exact absurd (Option.some.inj ht) (hpc q)
  · rwa [List.getElem?_set_ne heq] at ht

/-- More events, none of which invokes a work. -/
theorem CancelKept.extend {log es : List WorkEvent} (h : CancelKept log)
    (hes : ∀ q w, .invoked q w ∉ es) : CancelKept (log ++ es) := by
  induction es generalizing log with
  | nil =>
    rw [List.append_nil]
    exact h
  | cons e es ih =>
    rw [List.append_cons]
    refine ih (h.append ?_) (fun q w hw => hes q w (List.mem_cons_of_mem _ hw))
    intro q w heq
    exact absurd (heq ▸ List.mem_cons_self) (hes q w)

/-- A step that leaves the log and the works' states alone. -/
theorem CancelInv.silent (h : CancelInv foreign s) (hwork : WorkInv s') (htimer : TimerInv s'.timers)
    (hworks : s'.works = s.works) (hlog : s'.log = s.log)
    (huntouched : ∀ w, foreign w = false → Untouched s.timers w → Untouched s'.timers w)
    (hhalted : ∀ w, foreign w = false → Halted s.timers w → Halted s'.timers w)
    (hquiet : ∀ w, cancelledIn w s.log = true → Quiet s w → Quiet s' w) :
    CancelInv foreign s' where
  work := hwork
  timer := htimer
  own := by
    rw [hworks]
    exact h.own
  untouched := by
    intro w hw hdly
    rw [hworks] at hdly
    exact huntouched w hw (h.untouched w hw hdly)
  inited := by
    rw [hlog, hworks]
    exact h.inited
  quiet := by
    intro w hw
    rw [hlog] at hw
    exact hquiet w hw (h.quiet w hw)
  halted := by
    intro w hw
    rw [hlog] at hw
    exact hhalted w (h.own w (h.inited w hw)) (h.halted w hw)
  kept := by
    rw [hlog]
    exact h.kept

/-- The general step that initialises nothing and invokes no handler. -/
theorem CancelInv.frame (h : CancelInv foreign s) (es : List WorkEvent) (hwork : WorkInv s')
    (htimer : TimerInv s'.timers) (hlog : s'.log = s.log ++ es) (hes : ∀ q w, .invoked q w ∉ es)
    (hworks : ∀ w, (s'.works w).inited = (s.works w).inited ∧ (s'.works w).dly = (s.works w).dly)
    (huntouched : ∀ w, foreign w = false → ((s.works w).inited = true → (s.works w).dly = 0) →
      Untouched s.timers w → Untouched s'.timers w)
    (hcancelled : ∀ w, cancelledIn w (s.log ++ es) = true →
      (s.works w).inited = true ∧ Quiet s' w ∧ Halted s'.timers w) : CancelInv foreign s' where
  work := hwork
  timer := htimer
  own := by
    intro w hw
    rw [(hworks w).1] at hw
    exact h.own w hw
  untouched := by
    intro w hw hdly
    rw [(hworks w).1, (hworks w).2] at hdly
    exact huntouched w hw hdly (h.untouched w hw hdly)
  inited := by
    intro w hw
    rw [hlog] at hw
    rw [(hworks w).1]
    exact (hcancelled w hw).1
  quiet := by
    intro w hw
    rw [hlog] at hw
    exact (hcancelled w hw).2.1
  halted := by
    intro w hw
    rw [hlog] at hw
    exact (hcancelled w hw).2.2
  kept := by
    rw [hlog]
    exact h.kept.extend hes

/-- The timer task. -/
theorem CancelInv.timerStep (h : CancelInv foreign s) (hok : CancelOk foreign s .timer)
    (hstep : workSysStep foreign s .timer = some s') : CancelInv foreign s' := by
  simp only [workSysStep] at hstep
  split at hstep
  case isFalse => cases hstep
  case isTrue hnone =>
    split at hstep
    case h_1 => cases hstep
    case h_2 timers htask =>
      have htimer : TimerInv timers := h.timer.task (timerTask_effect htask)
      -- as long as no callback begins
      have hsilent : CancelInv foreign { s with timers := timers } := by
        refine h.silent (h.work.setTimers timers) htimer rfl rfl ?_ ?_ (fun w hw hq => ?_)
        · exact fun w _ hw => hw.task h.timer htask
        · exact fun w _ hw => hw.task h.timer htask
        · exact hq.frame rfl (fun _ h => h) (fun _ h => h) (fun _ _ h => h)
      split at hstep
      case h_1 =>
        cases hstep
        exact hsilent
      case h_2 q hdue =>
        split at hstep
        case isTrue =>
          cases hstep
          exact hsilent
        case isFalse hown =>
          cases hstep
          have hno : ∀ p, s.timerCb ≠ .semGive p := by
            intro p hp
            rw [hnone] at hp
            cases hp
          refine hsilent.silent (hsilent.work.setTimerCb hno (by simp)) htimer rfl rfl
            (fun _ _ h => h) (fun _ _ h => h) (fun w hw hq => ?_)
          refine hq.frame rfl (fun _ h => h) ?_ (fun _ _ h => h)
          intro p hp
          cases hp
          exact absurd hdue ((h.halted q hw).not_due h.timer
            (hok q hdue (by simpa using hown)))

/-- What others do with their timers. -/
theorem CancelInv.other {a : TimerAct} (h : CancelInv foreign s)
    (hstep : workSysStep foreign s (.other a) = some s') : CancelInv foreign s' := by
  simp only [workSysStep] at hstep
  split at hstep
  case isTrue => cases hstep
  case isFalse hmay =>
    push Not at hmay
    split at hstep
    case h_1 => cases hstep
    case h_2 timers htimers =>
      cases hstep
      have hother : ∀ w, foreign w = false → timers.head = s.timers.head ∧
          lastCmd w (pendingCmds timers) = lastCmd w (pendingCmds s.timers) := by
        intro w hw
        refine timerStep_sends h.timer.blocked htimers hmay.1 ?_
        intro heq
        apply hmay.2
        rw [heq]
        simp [hw]
      refine h.silent (h.work.setTimers timers) (h.timer.step htimers) rfl rfl ?_ ?_
        (fun w _ hq => hq.frame rfl (fun _ h => h) (fun _ h => h) (fun _ _ h => h))
      · intro w hw hu
        obtain ⟨hhead, hcmd⟩ := hother w hw
        exact ⟨hcmd ▸ hu.1, hhead ▸ hu.2⟩
      · intro w hw hh
        obtain ⟨hhead, hcmd⟩ := hother w hw
        unfold Halted Untouched
        rw [hhead, hcmd]
        exact hh

/-- A work is initialised. -/
theorem CancelInv.init (h : CancelInv foreign s) (hown : foreign work = false)
    (hnew : (s.works work).inited = false) (htimer : (s.timers.timers work).isTimer = false) :
    CancelInv foreign (krhinoWorkInit s work dly).2 := by
  have hwork : WorkInv (krhinoWorkInit s work dly).2 := h.work.init hnew
  have hne : ∀ w, cancelledIn w s.log = true → w ≠ work := by
    rintro w hw rfl
    rw [h.inited w hw] at hnew
    cases hnew
  have hset : ∀ timers : TimerSys, TimerInv timers →
      (∀ w, w ≠ work → timers.head = s.timers.head ∧
        lastCmd w (pendingCmds timers) = lastCmd w (pendingCmds s.timers)) →
      (dly = 0 → Untouched timers work) →
      WorkInv ({ s with timers := timers }.setWork work (freshWork dly)) →
      CancelInv foreign ({ s with timers := timers }.setWork work (freshWork dly)) := by
    intro timers ht hother hself hw
    have hsame : ∀ w, w ≠ work →
        (({ s with timers := timers }.setWork work (freshWork dly)).works w) = s.works w := by
      intro w hw
      exact Function.update_of_ne hw _ _
    refine ⟨hw, ht, ?_, ?_, ?_, ?_, ?_, h.kept⟩
    · intro w hinit
      by_cases heq : w = work
      · rw [heq]
        exact hown
      · rw [hsame w heq] at hinit
        exact h.own w hinit
    · intro w hw hdly
      by_cases heq : w = work
      · rw [heq] at hdly ⊢
        apply hself
        have hinit : (({ s with timers := timers }.setWork work (freshWork dly)).works work) =
            freshWork dly := Function.update_self _ _ _
        rw [hinit] at hdly
        exact hdly rfl
      · rw [hsame w heq] at hdly
        obtain ⟨hhead, hcmd⟩ := hother w heq
        obtain ⟨hu₁, hu₂⟩ := h.untouched w hw hdly
        exact ⟨hcmd.trans hu₁, hhead ▸ hu₂⟩
    · intro w hc
      rw [hsame w (hne w hc)]
      exact h.inited w hc
    · intro w hc
      refine (h.quiet w hc).frame ?_ (fun _ h => h) (fun _ h => h) (fun _ _ h => h)
      rw [hsame w (hne w hc)]
    · intro w hc
      obtain ⟨hhead, hcmd⟩ := hother w (hne w hc)
      have hh := h.halted w hc
      unfold Halted Untouched at hh ⊢
      rwa [← hcmd, ← hhead] at hh
  have heff := krhinoWorkInit_effect s work dly
  generalize (krhinoWorkInit s work dly).2 = s' at heff hwork ⊢
  cases heff with
  | immediate hdly =>
    exact hset s.timers h.timer (fun _ _ => ⟨rfl, rfl⟩) (fun _ => h.untouched work hown
      (fun hinit => by rw [hnew] at hinit; cases hinit)) hwork
  | delayed timers hdly htimers =>
    have hcreate : Analysis.timerStep s.timers (.dynCreate work dly 0 work false) =
        some timers := by
      simp [Analysis.timerStep, htimer, htimers]
    refine hset timers (h.timer.step hcreate) ?_ (fun h0 => by omega) hwork
    intro w hw
    exact timerStep_sends h.timer.blocked hcreate (by simp) (by simpa [timerOf] using Ne.symm hw)
  | failed => exact h

/-- Two more events of the log. -/
theorem cancelledIn_snoc (w : ℕ) (log : List WorkEvent) (e₁ e₂ : WorkEvent) :
    cancelledIn w (log ++ [e₁, e₂]) =
      cancelledAfter w (cancelledAfter w (cancelledIn w log) e₁) e₂ := by
  rw [List.append_cons, cancelledIn_append, cancelledIn_append]

/-- What an insertion changes of the works. -/
theorem workInsert_works (s : WorkSys) (src : Option ℕ) (wq work w : ℕ) :
    ((workInsert s src wq work).works w).inited = (s.works w).inited ∧
      ((workInsert s src wq work).works w).dly = (s.works w).dly ∧
      (w ≠ work → (workInsert s src wq work).works w = s.works w) := by
  have hworks : (workInsert s src wq work).works = Function.update s.works work
      { s.works work with wq := some wq, workExit := true } := rfl
  rw [hworks]
  by_cases hw : w = work
  · subst hw
    simp
  · simp [Function.update_of_ne hw]

/-- Putting a work into a list leaves the workers where they are. -/
theorem workInsert_worker (s : WorkSys) (src : Option ℕ) (wq work q : ℕ) :
    ((workInsert s src wq work).queues q).worker = (s.queues q).worker := by
  have hq : (workInsert s src wq work).queues = Function.update (s.rmNode work).queues wq
      { (s.rmNode work).queues wq with
        workList := ((s.rmNode work).queues wq).workList ++ [work] } := rfl
  rw [hq]
  by_cases heq : q = wq
  · rw [heq, Function.update_self]
    rfl
  · rw [Function.update_of_ne heq]
    rfl

/-- A submission. -/
theorem CancelInv.run (h : CancelInv foreign s) (hpc : s.tasks[task]? = some .idle)
    (hinit : (s.works work).inited = true) : CancelInv foreign (krhinoWorkRun s task wq work) := by
  have hwork : WorkInv (krhinoWorkRun s task wq work) := h.work.run hpc hinit
  have hsame : ∀ e : WorkEvent, (∀ c, cancelledAfter work c e = c) →
      ∀ w, cancelledIn w (s.log ++ [.run task wq work, e]) = true →
        (∀ v c, v ≠ work → cancelledAfter v c e = c) →
        w ≠ work ∧ cancelledIn w s.log = true := by
    intro e he w hw hother
    rw [cancelledIn_snoc] at hw
    by_cases heq : w = work
    · subst heq
      rw [he] at hw
      simp [cancelledAfter] at hw
    · rw [hother w _ heq] at hw
      simp only [cancelledAfter, if_neg (Ne.symm heq)] at hw
      exact ⟨heq, hw⟩
  have hret : ∀ stat, stat ≠ .success →
      krhinoWorkRun s task wq work =
        workRunRet (s.record (.run task wq work)) task wq work stat →
      CancelInv foreign (krhinoWorkRun s task wq work) := by
    intro stat _ heq
    rw [heq] at hwork ⊢
    refine h.frame [.run task wq work, .ran task wq work stat] hwork h.timer
      (by simp [workRunRet, WorkSys.record, WorkSys.setTask]) (by simp) (fun _ => ⟨rfl, rfl⟩)
      (fun _ _ _ h => h) ?_
    intro w hw
    obtain ⟨-, hc⟩ := hsame _ (fun _ => rfl) w hw (fun _ _ _ => rfl)
    refine ⟨h.inited w hc, ?_, h.halted w hc⟩
    exact (h.quiet w hc).frame rfl (fun _ h => h) (fun _ h => h)
      (tasks_set_starting (fun _ => by simp))
  by_cases hdly : (s.works work).dly = 0
  · by_cases hcur : (s.queues wq).workCurrent = some work
    · apply hret .workqueueWorkRunning (by decide)
      unfold krhinoWorkRun
      simp only [WorkSys.record, hdly, hcur, if_true]
    · by_cases hexit : (s.works work).workExit = true
      · apply hret .workqueueWorkExist (by decide)
        unfold krhinoWorkRun
        simp only [WorkSys.record, hdly, hcur, hexit, if_true, if_false]
      · have heq : krhinoWorkRun s task wq work =
            (workInsert (s.record (.run task wq work)) (some task) wq work).setTask task
              (.semGive wq work) := by
          unfold krhinoWorkRun
          simp only [WorkSys.record, hdly, hcur, hexit, if_true, if_false]
          rfl
        rw [heq] at hwork ⊢
        refine h.frame [.run task wq work, .inserted (some task) wq work] hwork h.timer
          ?_ (by simp) (fun w => ?_) (fun _ _ _ h => h) ?_
        · rw [List.append_cons]
          rfl
        · obtain ⟨h₁, h₂, -⟩ := workInsert_works (s.record (.run task wq work)) (some task) wq work w
          exact ⟨h₁, h₂⟩
        · intro w hw
          obtain ⟨hne, hc⟩ := hsame _ (fun _ => rfl) w hw (fun _ _ _ => rfl)
          refine ⟨h.inited w hc, ?_, h.halted w hc⟩
          refine (h.quiet w hc).frame ?_ (fun q hq => ?_) (fun _ h => h)
            (tasks_set_starting (fun _ => by simp))
          · have hw := (workInsert_works (s.record (.run task wq work)) (some task) wq work w).2.2 hne
            exact congrArg KWork.workExit hw
          · exact (workInsert_worker (s.record (.run task wq work)) (some task) wq work q).symm.trans hq
  · have heq : krhinoWorkRun s task wq work = { s.record (.run task wq work) with
        priv := Function.update s.priv work (some work) }.setTask task (.timerArg wq work) := by
      unfold krhinoWorkRun
      simp only [WorkSys.record, hdly, if_false]
    rw [heq] at hwork ⊢
    refine h.frame [.run task wq work] hwork h.timer rfl (by simp)
      (fun _ => ⟨rfl, rfl⟩) (fun _ _ _ h => h) ?_
    intro w hw
    rw [cancelledIn_append] at hw
    by_cases hne : w = work
    · subst hne
      simp [cancelledAfter] at hw
    · simp only [cancelledAfter, if_neg (Ne.symm hne)] at hw
      refine ⟨h.inited w hw, ?_, h.halted w hw⟩
      refine (h.quiet w hw).frame rfl (fun _ h => h) (fun _ h => h) (tasks_set_starting ?_)
      intro q heq
      cases heq
      exact hne rfl

/-- A task begins to cancel. -/
theorem CancelInv.cancelStart (h : CancelInv foreign s) (hpc : s.tasks[task]? = some .idle)
    (hinit : (s.works work).inited = true) (seen : Option ℕ) :
    CancelInv foreign (s.setTask task (.cancel work seen)) := by
  have hwork : WorkInv (s.setTask task (.cancel work seen)) := by
    refine ⟨h.work.lists.quiet rfl (fun _ => rfl) (fun _ hw => hw)
      (givers_setTask_same hpc (fun _ => rfl) (fun _ => rfl)) (fun _ => rfl) (fun _ => rfl),
      h.work.calls.setTask (fun _ _ heq => by cases heq) (fun _ _ heq => by cases heq) ?_⟩
    intro w q heq
    cases heq
    exact hinit
  refine h.silent hwork h.timer rfl rfl (fun _ _ h => h) (fun _ _ h => h) (fun w hw hq => ?_)
  exact hq.frame rfl (fun _ h => h) (fun _ h => h) (tasks_set_starting (fun _ => by simp))

/-- Giving the semaphore makes no worker call a work. -/
theorem workSemGive_call {q : ℕ} (h : ((workSemGive s wq).2.queues q).worker = .call w) :
    (s.queues q).worker = .call w := by
  unfold workSemGive at h
  dsimp only at h
  have hupdate : ∀ x : KWorkqueue, (x.worker = .call w → (s.queues wq).worker = .call w) →
      (Function.update s.queues wq x q).worker = .call w → (s.queues q).worker = .call w := by
    intro x hx hq
    by_cases heq : q = wq
    · subst heq
      rw [Function.update_self] at hq
      exact hx hq
    · rwa [Function.update_of_ne heq] at hq
  split at h
  case isTrue => exact hupdate _ (fun hx => by cases hx) h
  case isFalse =>
    split at h
    case isTrue => exact h
    case isFalse =>
      exact hupdate { s.queues wq with semCount := (s.queues wq).semCount + 1 } (fun hx => hx) h

/-- A task gives the semaphore and returns. -/
theorem CancelInv.semGive (h : CancelInv foreign s)
    (hpc : s.tasks[task]? = some (.semGive wq work)) :
    CancelInv foreign (workRunRet (workSemGive s wq).2 task wq work (workSemGive s wq).1) := by
  obtain ⟨hworks, htasks, hcb, hlog, hpriv, htimers⟩ := workSemGive_frame s wq
  have hwork := h.work.semGive hpc
  generalize (workSemGive s wq).1 = stat at hwork ⊢
  refine h.frame [.ran task wq work stat] hwork ?_ ?_ (by simp) (fun w => ?_)
    (fun w _ _ hu => ?_) ?_
  · change TimerInv (workSemGive s wq).2.timers
    rw [htimers]
    exact h.timer
  · change (workSemGive s wq).2.log ++ _ = _
    rw [hlog]
  · change ((workSemGive s wq).2.works w).inited = _ ∧ ((workSemGive s wq).2.works w).dly = _
    rw [hworks]
    exact ⟨rfl, rfl⟩
  · change Untouched (workSemGive s wq).2.timers w
    rw [htimers]
    exact hu
  · intro w hw
    rw [cancelledIn_append] at hw
    have hc : cancelledIn w s.log = true := hw
    refine ⟨h.inited w hc, ?_, ?_⟩
    · refine (h.quiet w hc).frame ?_ (fun q hq => workSemGive_call hq) (fun q hq => ?_)
        (fun t q ht => ?_)
      · change ((workSemGive s wq).2.works w).workExit = _
        rw [hworks]
      · change (workSemGive s wq).2.timerCb = _ at hq
        rwa [hcb] at hq
      · change ((workSemGive s wq).2.tasks.set task .idle)[t]? = _ at ht
        rw [htasks] at ht
        exact tasks_set_starting (fun _ => by simp) t q ht
    · change Halted (workSemGive s wq).2.timers w
      rw [htimers]
      exact h.halted w hc

/-- A task sends the command that starts a timer and returns. -/
theorem CancelInv.timerArg (h : CancelInv foreign s)
    (hpc : s.tasks[task]? = some (.timerArg wq work)) :
    CancelInv foreign (workRunRet { s with
      timers := (krhinoTimerArgChangeAuto s.timers work wq).2 } task wq work
      (krhinoTimerArgChangeAuto s.timers work wq).1) := by
  obtain ⟨hinit, hdly, -⟩ := h.work.calls.starting task wq work hpc
  have hsends : SendsCmd s.timers (krhinoTimerArgChangeAuto s.timers work wq).2 work :=
    timerSend_sends h.timer.blocked _
  have hstep : Analysis.timerStep s.timers (.argChangeAuto work wq) =
      some (krhinoTimerArgChangeAuto s.timers work wq).2 := rfl
  refine h.frame [.ran task wq work (krhinoTimerArgChangeAuto s.timers work wq).1]
    (h.work.timerArg hpc _ _) (h.timer.step hstep) rfl (by simp) (fun _ => ⟨rfl, rfl⟩) ?_ ?_
  · intro w _ hno hu
    refine hsends.untouched ?_ hu
    rintro rfl
    rw [hno hinit] at hdly
    exact absurd hdly (lt_irrefl 0)
  · intro w hw
    rw [cancelledIn_append] at hw
    have hc : cancelledIn w s.log = true := hw
    refine ⟨h.inited w hc, ?_, hsends.halted ?_ (h.halted w hc)⟩
    · exact (h.quiet w hc).frame rfl (fun _ h => h) (fun _ h => h)
        (tasks_set_starting (fun _ => by simp))
    · rintro rfl
      exact (h.quiet work hc).starting task wq hpc

/-- A cancellation goes on and returns. -/
theorem CancelInv.cancel {seen : Option ℕ} (h : CancelInv foreign s)
    (hpc : s.tasks[task]? = some (.cancel work seen))
    (hok : CancelSucceeds s work seen → Quiet s work ∧ (0 < (s.works work).dly →
      (seen = none ∧ s.timers.queue.length < timerMsgNum) ∨ Halted s.timers work)) :
    CancelInv foreign (krhinoWorkCancel s task work seen) := by
  have hinit := h.work.calls.cancelling task work seen hpc
  have hwork := h.work.cancel hpc
  -- what is left to show of the work, once the call returns with `stat`
  have hret : ∀ (t : WorkSys) (stat : KStat), t.log = s.log → t.tasks = s.tasks →
      t.queues = s.queues → t.timerCb = s.timerCb →
      (∀ w, (t.works w).inited = (s.works w).inited ∧ (t.works w).dly = (s.works w).dly ∧
        (t.works w).workExit = (s.works w).workExit) →
      TimerInv t.timers → WorkInv (workCancelRet t task work stat) →
      (∀ w, foreign w = false → ((s.works w).inited = true → (s.works w).dly = 0) →
        Untouched s.timers w → Untouched t.timers w) →
      (∀ w, w ≠ work ∨ stat ≠ .success → Halted s.timers w → Halted t.timers w) →
      (stat = .success → Quiet s work ∧ Halted t.timers work) →
      CancelInv foreign (workCancelRet t task work stat) := by
    intro t stat hlog htasks hqueues hcb hworks htimer hw hu hhalted hself
    have hquiet : ∀ w, Quiet s w → Quiet (workCancelRet t task work stat) w := by
      intro w hq
      refine hq.frame (hworks w).2.2 (fun q hq => ?_) (fun q hq => ?_) (fun k q hk => ?_)
      · change (t.queues q).worker = _ at hq
        rwa [hqueues] at hq
      · change t.timerCb = _ at hq
        rwa [hcb] at hq
      · change (t.tasks.set task .idle)[k]? = _ at hk
        rw [htasks] at hk
        exact tasks_set_starting (fun _ => by simp) k q hk
    refine h.frame [.cancelled task work stat] hw htimer ?_ (by simp)
      (fun w => ⟨(hworks w).1, (hworks w).2.1⟩) hu ?_
    · change t.log ++ _ = _
      rw [hlog]
    · intro w hc
      rw [cancelledIn_append] at hc
      by_cases heq : work = w ∧ stat = .success
      · obtain ⟨rfl, hstat⟩ := heq
        exact ⟨hinit, hquiet work (hself hstat).1, (hself hstat).2⟩
      · rw [cancelledAfter, if_neg heq] at hc
        refine ⟨h.inited w hc, hquiet w (h.quiet w hc), hhalted w ?_ (h.halted w hc)⟩
        by_cases hne : w = work
        · exact .inr fun hstat => heq ⟨hne.symm, hstat⟩
        · exact .inl hne
  have hrefused : ∀ stat, stat ≠ .success → WorkInv (workCancelRet s task work stat) →
      CancelInv foreign (workCancelRet s task work stat) := fun stat hne hw =>
    hret s stat rfl rfl rfl rfl (fun _ => ⟨rfl, rfl, rfl⟩) h.timer hw (fun _ _ _ hu => hu)
      (fun _ _ hh => hh) (fun hstat => absurd hstat hne)
  cases seen with
  | none =>
    obtain ⟨hq, hstop⟩ := hok (fun q hq => by cases hq)
    unfold krhinoWorkCancel at hwork ⊢
    dsimp only at hwork ⊢
    split at hwork
    case isTrue hdly =>
      rw [if_pos hdly]
      have hsends : SendsCmd s.timers (krhinoTimerStop s.timers work).2 work :=
        timerSend_sends h.timer.blocked _
      have hstep : Analysis.timerStep s.timers (.stop work) =
          some (krhinoTimerStop s.timers work).2 := rfl
      refine hret { s with timers := (krhinoTimerStop s.timers work).2 } .success rfl rfl rfl rfl
        (fun _ => ⟨rfl, rfl, rfl⟩) (h.timer.step hstep) hwork ?_ ?_ ?_
      · intro w _ hno hu
        refine hsends.untouched ?_ hu
        rintro rfl
        rw [hno hinit] at hdly
        exact absurd hdly (lt_irrefl 0)
      · intro w hw hh
        exact hsends.halted (Ne.symm (hw.resolve_right (fun hne => hne rfl))) hh
      · intro _
        refine ⟨hq, ?_⟩
        obtain ⟨hhead, hsent | ⟨hfull, hsame⟩⟩ := timerSend_pending h.timer.blocked
          { timer := work, cbNum := .stop, first := 0, round := 0, arg := 0 }
        · left
          change lastCmd work (pendingCmds (timerSend s.timers _).2) = _
          rw [hsent]
          exact lastCmd_append_self rfl
        · -- no room for the stop: the timer was halted before
          have hh := (hstop hdly).resolve_left fun hroom => hfull hroom.2
          change Halted (timerSend s.timers _).2 work
          unfold Halted Untouched
          rw [hsame, hhead]
          exact hh
    case isFalse hdly =>
      rw [if_neg hdly]
      refine hret s .success rfl rfl rfl rfl (fun _ => ⟨rfl, rfl, rfl⟩) h.timer hwork
        (fun _ _ _ hu => hu) (fun _ _ hh => hh) (fun _ => ⟨hq, .inr ?_⟩)
      exact h.untouched work (h.own work hinit) (fun _ => by omega)
  | some q =>
    unfold krhinoWorkCancel at hwork ⊢
    dsimp only at hwork ⊢
    split at hwork
    case isTrue hcur =>
      rw [if_pos hcur]
      exact hrefused _ (by decide) hwork
    case isFalse hcur =>
      rw [if_neg hcur]
      split at hwork
      case isTrue hexit =>
        rw [if_pos hexit]
        exact hrefused _ (by decide) hwork
      case isFalse hexit =>
        rw [if_neg hexit]
        have hno : (s.works work).workExit = false := by simpa using hexit
        obtain ⟨hq, hstop⟩ := hok (fun p hp => by cases hp; exact ⟨hcur, hno⟩)
        rw [rmNode_eq (h.work.lists.not_listed hno)] at hwork ⊢
        refine hret (s.setWork work { s.works work with wq := none }) .success rfl rfl rfl rfl
          (fun w => ?_) h.timer hwork (fun _ _ _ hu => hu) (fun _ _ hh => hh)
          (fun _ => ⟨hq, ?_⟩)
        · by_cases heq : w = work
          · subst heq
            simp [WorkSys.setWork]
          · simp [WorkSys.setWork, Function.update_of_ne heq]
        · by_cases hdly : 0 < (s.works work).dly
          · exact (hstop hdly).resolve_left fun hnone => by cases hnone.1
          · exact .inr (h.untouched work (h.own work hinit) (fun _ => by omega))

/-- The timer task goes on in `work_timer_cb`. -/
theorem CancelInv.timerCb (h : CancelInv foreign s) (hstep : workTimerCb s = some s') :
    CancelInv foreign s' := by
  have hwork : WorkInv s' := h.work.timerCb hstep
  unfold workTimerCb at hstep
  split at hstep
  · cases hstep
  · next timer wq hcb =>
    split at hstep
    · cases hstep
    · next work hpriv =>
      obtain ⟨rfl, hinit, -⟩ := h.work.calls.priv timer work hpriv
      have hleave : s' = { s with timerCb := .none } → CancelInv foreign s' := by
        rintro rfl
        refine h.silent hwork h.timer rfl rfl (fun _ _ h => h) (fun _ _ h => h) (fun w _ hq => ?_)
        exact hq.frame rfl (fun _ h => h) (fun _ hp => by cases hp) (fun _ _ h => h)
      split at hstep
      · exact hleave (Option.some.inj hstep).symm
      · split at hstep
        · exact hleave (Option.some.inj hstep).symm
        · cases hstep
          refine h.frame [.inserted none wq work] hwork h.timer rfl (by simp) (fun w => ?_)
            (fun _ _ _ hu => hu) ?_
          · obtain ⟨h₁, h₂, -⟩ := workInsert_works s none wq work w
            exact ⟨h₁, h₂⟩
          · intro w hw
            rw [cancelledIn_append] at hw
            have hc : cancelledIn w s.log = true := hw
            have hne : w ≠ work := by
              rintro rfl
              exact (h.quiet w hc).entering wq hcb
            refine ⟨h.inited w hc, ?_, h.halted w hc⟩
            refine (h.quiet w hc).frame ?_ (fun q hq => ?_) (fun _ hp => by cases hp)
              (fun _ _ h => h)
            · exact congrArg KWork.workExit ((workInsert_works s none wq work w).2.2 hne)
            · exact (workInsert_worker s none wq work q).symm.trans hq
  · next wq hcb =>
    cases hstep
    obtain ⟨hworks, htasks, -, hlog, -, htimers⟩ := workSemGive_frame s wq
    refine h.silent hwork (by rw [show _ = _ from htimers]; exact h.timer) hworks hlog ?_ ?_ ?_
    · intro w _ hu
      change Untouched (workSemGive s wq).2.timers w
      rw [htimers]
      exact hu
    · intro w _ hh
      change Halted (workSemGive s wq).2.timers w
      rw [htimers]
      exact hh
    · intro w _ hq
      refine hq.frame ?_ (fun q hq => workSemGive_call hq) (fun _ hp => by cases hp)
        (fun t q ht => ?_)
      · change ((workSemGive s wq).2.works w).workExit = _
        rw [hworks]
      · change (workSemGive s wq).2.tasks[t]? = _ at ht
        rwa [htasks] at ht

/-- A worker. It pops listed works only, and none that is cancelled is listed. -/
theorem CancelInv.worker (h : CancelInv foreign s) (hstep : workerTask s wq = some s') :
    CancelInv foreign s' := by
  have hwork : WorkInv s' := h.work.worker hstep
  have hmove : ∀ x : KWorkqueue, (∀ w, x.worker ≠ .call w) → s' = s.setQueue wq x →
      CancelInv foreign s' := by
    rintro x hx rfl
    refine h.silent hwork h.timer rfl rfl (fun _ _ h => h) (fun _ _ h => h) (fun w _ hq => ?_)
    refine hq.frame rfl (fun q hcall => ?_) (fun _ h => h) (fun _ _ h => h)
    change (Function.update s.queues wq x q).worker = _ at hcall
    by_cases heq : q = wq
    · rw [heq, Function.update_self] at hcall
      exact absurd hcall (hx w)
    · rwa [Function.update_of_ne heq] at hcall
  cases hpc : (s.queues wq).worker with
  | take =>
    unfold workerTask at hstep
    simp only [hpc] at hstep
    split at hstep
    · exact hmove _ (by simp) (Option.some.inj hstep).symm
    · exact hmove _ (by simp) (Option.some.inj hstep).symm
  | blocked =>
    unfold workerTask at hstep
    simp only [hpc] at hstep
    cases hstep
  | clean =>
    unfold workerTask at hstep
    simp only [hpc] at hstep
    exact hmove _ (by simp) (Option.some.inj hstep).symm
  | pop =>
    cases hlist : (s.queues wq).workList with
    | nil =>
      unfold workerTask at hstep
      simp only [hpc, hlist] at hstep
      cases hstep
    | cons work rest =>
      rw [workerTask_pop h.work.lists hpc hlist] at hstep
      cases hstep
      have hsame : ∀ w, w ≠ work → Function.update s.works work
          { s.works work with workExit := false } w = s.works w := fun w hw =>
        Function.update_of_ne hw _ _
      refine h.frame [] hwork h.timer (List.append_nil _).symm (by simp) (fun w => ?_)
        (fun _ _ _ hu => hu) (fun w hw => ?_)
      · change (Function.update s.works work _ w).inited = _ ∧
          (Function.update s.works work _ w).dly = _
        by_cases hw : w = work
        · subst hw
          simp
        · simp [Function.update_of_ne hw]
      · rw [List.append_nil] at hw
        have hq := h.quiet w hw
        have hne : w ≠ work := by
          rintro rfl
          exact h.work.lists.not_listed hq.exit wq (by simp [hlist])
        refine ⟨h.inited w hw, ?_, h.halted w hw⟩
        refine hq.frame (congrArg KWork.workExit (hsame w hne)) (fun q hcall => ?_)
          (fun _ h => h) (fun _ _ h => h)
        change (Function.update s.queues wq _ q).worker = _ at hcall
        by_cases heq : q = wq
        · rw [heq, Function.update_self] at hcall
          cases hcall
          exact absurd rfl hne
        · rwa [Function.update_of_ne heq] at hcall
  | call work =>
    unfold workerTask at hstep
    simp only [hpc] at hstep
    cases hstep
    -- the handler is invoked: the work is not cancelled
    have hno : cancelledIn work s.log = false := by
      by_contra hc
      exact (h.quiet work (by simpa using hc)).called wq hpc
    have hlog : ∀ w, cancelledIn w (s.log ++ [.invoked wq work]) = cancelledIn w s.log :=
      fun w => cancelledIn_append w s.log _
    refine ⟨hwork, h.timer, h.own, h.untouched, fun w hw => h.inited w (hlog w ▸ hw), ?_,
      fun w hw => h.halted w (hlog w ▸ hw), ?_⟩
    · intro w hw
      refine (h.quiet w (hlog w ▸ hw)).frame rfl (fun q hcall => ?_) (fun _ h => h)
        (fun _ _ h => h)
      change (Function.update s.queues wq _ q).worker = _ at hcall
      by_cases heq : q = wq
      · rw [heq, Function.update_self] at hcall
        cases hcall
      · rwa [Function.update_of_ne heq] at hcall
    · refine h.kept.append ?_
      intro q w heq
      cases heq
      exact hno

/-- **Every step that meets the condition keeps it.** -/
theorem CancelInv.step {a : WorkSysAct} (h : CancelInv foreign s) (hok : CancelOk foreign s a)
    (hstep : workSysStep foreign s a = some s') : CancelInv foreign s' := by
  cases a with
  | timer => exact h.timerStep hok hstep
  | other a => exact h.other hstep
  | work a =>
    cases a with
    | expire timer wq => cases hstep
    | init work dly =>
      simp only [workSysStep] at hstep
      split at hstep
      case isTrue => cases hstep
      case isFalse hown =>
        simp only [workStep] at hstep
        split at hstep
        case isTrue => cases hstep
        case isFalse hnew =>
          cases hstep
          push Not at hnew
          exact h.init (by simpa using hown) (by simpa using hnew.1) (by simpa using hnew.2)
    | run task wq work =>
      simp only [workSysStep, workStep] at hstep
      split at hstep
      case isTrue hidle =>
        cases hstep
        exact h.run hidle.1 hidle.2
      case isFalse => cases hstep
    | cancel task work =>
      simp only [workSysStep, workStep] at hstep
      split at hstep
      case isTrue hidle =>
        cases hstep
        exact h.cancelStart hidle.1 hidle.2 _
      case isFalse => cases hstep
    | task task =>
      simp only [workSysStep, workStep] at hstep
      split at hstep
      case h_1 => cases hstep
      case h_2 pc hpc =>
        cases pc with
        | idle => cases hstep
        | semGive wq work =>
          cases hstep
          exact h.semGive hpc
        | timerArg wq work =>
          cases hstep
          exact h.timerArg hpc
        | cancel work seen =>
          cases hstep
          exact h.cancel hpc (hok work seen hpc)
    | timerCb => exact h.timerCb hstep
    | worker wq => exact h.worker hstep

end Cancelled

/-- The invariant holds at the start. -/
theorem workqueueInit_cancelInv (foreign : ℕ → Bool) (taskNum : ℕ) :
    CancelInv foreign (workqueueInit taskNum) where
  work := workqueueInit_inv taskNum
  timer := timerInv_init
  own := fun w hw => by cases hw
  untouched := fun w _ _ => ⟨rfl, by simp [workqueueInit, ktimerInit]⟩
  inited := fun w hw => by cases hw
  quiet := fun w hw => by cases hw
  halted := fun w hw => by cases hw
  kept := fun pre q w post heq => by simp [workqueueInit] at heq

/-- **A cancelled work does not run**, in every run all of whose steps meet `CancelOk`. -/
theorem cancelled_not_run (foreign : ℕ → Bool) (taskNum : ℕ) (as : List WorkSysAct) (s : WorkSys)
    (hmeet : StepsMeet (workSysStep foreign) (CancelOk foreign) (workqueueInit taskNum) as)
    (hrun : runSteps (workSysStep foreign) (workqueueInit taskNum) as = some s) :
    CancelKept s.log := by
  have h : CancelInv foreign s :=
    runSteps_inv (fun _ _ _ ht hok hstep => ht.step hok hstep)
      (workqueueInit_cancelInv foreign taskNum) hmeet hrun
  exact h.kept

/-- No timers of others. -/
def noForeign (_ : ℕ) : Bool := false

/-- A delayed work is submitted, and cancelled while the timer task waits for its timer; the stop
is carried out and the time passes. -/
def cancelPending : List WorkSysAct :=
  [.work (.init 0 5), .work (.run 0 0 0), .work (.task 0), .timer, .timer, .timer, .timer,
    .work (.cancel 0 0), .work (.task 0), .timer, .timer, .timer, .timer, .other (.tick 10)]

/-- The time of the cancelled work has passed, and its handler was not invoked. -/
theorem cancelled_not_run_pending :
    ∃ s, runSteps (workSysStep noForeign) (workqueueInit 1) cancelPending = some s ∧
      s.log = [.run 0 0 0, .ran 0 0 0 .success, .cancelled 0 0 .success] ∧
      s.timers.tickCount = 10 ∧ CancelKept s.log := by
  refine ⟨_, rfl, by decide +kernel, rfl, cancelled_not_run noForeign 1 cancelPending _ ?_ rfl⟩
  refine ⟨trivial, fun _ hinit => ?_⟩
  cases hinit
  refine ⟨trivial, fun _ hrun => ?_⟩
  cases hrun
  refine ⟨fun _ _ hpc => (by cases hpc), fun _ hsend => ?_⟩
  cases hsend
  -- the timer task receives the command, starts the timer and waits for it
  iterate 4
    refine ⟨fun _ hdue => (by cases hdue), fun _ htask => ?_⟩
    cases htask
  refine ⟨trivial, fun _ hcancel => ?_⟩
  cases hcancel
  refine ⟨fun work seen hpc _ => ?_, fun _ hstop => ?_⟩
  · cases hpc
    refine ⟨⟨rfl, fun wq hcall => (by cases hcall), fun _ hcb => (by cases hcb), fun task _ htask => ?_⟩,
      fun _ => .inl ⟨rfl, by decide⟩⟩
    cases task <;> cases htask
  cases hstop
  -- it gets the stop, finds no timer left and waits for commands only
  iterate 4
    refine ⟨fun _ hdue => (by cases hdue), fun _ htask => ?_⟩
    cases htask
  exact ⟨trivial, fun _ _ => trivial⟩

/-- A delayed work has run and is submitted again; the cancellation leaves its timer running. -/
def cancelRearmed : List WorkSysAct :=
  [.work (.init 0 1), .work (.run 0 0 0), .work (.task 0), .timer, .timer, .other (.tick 1),
    .timer, .timer, .work .timerCb, .work .timerCb, .work (.worker 0), .work (.worker 0),
    .work (.worker 0), .work (.worker 0), .timer, .timer, .work (.run 0 0 0), .work (.task 0),
    .timer, .timer, .work (.cancel 0 0), .work (.task 0), .other (.tick 1), .timer, .timer,
    .work .timerCb, .work .timerCb, .work (.worker 0), .work (.worker 0), .work (.worker 0)]

/-- What is recorded until the handler is invoked the second time. -/
def rearmedLog : List WorkEvent :=
  [.run 0 0 0, .ran 0 0 0 .success, .inserted none 0 0, .invoked 0 0, .run 0 0 0,
    .ran 0 0 0 .success, .cancelled 0 0 .success, .inserted none 0 0]

/-- The handler of that work is invoked after the cancellation. -/
theorem cancelled_work_runs :
    ¬ ∀ foreign taskNum as s, runSteps (workSysStep foreign) (workqueueInit taskNum) as = some s →
      CancelKept s.log := by
  intro h
  have hkept := h noForeign 1 cancelRearmed _ rfl rearmedLog 0 0 [] (by decide +kernel)
  have hcancelled : cancelledIn 0 rearmedLog = true := by decide
  rw [hkept] at hcancelled
  cases hcancelled

end GenieSdk.Analysis
