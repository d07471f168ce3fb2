import GenieSdk.Lib.Runs
import GenieSdk.Model.Timer

/-!
# Timers do not wait behind later ones

The list of running timers holds exactly the active ones, and a timer fires only between a start
and the stop or the single shot that ends it, in every run. The list is in the order of the match
times as long as no timer is inserted while another listed one is overdue: the remaining time of
an overdue timer is negative, which as an unsigned number is larger than every other, so the new
timer is put in front of it.
-/

set_option autoImplicit false

namespace GenieSdk.Analysis

open GenieSdk.Lib
open GenieSdk.Model

inductive TimerAct
  | tick (n : ℕ)
  | create (timer first round arg : ℕ) (autoRun : Bool)
  | dynCreate (timer first round arg : ℕ) (autoRun : Bool)
  | start (timer : ℕ)
  | stop (timer : ℕ)
  | change (timer first round : ℕ)
  | argChange (timer arg : ℕ)
  | argChangeAuto (timer arg : ℕ)
  | del (timer : ℕ)
  | dynDel (timer : ℕ)
  | task
  deriving DecidableEq, Repr

/-- Ticks pass, somebody calls the interface, or the timer task takes its next step. An object is
created only where there is no timer. -/
def timerStep (s : TimerSys) : TimerAct → Option TimerSys
  | .tick n => some (timerTick s n)
  | .create timer first round arg autoRun =>
    if (s.timers timer).isTimer then none
    else some (krhinoTimerCreate s timer first round arg autoRun).2
  | .dynCreate timer first round arg autoRun =>
    if (s.timers timer).isTimer then none
    else some (krhinoTimerDynCreate s timer first round arg autoRun).2
  | .start timer => some (krhinoTimerStart s timer).2
  | .stop timer => some (krhinoTimerStop s timer).2
  | .change timer first round => some (krhinoTimerChange s timer first round).2
  | .argChange timer arg => some (krhinoTimerArgChange s timer arg).2
  | .argChangeAuto timer arg => some (krhinoTimerArgChangeAuto s timer arg).2
  | .del timer => some (krhinoTimerDel s timer).2
  | .dynDel timer => some (krhinoTimerDynDel s timer).2
  | .task => timerTask s

/-- Whether a timer may fire: it was started, and neither stopped nor a one-shot fired since. -/
def armedAfter (timer : ℕ) (armed : Bool) : TimerEvent → Bool
  | .started t => if t = timer then true else armed
  | .stopped t => if t = timer then false else armed
  | .fired t roundTicks => if t = timer ∧ roundTicks = 0 then false else armed

def armedIn (timer : ℕ) (log : List TimerEvent) : Bool := log.foldl (armedAfter timer) false

@[simp] theorem armedIn_append (timer : ℕ) (log : List TimerEvent) (e : TimerEvent) :
    armedIn timer (log ++ [e]) = armedAfter timer (armedIn timer log) e := by
  simp [armedIn]

/-- Timers fire only when they may. -/
def FiresArmed (log : List TimerEvent) : Prop :=
  ∀ pre timer roundTicks post, log = pre ++ .fired timer roundTicks :: post →
    armedIn timer pre = true

/-- One more event, which fires no timer that is not armed. -/
theorem FiresArmed.append {log : List TimerEvent} {e : TimerEvent} (h : FiresArmed log)
    (he : ∀ timer roundTicks, e = .fired timer roundTicks → armedIn timer log = true) :
    FiresArmed (log ++ [e]) := by
  intro pre timer roundTicks post heq
  rcases List.eq_nil_or_concat post with rfl | ⟨post', last, rfl⟩
  · obtain ⟨hlog, hlast⟩ := List.append_inj' heq rfl
    rw [← hlog]
    exact he timer roundTicks (List.cons.inj hlast).1
  · rw [List.concat_eq_append, ← List.cons_append, ← List.append_assoc] at heq
    exact h pre timer roundTicks post' (List.append_inj' heq rfl).1

/-- Only a start arms a timer. -/
theorem not_armed_foldl {timer : ℕ} {log : List TimerEvent} (h : .started timer ∉ log) :
    log.foldl (armedAfter timer) false = false := by
  induction log with
  | nil => rfl
  | cons e log ih =>
    have hstep : armedAfter timer false e = false := by
      cases e with
      | started t =>
        have hne : t ≠ timer := fun heq => h (by simp [heq])
        simp [armedAfter, hne]
      | stopped t => simp [armedAfter]
      | fired t roundTicks => simp [armedAfter]
    rw [List.foldl_cons, hstep]
    exact ih (fun hmem => h (List.mem_cons_of_mem _ hmem))

/-- After an event that disarms a timer it fires only if it was started in between. -/
theorem FiresArmed.started_between {log pre mid post : List TimerEvent} {e : TimerEvent}
    {timer roundTicks : ℕ} (h : FiresArmed log) (he : ∀ b, armedAfter timer b e = false)
    (hlog : log = pre ++ e :: (mid ++ .fired timer roundTicks :: post)) :
    .started timer ∈ mid := by
  by_contra hno
  have harmed := h (pre ++ e :: mid) timer roundTicks post (by simp [hlog])
  simp only [armedIn, List.foldl_append, List.foldl_cons, he] at harmed
  rw [not_armed_foldl hno] at harmed
  cases harmed

/-- **What holds of the list in every run.** -/
structure ListOk (s : TimerSys) : Prop where
  nodup : s.head.Nodup
  listed : ∀ timer ∈ s.head, (s.timers timer).toHead = true ∧
    (s.timers timer).timerState = .active ∧ (s.timers timer).isTimer = true
  unlisted : ∀ timer, timer ∉ s.head → (s.timers timer).toHead = false ∧
    (s.timers timer).timerState = .deactive
  armed : ∀ timer, armedIn timer s.log = true ↔ timer ∈ s.head
  fires : FiresArmed s.log

/-- The timers in the list are the active ones. -/
theorem ListOk.listed_iff {s : TimerSys} (h : ListOk s) (timer : ℕ) :
    timer ∈ s.head ↔ (s.timers timer).timerState = .active := by
  refine ⟨fun hmem => (h.listed timer hmem).2.1, fun hact => ?_⟩
  by_contra hmem
  rw [(h.unlisted timer hmem).2] at hact
  cases hact

@[simp] theorem TimerSys.set_timers_self (s : TimerSys) (timer : ℕ) (t : KTimer) :
    (s.set timer t).timers timer = t := by
  simp [TimerSys.set]

/-- Setting one timer leaves the others. -/
theorem TimerSys.set_timers_ne (s : TimerSys) {timer other : ℕ} (t : KTimer) (h : other ≠ timer) :
    (s.set timer t).timers other = s.timers other := by
  simp [TimerSys.set, Function.update_of_ne h]

@[simp] theorem TimerSys.set_head (s : TimerSys) (timer : ℕ) (t : KTimer) :
    (s.set timer t).head = s.head := rfl

@[simp] theorem TimerSys.record_timers (s : TimerSys) (e : TimerEvent) :
    (s.record e).timers = s.timers := rfl

@[simp] theorem TimerSys.record_head (s : TimerSys) (e : TimerEvent) :
    (s.record e).head = s.head := rfl

/-- The insertion puts the timer among those in the list. -/
theorem timerListPriInsert_perm (s : TimerSys) (timer val : ℕ) (l : List ℕ) :
    (timerListPriInsert s timer val l).Perm (timer :: l) := by
  induction l with
  | nil => exact List.Perm.refl _
  | cons q rest ih =>
    unfold timerListPriInsert
    split
    · exact List.Perm.refl _
    · exact (ih.cons q).trans (List.Perm.swap timer q rest)

/-- A timer enters the list. -/
theorem ListOk.insert {s s' : TimerSys} {timer : ℕ} (h : ListOk s) (hnew : timer ∉ s.head)
    (hhead : s'.head.Perm (timer :: s.head))
    (hself : (s'.timers timer).toHead = true ∧ (s'.timers timer).timerState = .active ∧
      (s'.timers timer).isTimer = true)
    (hother : ∀ other, other ≠ timer → s'.timers other = s.timers other)
    (hlog : s'.log = s.log ++ [.started timer]) : ListOk s' where
  nodup := hhead.nodup_iff.2 (List.nodup_cons.2 ⟨hnew, h.nodup⟩)
  listed := by
    intro other hmem
    by_cases heq : other = timer
    · rw [heq]
      exact hself
    · rw [hother other heq]
      exact h.listed other ((List.mem_cons.1 (hhead.mem_iff.1 hmem)).resolve_left heq)
  unlisted := by
    intro other hmem
    have hno : ¬ other ∈ timer :: s.head := fun hin => hmem (hhead.mem_iff.2 hin)
    rw [hother other (fun heq => hno (by simp [heq]))]
    exact h.unlisted other (fun hin => hno (List.mem_cons_of_mem _ hin))
  armed := by
    intro other
    rw [hlog, armedIn_append, hhead.mem_iff, List.mem_cons, ← h.armed other]
    by_cases heq : other = timer
    · simp [armedAfter, heq]
    · simp [armedAfter, heq, Ne.symm heq]
  fires := by
    rw [hlog]
    exact h.fires.append (fun _ _ he => by cases he)

/-- A timer leaves the list, by a stop or as a one-shot that fires. -/
theorem ListOk.remove {s s' : TimerSys} {timer : ℕ} {e : TimerEvent} (h : ListOk s)
    (hhead : s'.head = s.head.erase timer)
    (hself : (s'.timers timer).toHead = false ∧ (s'.timers timer).timerState = .deactive)
    (hother : ∀ other, other ≠ timer → s'.timers other = s.timers other)
    (hlog : s'.log = s.log ++ [e]) (hself' : ∀ b, armedAfter timer b e = false)
    (hother' : ∀ other b, other ≠ timer → armedAfter other b e = b)
    (hfires : ∀ t roundTicks, e = .fired t roundTicks → t ∈ s.head) : ListOk s' where
  nodup := hhead ▸ h.nodup.erase timer
  listed := by
    intro other hmem
    rw [hhead, h.nodup.mem_erase_iff] at hmem
    rw [hother other hmem.1]
    exact h.listed other hmem.2
  unlisted := by
    intro other hmem
    rw [hhead, h.nodup.mem_erase_iff] at hmem
    by_cases heq : other = timer
    · rw [heq]
      exact hself
    · rw [hother other heq]
      exact h.unlisted other (fun hin => hmem ⟨heq, hin⟩)
  armed := by
    intro other
    rw [hlog, armedIn_append, hhead, h.nodup.mem_erase_iff]
    by_cases heq : other = timer
    · simp [heq, hself']
    · rw [hother' other _ heq, h.armed other]
      simp [heq]
  fires := by
    rw [hlog]
    refine h.fires.append (fun t roundTicks he => ?_)
    rw [h.armed t]
    exact hfires t roundTicks he

/-- A timer is edited and stays where it is. -/
theorem ListOk.edit {s s' : TimerSys} (timer : ℕ) (h : ListOk s) (hhead : s'.head.Perm s.head)
    (hself : (s'.timers timer).toHead = (s.timers timer).toHead ∧
      (s'.timers timer).timerState = (s.timers timer).timerState ∧
      (timer ∈ s.head → (s'.timers timer).isTimer = true))
    (hother : ∀ other, other ≠ timer → s'.timers other = s.timers other)
    (hlog : s'.log = s.log ∨ ∃ e, s'.log = s.log ++ [e] ∧
      (∀ other b, (other ∈ s.head → b = true) → (other ∉ s.head → b = false) →
        armedAfter other b e = b) ∧
      ∀ t roundTicks, e = .fired t roundTicks → t ∈ s.head) : ListOk s' where
  nodup := hhead.nodup_iff.2 h.nodup
  listed := by
    intro other hmem
    rw [hhead.mem_iff] at hmem
    by_cases heq : other = timer
    · subst heq
      obtain ⟨hto, hst, -⟩ := h.listed other hmem
      exact ⟨hself.1.trans hto, hself.2.1.trans hst, hself.2.2 hmem⟩
    · rw [hother other heq]
      exact h.listed other hmem
  unlisted := by
    intro other hmem
    rw [hhead.mem_iff] at hmem
    obtain ⟨hto, hst⟩ := h.unlisted other hmem
    by_cases heq : other = timer
    · subst heq
      exact ⟨hself.1.trans hto, hself.2.1.trans hst⟩
    · rw [hother other heq]
      exact ⟨hto, hst⟩
  armed := by
    intro other
    rw [hhead.mem_iff]
    rcases hlog with hlog | ⟨e, hlog, hkeep, -⟩
    · rw [hlog]
      exact h.armed other
    · rw [hlog, armedIn_append, hkeep other _ (fun hin => (h.armed other).2 hin), h.armed other]
      intro hout
      rw [← Bool.not_eq_true, h.armed other]
      exact hout
  fires := by
    rcases hlog with hlog | ⟨e, hlog, -, hfires⟩
    · rw [hlog]
      exact h.fires
    · rw [hlog]
      refine h.fires.append (fun t roundTicks he => ?_)
      rw [h.armed t]
      exact hfires t roundTicks he

/-- A command for a timer that is not listed, or one that only the log sees. -/
theorem ListOk.congr {s s' : TimerSys} (h : ListOk s) (htimers : s'.timers = s.timers)
    (hhead : s'.head = s.head) (hlog : s'.log = s.log) : ListOk s' where
  nodup := hhead ▸ h.nodup
  listed := by
    rw [hhead, htimers]
    exact h.listed
  unlisted := by
    rw [hhead, htimers]
    exact h.unlisted
  armed := by
    rw [hhead, hlog]
    exact h.armed
  fires := hlog ▸ h.fires

/-- So does enlisting it. -/
theorem timerEnlist_head (s : TimerSys) (timer ticks : ℕ) :
    (timerEnlist s timer ticks).head.Perm (timer :: s.head) :=
  timerListPriInsert_perm _ _ _ _

/-- The timer that is enlisted gets its match tick and its remaining ticks. -/
theorem timerEnlist_self (s : TimerSys) (timer ticks : ℕ) :
    (timerEnlist s timer ticks).timers timer =
      { s.timers timer with
        matchTick := addTime s.timerCount ticks, remain := ticks, toHead := true } := by
  simp [timerEnlist]

/-- Enlisting one timer leaves the others. -/
theorem timerEnlist_ne (s : TimerSys) {timer other : ℕ} (ticks : ℕ) (h : other ≠ timer) :
    (timerEnlist s timer ticks).timers other = s.timers other := by
  simp [timerEnlist, TimerSys.set_timers_ne s _ h]

/-- A listed timer is taken out of the list. -/
theorem timerListRm_eq {s : TimerSys} {timer : ℕ} (h : (s.timers timer).toHead = true) :
    timerListRm s timer =
      { s with head := s.head.erase timer }.set timer { s.timers timer with toHead := false } :=
  if_pos h

/-- What a START does to a timer that is not running. -/
def startTimer (s : TimerSys) (timer : ℕ) : TimerSys :=
  let s := timerEnlist s timer (s.timers timer).initCount
  (s.set timer { s.timers timer with timerState := .active }).record (.started timer)

/-- What a STOP does to a running timer. -/
def stopTimer (s : TimerSys) (timer : ℕ) : TimerSys :=
  let s := timerListRm (s.record (.stopped timer)) timer
  s.set timer { s.timers timer with timerState := .deactive }

/-- **what a command can do.** -/
inductive CmdEffect (s : TimerSys) (cb : TimerQueueCb) : TimerCmd → TimerSys → Prop
  | skip {cmd : TimerCmd} (h : cmd ≠ .stop) : CmdEffect s cb cmd s
  | start (htimer : (s.timers cb.timer).isTimer = true)
      (hidle : (s.timers cb.timer).timerState ≠ .active) :
      CmdEffect s cb .start (startTimer s cb.timer)
  | stop (htimer : (s.timers cb.timer).isTimer = true)
      (hactive : (s.timers cb.timer).timerState ≠ .deactive) :
      CmdEffect s cb .stop (stopTimer s cb.timer)
  | stopIdle (h : (s.timers cb.timer).isTimer = true →
      (s.timers cb.timer).timerState = .deactive) :
      CmdEffect s cb .stop (s.record (.stopped cb.timer))
  | edit {cmd : TimerCmd} (t : KTimer) (hidle : (s.timers cb.timer).timerState = .deactive)
      (hto : t.toHead = (s.timers cb.timer).toHead) (hst : t.timerState = .deactive)
      (htimer : t.isTimer = true → (s.timers cb.timer).isTimer = true)
      (hticks : (t.initCount = (s.timers cb.timer).initCount ∧
        t.roundTicks = (s.timers cb.timer).roundTicks) ∨
        (t.initCount = cb.first ∧ t.roundTicks = cb.round)) :
      CmdEffect s cb cmd (s.set cb.timer t)

/-- What a command of the queue does. -/
theorem cmdProc_effect {s s' : TimerSys} {cb : TimerQueueCb} {cmd : TimerCmd}
    (h : cmdProc s cb cmd = some s') : CmdEffect s cb cmd s' := by
  cases cmd with
  | start =>
    simp only [cmdProc] at h
    split_ifs at h with htimer hactive
    · cases h
      exact .skip (by simp)
    · cases h
      exact .skip (by simp)
    · cases h
      exact .start (by simpa using htimer) hactive
  | stop =>
    simp only [cmdProc] at h
    split_ifs at h with htimer hidle
    · cases h
      refine .stopIdle (fun ht => ?_)
      rw [TimerSys.record, ht] at htimer
      cases htimer
    · cases h
      exact .stopIdle (fun _ => hidle)
    · cases h
      exact .stop (by simpa using htimer) hidle
  | chg =>
    simp only [cmdProc] at h
    split_ifs at h with _ _ hidle
    · cases h
      exact .skip (by simp)
    · cases h
      exact .skip (by simp)
    · cases h
      exact .skip (by simp)
    · cases h
      exact .edit _ (not_not.1 hidle) rfl (not_not.1 hidle) id (.inr ⟨rfl, rfl⟩)
  | argChg =>
    simp only [cmdProc] at h
    split_ifs at h with _ hidle
    · cases h
      exact .skip (by simp)
    · cases h
      exact .skip (by simp)
    · cases h
      exact .edit _ (not_not.1 hidle) rfl (not_not.1 hidle) id (.inl ⟨rfl, rfl⟩)
  | del =>
    simp only [cmdProc] at h
    split_ifs at h with _ hidle
    · cases h
      exact .skip (by simp)
    · cases h
      exact .skip (by simp)
    · cases h
      exact .skip (by simp)
    · cases h
      exact .edit _ (not_not.1 hidle) rfl (not_not.1 hidle) (by simp) (.inl ⟨rfl, rfl⟩)
  | dynDel =>
    simp only [cmdProc] at h
    split_ifs at h with _ hidle
    · cases h
      exact .skip (by simp)
    · cases h
      exact .skip (by simp)
    · cases h
      exact .skip (by simp)
    · cases h
      exact .edit _ (not_not.1 hidle) rfl (not_not.1 hidle) (by simp) (.inl ⟨rfl, rfl⟩)
  | argChgAuto => cases h

/-- What a timer is like that is not listed. -/
theorem ListOk.not_mem {s : TimerSys} (h : ListOk s) {timer : ℕ}
    (hidle : (s.timers timer).isTimer = true → (s.timers timer).timerState = .deactive) :
    timer ∉ s.head := by
  intro hin
  obtain ⟨-, hactive, htimer⟩ := h.listed timer hin
  rw [hidle htimer] at hactive
  cases hactive

/-- The list stays right when a timer that is not in it is started. -/
theorem ListOk.startTimer {s : TimerSys} {timer : ℕ} (h : ListOk s)
    (htimer : (s.timers timer).isTimer = true) (hnew : timer ∉ s.head) :
    ListOk (startTimer s timer) := by
  refine h.insert hnew (timerEnlist_head s timer _) ?_ ?_ rfl
  · simp [Analysis.startTimer, timerEnlist_self, htimer]
  · intro other hne
    simp [Analysis.startTimer, TimerSys.set_timers_ne _ _ hne, timerEnlist_ne _ _ hne]

/-- A listed timer that is stopped is taken out and marked. -/
theorem stopTimer_eq {s : TimerSys} {timer : ℕ} (hto : (s.timers timer).toHead = true) :
    (stopTimer s timer).head = s.head.erase timer ∧
      (stopTimer s timer).log = s.log ++ [.stopped timer] ∧
      (stopTimer s timer).timers timer =
        { s.timers timer with toHead := false, timerState := .deactive } ∧
      ∀ other, other ≠ timer → (stopTimer s timer).timers other = s.timers other := by
  unfold stopTimer
  rw [timerListRm_eq (s := s.record (.stopped timer)) hto]
  refine ⟨rfl, rfl, by simp, fun other hne => ?_⟩
  simp only [TimerSys.set_timers_ne _ _ hne]
  rfl

/-- The list stays right when a listed timer is stopped. -/
theorem ListOk.stopTimer {s : TimerSys} {timer : ℕ} (h : ListOk s) (hin : timer ∈ s.head) :
    ListOk (stopTimer s timer) := by
  obtain ⟨hhead, hlog, hself, hother⟩ := stopTimer_eq (h.listed timer hin).1
  refine h.remove hhead (by simp [hself]) hother hlog ?_ ?_ (fun _ _ he => by cases he)
  · intro b
    simp [armedAfter]
  · intro other b hne
    simp [armedAfter, Ne.symm hne]

/-- Every command keeps the list right. -/
theorem ListOk.cmd {s s' : TimerSys} {cb : TimerQueueCb} {cmd : TimerCmd} (h : ListOk s)
    (hcmd : CmdEffect s cb cmd s') : ListOk s' := by
  cases hcmd with
  | skip hne => exact h
  | start htimer hidle =>
    exact h.startTimer htimer (fun hin => hidle (h.listed _ hin).2.1)
  | stop htimer hactive =>
    refine h.stopTimer ?_
    by_contra hout
    exact hactive (h.unlisted _ hout).2
  | stopIdle hidle =>
    have hout := h.not_mem hidle
    refine h.edit cb.timer (List.Perm.refl _) ⟨rfl, rfl, fun hin => absurd hin hout⟩
      (fun _ _ => rfl) (.inr ⟨_, rfl, ?_, fun _ _ he => by cases he⟩)
    intro other b _ hb
    by_cases heq : cb.timer = other
    · simp [armedAfter, heq, hb (heq ▸ hout)]
    · simp [armedAfter, heq]
  | edit t hidle hto hst htimer hticks =>
    have hout := h.not_mem (fun _ => hidle)
    refine h.edit cb.timer (List.Perm.refl _)
      ⟨by simpa using hto, by simpa [hidle] using hst, fun hin => absurd hin hout⟩ ?_ (.inl rfl)
    intro other hne
    exact TimerSys.set_timers_ne s t hne

/-- The rule for the command of a message: what every part of it keeps, it keeps. -/
theorem timerCmdProc_inv {s s' : TimerSys} {cb : TimerQueueCb} {I : TimerSys → Prop}
    (h : timerCmdProc s cb = some s') (hs : I s)
    (hI : ∀ cmd s s', cmd = cb.cbNum ∨ cb.cbNum = .argChgAuto → I s → CmdEffect s cb cmd s' → I s') :
    I s' := by
  unfold timerCmdProc at h
  split at h
  · next hauto =>
    cases h₁ : cmdProc s cb .stop with
    | none => simp [h₁] at h
    | some s₁ =>
      cases h₂ : cmdProc s₁ cb .argChg with
      | none => simp [h₁, h₂] at h
      | some s₂ =>
        simp only [h₁, h₂] at h
        have hs₁ := hI _ s s₁ (.inr hauto) hs (cmdProc_effect h₁)
        have hs₂ := hI _ s₁ s₂ (.inr hauto) hs₁ (cmdProc_effect h₂)
        exact hI _ s₂ s' (.inr hauto) hs₂ (cmdProc_effect h)
  · exact hI _ s s' (.inl rfl) hs (cmdProc_effect h)

/-- The next timer of the walk is in the list. -/
theorem nextIn_mem {q next : ℕ} {l : List ℕ} (h : nextIn q l = some next) : next ∈ l := by
  induction l with
  | nil => cases h
  | cons a rest ih =>
    unfold nextIn at h
    split at h
    · exact List.mem_cons_of_mem _ (List.mem_of_mem_head? h)
    · exact List.mem_cons_of_mem _ (ih h)

/-- And is another one. -/
theorem nextIn_ne {q next : ℕ} {l : List ℕ} (hnodup : l.Nodup) (h : nextIn q l = some next) :
    next ≠ q := by
  induction l with
  | nil => cases h
  | cons a rest ih =>
    obtain ⟨hnew, hrest⟩ := List.nodup_cons.1 hnodup
    unfold nextIn at h
    split at h
    · next heq =>
      rintro rfl
      exact hnew (heq ▸ List.mem_of_mem_head? h)
    · exact ih hrest h

/-- What `timer_cb_proc` does to a timer that is due. -/
def fireTimer (s : TimerSys) (q : ℕ) : TimerSys :=
  let s' := timerListRm (s.record (.fired q (s.timers q).roundTicks)) q
  if 0 < (s.timers q).roundTicks then timerEnlist s' q (s.timers q).roundTicks
  else s'.set q { s'.timers q with timerState := .deactive }

/-- The node after a timer that is due. -/
def afterFire (s : TimerSys) (q : ℕ) : Option ℕ :=
  if 0 < (s.timers q).roundTicks then nextIn q (fireTimer s q).head else nextIn q s.head

/-- The timer at the cursor fires if its tick has come, and else the walk ends. -/
theorem timerCbProc_some (s : TimerSys) (q : ℕ) :
    timerCbProc s (some q) =
      if intDelta (s.timers q).matchTick s.timerCount ≤ 0 then
        { fireTimer s q with pc := .cbProc (afterFire s q) }
      else { s with pc := .whileHead } := by
  unfold timerCbProc fireTimer afterFire
  split_ifs <;> simp_all [fireTimer]

/-- A timer that fires leaves the list, or goes back into it if it is periodic. -/
theorem fireTimer_head {s : TimerSys} {q : ℕ} (hto : (s.timers q).toHead = true) :
    (fireTimer s q).head.Perm (if 0 < (s.timers q).roundTicks then q :: s.head.erase q
      else s.head.erase q) := by
  unfold fireTimer
  rw [timerListRm_eq (s := s.record _) hto]
  dsimp only
  split
  · exact timerEnlist_head _ q _
  · exact List.Perm.refl _

/-- It gets its next match tick, or is marked as not active. -/
theorem fireTimer_self {s : TimerSys} {q : ℕ} (hto : (s.timers q).toHead = true) :
    (fireTimer s q).timers q =
      if 0 < (s.timers q).roundTicks then
        { s.timers q with
          matchTick := addTime s.timerCount (s.timers q).roundTicks
          remain := (s.timers q).roundTicks }
      else { s.timers q with toHead := false, timerState := .deactive } := by
  unfold fireTimer
  rw [timerListRm_eq (s := s.record _) hto]
  dsimp only
  split
  · rw [timerEnlist_self]
    simp [hto, TimerSys.set, TimerSys.record]
  · simp

/-- The others stay. -/
theorem fireTimer_other {s : TimerSys} {q other : ℕ} (hto : (s.timers q).toHead = true)
    (hne : other ≠ q) : (fireTimer s q).timers other = s.timers other := by
  unfold fireTimer
  rw [timerListRm_eq (s := s.record _) hto]
  dsimp only
  split
  · rw [timerEnlist_ne _ _ hne, TimerSys.set_timers_ne _ _ hne]
    rfl
  · rw [TimerSys.set_timers_ne _ _ hne, TimerSys.set_timers_ne _ _ hne]
    rfl

/-- A timer that fires is recorded. -/
theorem fireTimer_log (s : TimerSys) (q : ℕ) :
    (fireTimer s q).log = s.log ++ [.fired q (s.timers q).roundTicks] := by
  unfold fireTimer timerListRm
  dsimp only
  split_ifs <;> rfl

/-- A timer fires. -/
theorem ListOk.fireTimer {s : TimerSys} {q : ℕ} (h : ListOk s) (hin : q ∈ s.head) :
    ListOk (fireTimer s q) := by
  have hto := (h.listed q hin).1
  have hhead := fireTimer_head hto
  have hself := fireTimer_self hto
  by_cases hround : 0 < (s.timers q).roundTicks
  · rw [if_pos hround] at hhead hself
    refine h.edit q (hhead.trans (List.perm_cons_erase hin).symm)
      ⟨by rw [hself], by rw [hself], fun _ => by rw [hself]; exact (h.listed q hin).2.2⟩
      (fun other hne => fireTimer_other hto hne) (.inr ⟨_, fireTimer_log s q, ?_, ?_⟩)
    · intro other b _ _
      simp [armedAfter, Nat.pos_iff_ne_zero.1 hround]
    · intro t roundTicks he
      cases he
      exact hin
  · rw [if_neg hround] at hhead hself
    have hzero : (s.timers q).roundTicks = 0 := by omega
    have hheq : (Analysis.fireTimer s q).head = s.head.erase q := by
      unfold Analysis.fireTimer
      rw [timerListRm_eq (s := s.record _) hto, if_neg hround]
      rfl
    refine h.remove hheq (by simp [hself]) (fun other hne => fireTimer_other hto hne)
      (fireTimer_log s q) ?_ ?_ ?_
    · intro b
      simp [armedAfter, hzero]
    · intro other b hne
      simp [armedAfter, Ne.symm hne]
    · intro t roundTicks he
      cases he
      exact hin

/-- **The list and the loop over it.** While the task is blocked there is no command in the
queue. -/
structure TimerInv (s : TimerSys) : Prop where
  list : ListOk s
  cursor : ∀ q, s.pc = .cbProc (some q) → q ∈ s.head
  blocked : s.pc = .blockedForever ∨ (∃ t d, s.pc = .blocked t d) → s.queue = []

/-- **where a command goes**: into the queue, or to the task that is blocked. -/
inductive Put (s : TimerSys) (cb : TimerQueueCb) : TimerPc → List TimerQueueCb → Prop
  | queued (hforever : s.pc ≠ .blockedForever) (hdelta : ∀ t d, s.pc ≠ .blocked t d) :
      Put s cb s.pc (s.queue ++ [cb])
  | handed (hpc : s.pc = .blockedForever) : Put s cb (.received cb) s.queue
  | handedInTime (tickStart deadline : ℕ) (hpc : s.pc = .blocked tickStart deadline) :
      Put s cb (.receivedInTime cb) s.queue

/-- **what the interface can do**, besides the timer task. -/
inductive ApiEffect (s : TimerSys) : TimerSys → Prop
  | refl : ApiEffect s s
  | send (cb : TimerQueueCb) (pc : TimerPc) (queue : List TimerQueueCb)
      (hfirst : cb.first < maxTimerTicks) (hround : cb.round < maxTimerTicks)
      (hput : Put s cb pc queue) : ApiEffect s { s with pc := pc, queue := queue }
  | create (timer : ℕ) (t : KTimer) (pc : TimerPc) (queue : List TimerQueueCb)
      (hnew : (s.timers timer).isTimer = false) (hto : t.toHead = false)
      (hst : t.timerState = .deactive) (hfirst : t.initCount < maxTimerTicks)
      (hround : t.roundTicks < maxTimerTicks)
      (hput : pc = s.pc ∧ queue = s.queue ∨
        Put s { timer := timer, cbNum := .start, first := 0, round := 0, arg := 0 } pc queue) :
      ApiEffect s { s.set timer t with pc := pc, queue := queue }

/-- A command is put somewhere, or refused because the queue is full. -/
theorem timerSend_put (s : TimerSys) (cb : TimerQueueCb) :
    (timerSend s cb).2 = s ∨
      ∃ pc queue, Put s cb pc queue ∧ (timerSend s cb).2 = { s with pc := pc, queue := queue } := by
  unfold timerSend
  split
  · next hpc => exact .inr ⟨_, _, .handed hpc, rfl⟩
  · next tickStart deadline hpc => exact .inr ⟨_, _, .handedInTime tickStart deadline hpc, rfl⟩
  · next hforever hdelta =>
    split
    · exact .inr ⟨_, _, .queued hforever hdelta, rfl⟩
    · exact .inl rfl

/-- The timers have no part in where a command goes. -/
theorem Put.ofSet {s : TimerSys} {timer : ℕ} {t : KTimer} {cb : TimerQueueCb} {pc : TimerPc}
    {queue : List TimerQueueCb} (h : Put (s.set timer t) cb pc queue) : Put s cb pc queue := by
  cases h with
  | queued hforever hdelta => exact .queued hforever hdelta
  | handed hpc => exact .handed hpc
  | handedInTime tickStart deadline hpc => exact .handedInTime tickStart deadline hpc

/-- A command that has been put leaves the loop where it was, and the task not blocked
with a command in the queue. -/
theorem Put.cursor {s : TimerSys} {cb : TimerQueueCb} {pc : TimerPc} {queue : List TimerQueueCb}
    (h : Put s cb pc queue) :
    (∀ q, pc = .cbProc q → s.pc = .cbProc q) ∧ pc ≠ .blockedForever ∧ ∀ t d, pc ≠ .blocked t d := by
  cases h with
  | queued hforever hdelta => exact ⟨fun _ hq => hq, hforever, hdelta⟩
  | handed hpc => exact ⟨(fun _ hq => by cases hq), by simp, by simp⟩
  | handedInTime tickStart deadline hpc => exact ⟨(fun _ hq => by cases hq), by simp, by simp⟩

/-- Sending a command touches the queue only, or is refused. -/
theorem timerSend_effect (s : TimerSys) (cb : TimerQueueCb) (hfirst : cb.first < maxTimerTicks)
    (hround : cb.round < maxTimerTicks) : ApiEffect s (timerSend s cb).2 := by
  rcases timerSend_put s cb with heq | ⟨pc, queue, hput, heq⟩
  · rw [heq]
    exact .refl
  · rw [heq]
    exact .send cb pc queue hfirst hround hput

/-- There is room for one tick. -/
theorem maxTimerTicks_pos : 0 < maxTimerTicks := by
  decide

/-- A start or stop command touches the queue only. -/
theorem timerSendCmd_effect (s : TimerSys) (timer : ℕ) (cmd : TimerCmd) :
    ApiEffect s (timerSendCmd s timer cmd).2 :=
  timerSend_effect s _ maxTimerTicks_pos maxTimerTicks_pos

/-- Creating a timer sets up that one. -/
theorem timerCreate_effect {s : TimerSys} {timer : ℕ} (hnew : (s.timers timer).isTimer = false)
    (first round arg : ℕ) (autoRun : Bool) (mmAllocFlag : AllocFlag) :
    ApiEffect s (timerCreate s timer first round arg autoRun mmAllocFlag).2 := by
  unfold timerCreate
  split
  · exact .refl
  · split
    · exact .refl
    · next hfirst =>
      split
      · exact .refl
      · next hround =>
        dsimp only
        split
        · unfold krhinoTimerStart timerSendCmd
          rcases timerSend_put (s.set timer _)
            { timer := timer, cbNum := .start, first := 0, round := 0, arg := 0 } with
            heq | ⟨pc, queue, hput, heq⟩
          · rw [heq]
            exact .create timer _ s.pc s.queue hnew rfl rfl (Nat.lt_of_not_le hfirst)
              (Nat.lt_of_not_le hround) (.inl ⟨rfl, rfl⟩)
          · rw [heq]
            exact .create timer _ pc queue hnew rfl rfl (Nat.lt_of_not_le hfirst)
              (Nat.lt_of_not_le hround) (.inr hput.ofSet)
        · exact .create timer _ s.pc s.queue hnew rfl rfl (Nat.lt_of_not_le hfirst)
            (Nat.lt_of_not_le hround) (.inl ⟨rfl, rfl⟩)

/-- Ticks only count, except where they end the wait of the task. -/
theorem timerTick_cases (s : TimerSys) (n : ℕ) :
    timerTick s n = { s with tickCount := addTime s.tickCount n } ∨
      ∃ tickStart deadline, s.pc = .blocked tickStart deadline ∧
        timerTick s n = { s with tickCount := addTime s.tickCount n, pc := .timedOut } := by
  unfold timerTick
  dsimp only
  split
  · next tickStart deadline hpc =>
    split
    · exact .inr ⟨tickStart, deadline, hpc, rfl⟩
    · exact .inl rfl
  · exact .inl rfl

/-- **what a step can be.** -/
theorem timerStep_cases {s s' : TimerSys} {a : TimerAct} (h : timerStep s a = some s') :
    (∃ n, a = .tick n ∧ s' = timerTick s n) ∨
      ApiEffect s s' ∨ (a = .task ∧ timerTask s = some s') := by
  cases a with
  | tick n => exact .inl ⟨n, rfl, (Option.some.inj h).symm⟩
  | task => exact .inr (.inr ⟨rfl, h⟩)
  | create timer first round arg autoRun =>
    simp only [timerStep] at h
    split at h
    · cases h
    · next hnew =>
      cases h
      exact .inr (.inl (timerCreate_effect (by simpa using hnew) first round arg autoRun _))
  | dynCreate timer first round arg autoRun =>
    simp only [timerStep] at h
    split at h
    · cases h
    · next hnew =>
      cases h
      right
      left
      unfold krhinoTimerDynCreate
      dsimp only
      split
      · exact timerCreate_effect (by simpa using hnew) first round arg autoRun _
      · exact .refl
  | start timer =>
    cases h
    exact .inr (.inl (timerSendCmd_effect s timer _))
  | stop timer =>
    cases h
    exact .inr (.inl (timerSendCmd_effect s timer _))
  | del timer =>
    cases h
    exact .inr (.inl (timerSendCmd_effect s timer _))
  | dynDel timer =>
    cases h
    exact .inr (.inl (timerSendCmd_effect s timer _))
  | change timer first round =>
    cases h
    right
    left
    unfold krhinoTimerChange
    split_ifs with _ hfirst hround
    · exact .refl
    · exact .refl
    · exact .refl
    · exact timerSend_effect s _ (Nat.lt_of_not_le hfirst) (Nat.lt_of_not_le hround)
  | argChange timer arg =>
    cases h
    exact .inr (.inl (timerSend_effect s _ maxTimerTicks_pos maxTimerTicks_pos))
  | argChangeAuto timer arg =>
    cases h
    exact .inr (.inl (timerSend_effect s _ maxTimerTicks_pos maxTimerTicks_pos))

/-- The invariant holds on when a task calls the timer functions. -/
theorem TimerInv.api {s s' : TimerSys} (h : TimerInv s) (heff : ApiEffect s s') : TimerInv s' := by
  cases heff with
  | refl => exact h
  | send cb pc queue hfirst hround hput =>
    obtain ⟨hcursor, hforever, hdelta⟩ := hput.cursor
    refine ⟨h.list.congr rfl rfl rfl, fun q hq => h.cursor q (hcursor _ hq), ?_⟩
    rintro (hpc | ⟨t, d, hpc⟩)
    · exact absurd hpc hforever
    · exact absurd hpc (hdelta t d)
  | create timer t pc queue hnew hto hst hfirst hround hput =>
    have hout : timer ∉ s.head := h.list.not_mem (by simp [hnew])
    have hpcs : (∀ q, pc = .cbProc (some q) → q ∈ s.head) ∧
        (pc = .blockedForever ∨ (∃ t d, pc = .blocked t d) → queue = []) := by
      rcases hput with ⟨rfl, rfl⟩ | hput
      · exact ⟨h.cursor, h.blocked⟩
      · obtain ⟨hcursor, hforever, hdelta⟩ := hput.cursor
        refine ⟨fun q hq => h.cursor q (hcursor _ hq), ?_⟩
        rintro (hpc | ⟨t, d, hpc⟩)
        · exact absurd hpc hforever
        · exact absurd hpc (hdelta t d)
    refine ⟨?_, hpcs.1, hpcs.2⟩
    refine h.list.edit timer (List.Perm.refl _) ⟨?_, ?_, fun hin => absurd hin hout⟩ ?_
      (.inl rfl)
    · simp [TimerSys.set, hto, h.list.unlisted timer hout]
    · simp [TimerSys.set, hst, h.list.unlisted timer hout]
    · intro other hne
      exact TimerSys.set_timers_ne s t hne

/-- The list stays right when the timer task takes a command. -/
theorem ListOk.cmdProc {s s' : TimerSys} {cb : TimerQueueCb} (h : ListOk s)
    (hcmd : timerCmdProc s cb = some s') : ListOk s' :=
  timerCmdProc_inv hcmd h (fun _ _ _ _ hs heff => hs.cmd heff)

/-- The walk starts with the first timer of the list. -/
theorem cursor_head (s : TimerSys) {q : ℕ} (h : TimerPc.cbProc s.head.head? = .cbProc (some q)) :
    q ∈ s.head :=
  List.mem_of_mem_head? (TimerPc.cbProc.inj h)

/-- The node after the fired one is listed. -/
theorem afterFire_mem {s : TimerSys} {q next : ℕ} (h : ListOk s) (hin : q ∈ s.head)
    (hnext : afterFire s q = some next) : next ∈ (fireTimer s q).head := by
  unfold afterFire at hnext
  split at hnext
  · exact nextIn_mem hnext
  · next hround =>
    rw [(fireTimer_head (h.listed q hin).1).mem_iff, if_neg hround, h.nodup.mem_erase_iff]
    exact ⟨nextIn_ne h.nodup hnext, nextIn_mem hnext⟩

/-- **what a step of the timer task can do.** -/
inductive TaskEffect (s : TimerSys) : TimerSys → Prop
  | recv (cb : TimerQueueCb) (rest : List TimerQueueCb) (pc : TimerPc)
      (hqueue : s.queue = cb :: rest) (hpc : pc = .received cb ∨ pc = .receivedInTime cb) :
      TaskEffect s { s with queue := rest, pc := pc }
  | cmd (cb : TimerQueueCb) (s₁ : TimerSys) (pc : TimerPc)
      (hpc : s.pc = .received cb ∨ s.pc = .receivedInTime cb)
      (hcmd : timerCmdProc { s with timerCount := s.tickCount } cb = some s₁)
      (hpc' : pc = .whileHead ∨ pc = .cbProc s₁.head.head?) : TaskEffect s { s₁ with pc := pc }
  | wait (timer : ℕ) (rest : List ℕ) (hpc : s.pc = .whileHead) (hhead : s.head = timer :: rest)
      (hdelta : 0 < intDelta (s.timers timer).matchTick s.tickCount) :
      TaskEffect s { s with
        pc := .recvDelta s.tickCount (intDelta (s.timers timer).matchTick s.tickCount).toNat }
  | block (tickStart delta deadline : ℕ) (hpc : s.pc = .recvDelta tickStart delta)
      (hqueue : s.queue = []) : TaskEffect s { s with pc := .blocked tickStart deadline }
  | blockForever (hpc : s.pc = .recvForever) (hqueue : s.queue = []) :
      TaskEffect s { s with pc := .blockedForever }
  | walk : TaskEffect s { s with timerCount := s.tickCount, pc := .cbProc s.head.head? }
  | move (pc : TimerPc) (hpc : pc = .recvForever ∨ pc = .whileHead) :
      TaskEffect s { s with pc := pc }
  | fire (q : ℕ) (hpc : s.pc = .cbProc (some q))
      (hdue : intDelta (s.timers q).matchTick s.timerCount ≤ 0) :
      TaskEffect s { fireTimer s q with pc := .cbProc (afterFire s q) }

/-- What one step of the timer task can do. -/
theorem timerTask_effect {s s' : TimerSys} (h : timerTask s = some s') : TaskEffect s s' := by
  unfold timerTask at h
  split at h
  · -- recvForever
    next hpc =>
    split at h
    · next hqueue =>
      cases h
      exact .blockForever hpc hqueue
    · next cb rest hqueue =>
      cases h
      exact .recv cb rest _ hqueue (.inl rfl)
  · -- blockedForever
    cases h
  · -- received
    next cb hpc =>
    split at h
    · cases h
    · next s₁ hcmd =>
      cases h
      exact .cmd cb s₁ _ (.inl hpc) hcmd (.inl rfl)
  · -- whileHead
    next hpc =>
    split at h
    · cases h
      exact .move _ (.inl rfl)
    · next timer rest hhead =>
      dsimp only at h
      split at h
      · next hdelta =>
        cases h
        exact .wait timer rest hpc hhead hdelta
      · cases h
        exact .walk
  · -- recvDelta
    next tickStart delta hpc =>
    split at h
    · next hqueue =>
      cases h
      exact .block tickStart delta _ hpc hqueue
    · next cb rest hqueue =>
      cases h
      exact .recv cb rest _ hqueue (.inr rfl)
  · -- blocked
    cases h
  · -- receivedInTime
    next cb hpc =>
    split at h
    · cases h
    · next s₁ hcmd =>
      cases h
      exact .cmd cb s₁ _ (.inr hpc) hcmd (.inr rfl)
  · -- timedOut
    cases h
    exact .walk
  · -- cbProc
    next q hpc =>
    cases h
    cases q with
    | none => exact .move _ (.inr rfl)
    | some q =>
      rw [timerCbProc_some]
      split
      · next hdue => exact .fire q hpc hdue
      · exact .move _ (.inr rfl)

/-- A step of the timer task. -/
theorem TimerInv.task {s s' : TimerSys} (h : TimerInv s) (heff : TaskEffect s s') :
    TimerInv s' := by
  cases heff with
  | recv cb rest pc hqueue hpc =>
    refine ⟨h.list.congr rfl rfl rfl, fun q hq => ?_, fun hq => ?_⟩
    · rcases hpc with rfl | rfl <;> cases hq
    · rcases hpc with rfl | rfl <;> simp at hq
  | cmd cb s₁ pc hpc hcmd hpc' =>
    have hs : ListOk { s with timerCount := s.tickCount } := h.list.congr rfl rfl rfl
    have hok : ListOk s₁ := hs.cmdProc hcmd
    refine ⟨hok.congr rfl rfl rfl, fun q hq => ?_, fun hq => ?_⟩
    · rcases hpc' with rfl | rfl
      · cases hq
      · exact cursor_head s₁ hq
    · rcases hpc' with rfl | rfl <;> simp at hq
  | wait timer rest hpc hhead hdelta =>
    exact ⟨h.list.congr rfl rfl rfl, (fun q hq => by cases hq), fun hq => by simp at hq⟩
  | block tickStart delta deadline hpc hqueue =>
    exact ⟨h.list.congr rfl rfl rfl, (fun q hq => by cases hq), fun _ => hqueue⟩
  | blockForever hpc hqueue =>
    exact ⟨h.list.congr rfl rfl rfl, (fun q hq => by cases hq), fun _ => hqueue⟩
  | walk =>
    exact ⟨h.list.congr rfl rfl rfl, fun q hq => cursor_head s hq, fun hq => by simp at hq⟩
  | move pc hpc =>
    refine ⟨h.list.congr rfl rfl rfl, fun q hq => ?_, fun hq => ?_⟩
    · rcases hpc with rfl | rfl <;> cases hq
    · rcases hpc with rfl | rfl <;> simp at hq
  | fire q hpc hdue =>
    have hin := h.cursor q hpc
    refine ⟨(h.list.fireTimer hin).congr rfl rfl rfl, fun next hnext => ?_, fun hq => by simp at hq⟩
    exact afterFire_mem h.list hin (TimerPc.cbProc.inj hnext)

/-- Ticks keep the list and the loop. -/
theorem TimerInv.tick {s : TimerSys} (h : TimerInv s) (n : ℕ) : TimerInv (timerTick s n) := by
  rcases timerTick_cases s n with heq | ⟨tickStart, deadline, -, heq⟩
  · rw [heq]
    exact ⟨h.list.congr rfl rfl rfl, h.cursor, h.blocked⟩
  · rw [heq]
    exact ⟨h.list.congr rfl rfl rfl, (fun q hq => by cases hq), fun hq => by simp at hq⟩

/-- Every step keeps the list and the loop. -/
theorem TimerInv.step {s s' : TimerSys} {a : TimerAct} (h : TimerInv s)
    (hstep : timerStep s a = some s') : TimerInv s' := by
  rcases timerStep_cases hstep with ⟨n, -, rfl⟩ | heff | ⟨-, htask⟩
  · exact h.tick n
  · exact h.api heff
  · exact h.task (timerTask_effect htask)

/-- The invariant holds at the start. -/
theorem timerInv_init : TimerInv ktimerInit where
  list :=
    { nodup := List.nodup_nil
      listed := fun timer hmem => by cases hmem
      unlisted := fun timer _ => ⟨rfl, rfl⟩
      armed := fun timer => by simp [ktimerInit, armedIn]
      fires := fun pre timer roundTicks post h => by simp [ktimerInit] at h }
  cursor := fun q hq => by cases hq
  blocked := fun _ => rfl

/-- The other listed timers are not overdue at `count`. -/
def NoneOverdue (s : TimerSys) (timer count : ℕ) : Prop :=
  ∀ other ∈ s.head, other ≠ timer → count ≤ (s.timers other).matchTick

/-- The command puts its timer into the list. -/
def Inserts (s : TimerSys) (cb : TimerQueueCb) : Prop :=
  (s.timers cb.timer).isTimer = true ∧
    (cb.cbNum = .argChgAuto ∨ cb.cbNum = .start ∧ (s.timers cb.timer).timerState ≠ .active)

/-- **The condition on a step.** A timer is put into the list only if no other listed timer is
overdue; when the task looks at the list no timer is 2^31 ticks late; and the tick count does not
come near its end. -/
def InOrder (s : TimerSys) : TimerAct → Prop
  | .tick n => s.tickCount + n ≤ 2 ^ 63
  | .task =>
    match s.pc with
    | .received cb => Inserts s cb → NoneOverdue s cb.timer s.tickCount
    | .receivedInTime cb => Inserts s cb → NoneOverdue s cb.timer s.tickCount
    | .whileHead => ∀ timer ∈ s.head, s.tickCount < (s.timers timer).matchTick + 2 ^ 31
    | .cbProc (some q) =>
      intDelta (s.timers q).matchTick s.timerCount ≤ 0 → 0 < (s.timers q).roundTicks →
        NoneOverdue s q s.timerCount
    | _ => True
  | _ => True

instance (s : TimerSys) (timer count : ℕ) : Decidable (NoneOverdue s timer count) :=
  inferInstanceAs (Decidable (∀ other ∈ s.head, _ → _))

instance (s : TimerSys) (cb : TimerQueueCb) : Decidable (Inserts s cb) :=
  inferInstanceAs (Decidable (_ ∧ _))

instance (s : TimerSys) (a : TimerAct) : Decidable (InOrder s a) := by
  unfold InOrder
  split
  · infer_instance
  · split <;> infer_instance
  · infer_instance

/-- Within half the range of the counter, a positive difference means later. -/
theorem intDelta_pos {a b : ℕ} (hlate : b < a + 2 ^ 31) (hpos : 0 < intDelta a b) : b < a := by
  by_contra hle
  have heq : intDelta a b = (a : ℤ) - b := by
    unfold intDelta
    rw [Int.bmod_eq_of_le] <;> omega
  omega

/-- **The list in order.** -/
structure Ordered (s : TimerSys) : Prop where
  tick : s.tickCount ≤ 2 ^ 63
  count : s.timerCount ≤ s.tickCount
  ticks : ∀ timer, (s.timers timer).initCount < maxTimerTicks ∧
    (s.timers timer).roundTicks < maxTimerTicks
  sorted : s.head.Pairwise fun a b => (s.timers a).matchTick ≤ (s.timers b).matchTick
  range : ∀ timer ∈ s.head, (s.timers timer).matchTick < 2 ^ 64

/-- With no listed timer overdue the unsigned comparison is the right one. -/
theorem timerListPriInsert_sorted {s : TimerSys} {timer val : ℕ} {l : List ℕ}
    (hsorted : l.Pairwise fun a b => (s.timers a).matchTick ≤ (s.timers b).matchTick)
    (hdue : ∀ q ∈ l, s.timerCount ≤ (s.timers q).matchTick ∧ (s.timers q).matchTick < 2 ^ 64)
    (hval : (s.timers timer).matchTick = s.timerCount + val) :
    (timerListPriInsert s timer val l).Pairwise fun a b =>
      (s.timers a).matchTick ≤ (s.timers b).matchTick := by
  induction l with
  | nil => exact List.pairwise_singleton _ _
  | cons q rest ih =>
    obtain ⟨hq, hrest⟩ := List.pairwise_cons.1 hsorted
    obtain ⟨hlo, hhi⟩ := hdue q List.mem_cons_self
    have hsub : subTime (s.timers q).matchTick s.timerCount =
        (s.timers q).matchTick - s.timerCount := by
      unfold subTime
      omega
    unfold timerListPriInsert
    rw [hsub]
    split
    · next hlt =>
      refine List.pairwise_cons.2 ⟨fun other hother => ?_, hsorted⟩
      rcases List.mem_cons.1 hother with rfl | hin
      · omega
      · have := hq other hin
        omega
    · next hge =>
      refine List.pairwise_cons.2 ⟨fun other hother => ?_,
        ih hrest (fun q hin => hdue q (List.mem_cons_of_mem _ hin))⟩
      rcases List.mem_cons.1 ((timerListPriInsert_perm s timer val rest).mem_iff.1 hother) with
        rfl | hin
      · omega
      · exact hq other hin

/-- A timer is listed while no other is overdue. -/
theorem Ordered.enlist {s : TimerSys} {timer ticks : ℕ} (h : Ordered s) (hnew : timer ∉ s.head)
    (hticks : ticks < maxTimerTicks) (hdue : NoneOverdue s timer s.timerCount) :
    Ordered (timerEnlist s timer ticks) := by
  have htick := h.tick
  have hcount := h.count
  have hsum : addTime s.timerCount ticks = s.timerCount + ticks := by
    unfold addTime
    unfold maxTimerTicks at hticks
    omega
  have hsame : ∀ other ∈ s.head,
      ((timerEnlist s timer ticks).timers other).matchTick = (s.timers other).matchTick := by
    intro other hin
    have hne : other ≠ timer := fun heq => hnew (heq ▸ hin)
    rw [timerEnlist_ne _ _ hne]
  refine ⟨htick, hcount, fun other => ?_, ?_, fun other hmem => ?_⟩
  · by_cases heq : other = timer
    · rw [heq, timerEnlist_self]
      exact h.ticks timer
    · rw [timerEnlist_ne _ _ heq]
      exact h.ticks other
  · refine timerListPriInsert_sorted
      (s := s.set timer { s.timers timer with
        matchTick := addTime s.timerCount ticks, remain := ticks, toHead := true }) ?_ ?_ ?_
    · refine h.sorted.imp_of_mem (fun {a b} ha hb hle => ?_)
      exact (hsame a ha).trans_le (hle.trans_eq (hsame b hb).symm)
    · intro q hin
      have hlo := hdue q hin (fun heq => hnew (heq ▸ hin))
      have hhi := h.range q hin
      rw [← hsame q hin] at hlo hhi
      exact ⟨hlo, hhi⟩
    · rw [TimerSys.set_timers_self]
      exact hsum
  · rcases List.mem_cons.1 ((timerEnlist_head s timer ticks).mem_iff.1 hmem) with rfl | hin
    · rw [timerEnlist_self]
      dsimp only
      rw [hsum]
      unfold maxTimerTicks at hticks
      omega
    · rw [hsame other hin]
      exact h.range other hin

/-- Timers leave the list, or are edited without a new match. -/
theorem Ordered.shrink {s s' : TimerSys} (h : Ordered s) (htick : s'.tickCount = s.tickCount)
    (hcount : s'.timerCount = s.timerCount) (hhead : List.Sublist s'.head s.head)
    (hmatch : ∀ timer ∈ s'.head, (s'.timers timer).matchTick = (s.timers timer).matchTick)
    (hticks : ∀ timer, (s'.timers timer).initCount < maxTimerTicks ∧
      (s'.timers timer).roundTicks < maxTimerTicks) : Ordered s' where
  tick := htick ▸ h.tick
  count := by
    rw [htick, hcount]
    exact h.count
  ticks := hticks
  sorted := by
    refine (h.sorted.sublist hhead).imp_of_mem (fun {a b} ha hb hle => ?_)
    rw [hmatch a ha, hmatch b hb]
    exact hle
  range := by
    intro timer hmem
    rw [hmatch timer hmem]
    exact h.range timer (hhead.subset hmem)

/-- The order stays when a due timer fires, if no other one is overdue where it goes back into the list. -/
theorem Ordered.fireTimer {s : TimerSys} {q : ℕ} (h : Ordered s) (hs : ListOk s)
    (hin : q ∈ s.head)
    (hdue : 0 < (s.timers q).roundTicks → NoneOverdue s q s.timerCount) :
    Ordered (fireTimer s q) := by
  have hto := (hs.listed q hin).1
  have hrm := timerListRm_eq (s := s.record (.fired q (s.timers q).roundTicks)) hto
  have hshrunk : Ordered (timerListRm (s.record (.fired q (s.timers q).roundTicks)) q) := by
    rw [hrm]
    refine h.shrink rfl rfl List.erase_sublist (fun other hmem => ?_) (fun other => ?_)
    · have hne : other ≠ q := (hs.nodup.mem_erase_iff.1 hmem).1
      rw [TimerSys.set_timers_ne _ _ hne]
      rfl
    · by_cases heq : other = q
      · subst heq
        rw [TimerSys.set_timers_self]
        exact h.ticks other
      · rw [TimerSys.set_timers_ne _ _ heq]
        exact h.ticks other
  have hout : q ∉ (timerListRm (s.record (.fired q (s.timers q).roundTicks)) q).head := by
    rw [hrm]
    exact hs.nodup.not_mem_erase
  unfold Analysis.fireTimer
  dsimp only
  split
  · next hround =>
    refine hshrunk.enlist hout (h.ticks q).2 ?_
    rw [hrm]
    intro other hmem hne
    rw [TimerSys.set_timers_ne _ _ hne]
    exact hdue hround other (List.mem_of_mem_erase hmem) hne
  · refine hshrunk.shrink rfl rfl (List.Sublist.refl _) (fun other hmem => ?_) (fun other => ?_)
    · have hne : other ≠ q := fun heq => hout (heq ▸ hmem)
      rw [TimerSys.set_timers_ne _ _ hne]
    · by_cases heq : other = q
      · subst heq
        rw [TimerSys.set_timers_self]
        exact hshrunk.ticks other
      · rw [TimerSys.set_timers_ne _ _ heq]
        exact hshrunk.ticks other

/-- A timer that is not listed, or keeps its match, is written. -/
theorem Ordered.set {s : TimerSys} {timer : ℕ} {t : KTimer} (h : Ordered s)
    (hmatch : timer ∈ s.head → t.matchTick = (s.timers timer).matchTick)
    (hfirst : t.initCount < maxTimerTicks) (hround : t.roundTicks < maxTimerTicks) :
    Ordered (s.set timer t) := by
  refine h.shrink rfl rfl (List.Sublist.refl _) (fun other hmem => ?_) (fun other => ?_)
  · by_cases heq : other = timer
    · subst heq
      rw [TimerSys.set_timers_self]
      exact hmatch hmem
    · rw [TimerSys.set_timers_ne _ _ heq]
  · by_cases heq : other = timer
    · subst heq
      rw [TimerSys.set_timers_self]
      exact ⟨hfirst, hround⟩
    · rw [TimerSys.set_timers_ne _ _ heq]
      exact h.ticks other

/-- What is carried through the parts of a command. -/
structure CmdInv (cb : TimerQueueCb) (s : TimerSys) : Prop where
  list : ListOk s
  ordered : Ordered s
  due : Inserts s cb → NoneOverdue s cb.timer s.timerCount

/-- The order depends on the timers, the list and the two counters. -/
theorem Ordered.congr {s s' : TimerSys} (h : Ordered s) (htimers : s'.timers = s.timers)
    (hhead : s'.head = s.head) (htick : s'.tickCount = s.tickCount)
    (hcount : s'.timerCount = s.timerCount) : Ordered s' :=
  h.shrink htick hcount (hhead ▸ List.Sublist.refl _) (fun _ _ => by rw [htimers])
    (by rw [htimers]; exact h.ticks)

/-- A command keeps the order if it does not put its timer before an overdue one. -/
theorem CmdInv.cmd {s s' : TimerSys} {cb : TimerQueueCb} {cmd : TimerCmd} (h : CmdInv cb s)
    (hfirst : cb.first < maxTimerTicks) (hround : cb.round < maxTimerTicks)
    (hwhich : cmd = cb.cbNum ∨ cb.cbNum = .argChgAuto) (heff : CmdEffect s cb cmd s') :
    CmdInv cb s' := by
  have hlist := h.list.cmd heff
  cases heff with
  | skip hne => exact h
  | start htimer hidle =>
    have hdue : NoneOverdue s cb.timer s.timerCount :=
      h.due ⟨htimer, hwhich.symm.imp_right (fun heq => ⟨heq.symm, hidle⟩)⟩
    have hnew : cb.timer ∉ s.head := fun hin => hidle (h.list.listed _ hin).2.1
    have henl := h.ordered.enlist hnew (h.ordered.ticks cb.timer).1 hdue
    refine ⟨hlist, ?_, fun _ other hmem hne => ?_⟩
    · have hset := henl.set
        (t := { (timerEnlist s cb.timer (s.timers cb.timer).initCount).timers cb.timer with
          timerState := .active })
        (fun _ => rfl) (henl.ticks cb.timer).1 (henl.ticks cb.timer).2
      exact hset.congr rfl rfl rfl rfl
    · have hin := ((timerEnlist_head s cb.timer _).mem_iff.1 hmem)
      have hsame : (startTimer s cb.timer).timers other = s.timers other := by
        simp [startTimer, TimerSys.set_timers_ne _ _ hne, timerEnlist_ne _ _ hne]
      rw [hsame]
      exact hdue other ((List.mem_cons.1 hin).resolve_left hne) hne
  | stop htimer hactive =>
    have hin : cb.timer ∈ s.head := by
      by_contra hout
      exact hactive (h.list.unlisted _ hout).2
    obtain ⟨hhead, -, hself, hother⟩ := stopTimer_eq (h.list.listed _ hin).1
    refine ⟨hlist, ?_, fun hins other hmem hne => ?_⟩
    · refine h.ordered.shrink ?_ ?_ (hhead ▸ List.erase_sublist) (fun other hmem => ?_)
        (fun other => ?_)
      · unfold stopTimer timerListRm
        split_ifs <;> rfl
      · unfold stopTimer timerListRm
        split_ifs <;> rfl
      · rw [hhead] at hmem
        rw [hother other (h.list.nodup.mem_erase_iff.1 hmem).1]
      · by_cases heq : other = cb.timer
        · subst heq
          rw [hself]
          exact h.ordered.ticks cb.timer
        · rw [hother other heq]
          exact h.ordered.ticks other
    · have hauto : cb.cbNum = .argChgAuto := by
        rcases hwhich with heq | hauto
        · rcases hins.2 with hauto | ⟨hstart, -⟩
          · exact hauto
          · rw [hstart] at heq
            cases heq
        · exact hauto
      have hcount : (stopTimer s cb.timer).timerCount = s.timerCount := by
        unfold stopTimer timerListRm
        split_ifs <;> rfl
      rw [hcount, hother other hne]
      rw [hhead] at hmem
      exact h.due ⟨htimer, .inl hauto⟩ other (List.mem_of_mem_erase hmem) hne
  | stopIdle hidle =>
    exact ⟨hlist, h.ordered.congr rfl rfl rfl rfl, h.due⟩
  | edit t hidle hto hst htimer hticks =>
    have hout : cb.timer ∉ s.head := h.list.not_mem (fun _ => hidle)
    refine ⟨hlist, ?_, fun hins other hmem hne => ?_⟩
    · rcases hticks with ⟨h₁, h₂⟩ | ⟨h₁, h₂⟩
      · refine h.ordered.set (fun hin => absurd hin hout) ?_ ?_
        · rw [h₁]
          exact (h.ordered.ticks cb.timer).1
        · rw [h₂]
          exact (h.ordered.ticks cb.timer).2
      · exact h.ordered.set (fun hin => absurd hin hout) (h₁ ▸ hfirst) (h₂ ▸ hround)
    · rw [TimerSys.set_timers_ne _ _ hne]
      have hins' : Inserts s cb := by
        unfold Inserts at hins
        rw [TimerSys.set_timers_self] at hins
        refine ⟨htimer hins.1, hins.2.imp_right (fun hstart => ⟨hstart.1, ?_⟩)⟩
        rw [hidle]
        decide
      exact h.due hins' other hmem hne

/-- The task is in `krhino_buf_queue_recv`, called with the head of the list read at `tickStart`. -/
def WaitsSince (s : TimerSys) (tickStart : ℕ) : Prop :=
  (∃ delta, s.pc = .recvDelta tickStart delta) ∨ ∃ deadline, s.pc = .blocked tickStart deadline

/-- Where the task is elsewhere it does not wait. -/
theorem not_waitsSince {s : TimerSys} {tickStart : ℕ} (h₁ : ∀ t d, s.pc ≠ .recvDelta t d)
    (h₂ : ∀ t d, s.pc ≠ .blocked t d) : ¬ WaitsSince s tickStart := by
  rintro (⟨d, hd⟩ | ⟨d, hd⟩)
  · exact h₁ _ _ hd
  · exact h₂ _ _ hd

/-- **what holds in every run whose steps meet the condition.** -/
structure OrderInv (s : TimerSys) : Prop where
  base : TimerInv s
  ordered : Ordered s
  queue : ∀ cb ∈ s.queue, cb.first < maxTimerTicks ∧ cb.round < maxTimerTicks
  message : ∀ cb, s.pc = .received cb ∨ s.pc = .receivedInTime cb →
    cb.first < maxTimerTicks ∧ cb.round < maxTimerTicks
  waits : ∀ tickStart, WaitsSince s tickStart →
    s.head ≠ [] ∧ ∀ timer ∈ s.head, tickStart < (s.timers timer).matchTick

/-- A command with parameters in range is put where the commands are, and the task waits
no longer than before. -/
theorem OrderInv.put {s : TimerSys} {cb : TimerQueueCb} {pc : TimerPc} {queue : List TimerQueueCb}
    (h : OrderInv s) (hput : Put s cb pc queue)
    (hcb : cb.first < maxTimerTicks ∧ cb.round < maxTimerTicks) :
    (∀ c ∈ queue, c.first < maxTimerTicks ∧ c.round < maxTimerTicks) ∧
      (∀ c, pc = .received c ∨ pc = .receivedInTime c →
        c.first < maxTimerTicks ∧ c.round < maxTimerTicks) ∧
      ∀ tickStart, WaitsSince { s with pc := pc } tickStart → WaitsSince s tickStart := by
  cases hput with
  | queued hforever hdelta =>
    refine ⟨fun c hmem => ?_, h.message, fun _ hw => hw⟩
    rcases List.mem_append.1 hmem with hin | hin
    · exact h.queue c hin
    · rw [List.mem_singleton.1 hin]
      exact hcb
  | handed hpc =>
    refine ⟨h.queue, fun c hc => ?_, fun tickStart hw => absurd hw ?_⟩
    · rcases hc with hc | hc <;> cases hc
      exact hcb
    · exact not_waitsSince (by simp) (by simp)
  | handedInTime tickStart deadline hpc =>
    refine ⟨h.queue, fun c hc => ?_, fun tickStart hw => absurd hw ?_⟩
    · rcases hc with hc | hc <;> cases hc
      exact hcb
    · exact not_waitsSince (by simp) (by simp)

/-- The interface keeps the order. -/
theorem OrderInv.api {s s' : TimerSys} (h : OrderInv s) (heff : ApiEffect s s') : OrderInv s' := by
  have hbase := h.base.api heff
  cases heff with
  | refl => exact h
  | send cb pc queue hfirst hround hput =>
    obtain ⟨hqueue, hmessage, hwaits⟩ := h.put hput ⟨hfirst, hround⟩
    exact ⟨hbase, h.ordered.congr rfl rfl rfl rfl, hqueue, hmessage,
      fun tickStart hw => h.waits tickStart (hwaits tickStart hw)⟩
  | create timer t pc queue hnew hto hst hfirst hround hput =>
    have hout : timer ∉ s.head := h.base.list.not_mem (by simp [hnew])
    have hset := h.ordered.set (fun hin => absurd hin hout) hfirst hround
    obtain ⟨hqueue, hmessage, hwaits⟩ : (∀ c ∈ queue, c.first < maxTimerTicks ∧ c.round < maxTimerTicks) ∧
        (∀ c, pc = .received c ∨ pc = .receivedInTime c →
          c.first < maxTimerTicks ∧ c.round < maxTimerTicks) ∧
        ∀ tickStart, WaitsSince { s with pc := pc } tickStart → WaitsSince s tickStart := by
      rcases hput with ⟨rfl, rfl⟩ | hput
      · exact ⟨h.queue, h.message, fun _ hw => hw⟩
      · exact h.put hput ⟨maxTimerTicks_pos, maxTimerTicks_pos⟩
    refine ⟨hbase, hset.congr rfl rfl rfl rfl, hqueue, hmessage, fun tickStart hw' => ?_⟩
    · have hw := hwaits tickStart hw'
      refine ⟨(h.waits tickStart hw).1, fun other hmem => ?_⟩
      have hne : other ≠ timer := fun heq => hout (heq ▸ hmem)
      have hsame : (s.set timer t).timers other = s.timers other :=
        TimerSys.set_timers_ne s t hne
      exact hsame ▸ (h.waits tickStart hw).2 other hmem

/-- The counter is set to the tick count. -/
theorem Ordered.sync {s : TimerSys} (h : Ordered s) : Ordered { s with timerCount := s.tickCount } :=
  ⟨h.tick, le_rfl, h.ticks, h.sorted, h.range⟩

/-- A command leaves those behind it in the queue. -/
theorem timerCmdProc_queue {s s' : TimerSys} {cb : TimerQueueCb} (h : timerCmdProc s cb = some s') :
    s'.queue = s.queue := by
  refine timerCmdProc_inv (I := fun s' => s'.queue = s.queue) h rfl ?_
  intro cmd s₁ s₂ _ hs₁ heff
  cases heff with
  | skip hne => exact hs₁
  | start htimer hidle => exact hs₁
  | stop htimer hactive =>
    have : (stopTimer s₁ cb.timer).queue = s₁.queue := by
      unfold stopTimer timerListRm
      split_ifs <;> rfl
    exact this.trans hs₁
  | stopIdle hidle => exact hs₁
  | edit t hidle hto hst htimer hticks => exact hs₁

/-- A timer that fires leaves the queue. -/
theorem fireTimer_queue (s : TimerSys) (q : ℕ) : (fireTimer s q).queue = s.queue := by
  unfold fireTimer timerListRm
  dsimp only
  split_ifs <;> rfl

/-- A step of the timer task that meets the condition. -/
theorem OrderInv.task {s s' : TimerSys} (h : OrderInv s) (heff : TaskEffect s s')
    (hcond : InOrder s .task) : OrderInv s' := by
  have hbase := h.base.task heff
  cases heff with
  | recv cb rest pc hqueue hpc =>
    refine ⟨hbase, h.ordered.congr rfl rfl rfl rfl, fun cb' hmem => ?_, fun cb' hcb => ?_,
      fun tickStart hw => absurd hw ?_⟩
    · exact h.queue cb' (hqueue ▸ List.mem_cons_of_mem _ hmem)
    · have heq : cb' = cb := by
        rcases hpc with rfl | rfl <;> rcases hcb with hcb | hcb <;> cases hcb <;> rfl
      rw [heq]
      exact h.queue cb (hqueue ▸ List.mem_cons_self)
    · rcases hpc with rfl | rfl <;> exact not_waitsSince (by simp) (by simp)
  | cmd cb s₁ pc hpc hcmd hpc' =>
    obtain ⟨hfirst, hround⟩ := h.message cb hpc
    have hdue : Inserts s cb → NoneOverdue s cb.timer s.tickCount := by
      rcases hpc with hpc | hpc <;> simpa [InOrder, hpc] using hcond
    have hcmdInv : CmdInv cb s₁ := by
      refine timerCmdProc_inv (I := CmdInv cb) hcmd ?_ ?_
      · exact ⟨h.base.list.congr rfl rfl rfl, h.ordered.sync, hdue⟩
      · intro cmd s₂ s₃ hwhich hs₂ heff
        exact hs₂.cmd hfirst hround hwhich heff
    refine ⟨hbase, hcmdInv.ordered.congr rfl rfl rfl rfl, fun cb' hmem => ?_, fun cb' hcb => ?_,
      fun tickStart hw => absurd hw ?_⟩
    · rw [timerCmdProc_queue hcmd] at hmem
      exact h.queue cb' hmem
    · rcases hpc' with rfl | rfl <;> rcases hcb with hcb | hcb <;> cases hcb
    · rcases hpc' with rfl | rfl <;> exact not_waitsSince (by simp) (by simp)
  | wait timer rest hpc hhead hdelta =>
    refine ⟨hbase, h.ordered.congr rfl rfl rfl rfl, h.queue, fun cb hcb => ?_,
      fun tickStart hw => ?_⟩
    · rcases hcb with hcb | hcb <;> cases hcb
    · have heq : tickStart = s.tickCount := by
        rcases hw with ⟨d, hd⟩ | ⟨d, hd⟩ <;> cases hd
        rfl
      subst heq
      have hmem : timer ∈ s.head := hhead ▸ List.mem_cons_self
      have hlate : ∀ timer ∈ s.head, s.tickCount < (s.timers timer).matchTick + 2 ^ 31 := by
        simpa [InOrder, hpc] using hcond
      have hfirst : s.tickCount < (s.timers timer).matchTick :=
        intDelta_pos (hlate timer hmem) hdelta
      refine ⟨List.ne_nil_of_mem hmem, fun other hother => ?_⟩
      have hsorted := h.ordered.sorted
      rw [hhead, List.pairwise_cons] at hsorted
      have hother' : other ∈ timer :: rest := hhead ▸ hother
      rcases List.mem_cons.1 hother' with rfl | hin
      · exact hfirst
      · exact hfirst.trans_le (hsorted.1 other hin)
  | blockForever hpc hqueue =>
    refine ⟨hbase, h.ordered.congr rfl rfl rfl rfl, h.queue, fun cb hcb => ?_,
      fun tickStart hw => absurd hw (not_waitsSince (by simp) (by simp))⟩
    rcases hcb with hcb | hcb <;> cases hcb
  | block tickStart delta deadline hpc hqueue =>
    refine ⟨hbase, h.ordered.congr rfl rfl rfl rfl, h.queue, fun cb hcb => ?_,
      fun tickStart' hw => ?_⟩
    · rcases hcb with hcb | hcb <;> cases hcb
    · have heq : tickStart' = tickStart := by
        rcases hw with ⟨d, hd⟩ | ⟨d, hd⟩ <;> cases hd
        rfl
      rw [heq]
      exact h.waits tickStart (.inl ⟨delta, hpc⟩)
  | walk =>
    refine ⟨hbase, h.ordered.sync.congr rfl rfl rfl rfl, h.queue, fun cb hcb => ?_,
      fun tickStart hw => absurd hw (not_waitsSince (by simp) (by simp))⟩
    rcases hcb with hcb | hcb <;> cases hcb
  | move pc hpc =>
    refine ⟨hbase, h.ordered.congr rfl rfl rfl rfl, h.queue, fun cb hcb => ?_,
      fun tickStart hw => absurd hw ?_⟩
    · rcases hpc with rfl | rfl <;> rcases hcb with hcb | hcb <;> cases hcb
    · rcases hpc with rfl | rfl <;> exact not_waitsSince (by simp) (by simp)
  | fire q hpc hdue =>
    have hcond' : 0 < (s.timers q).roundTicks → NoneOverdue s q s.timerCount := by
      have : intDelta (s.timers q).matchTick s.timerCount ≤ 0 → 0 < (s.timers q).roundTicks →
          NoneOverdue s q s.timerCount := by
        simpa only [InOrder, hpc] using hcond
      exact this hdue
    have hfired := h.ordered.fireTimer h.base.list (h.base.cursor q hpc) hcond'
    refine ⟨hbase, hfired.congr rfl rfl rfl rfl, fun cb hmem => ?_, fun cb hcb => ?_,
      fun tickStart hw => absurd hw (not_waitsSince (by simp) (by simp))⟩
    · exact h.queue cb (fireTimer_queue s q ▸ hmem)
    · rcases hcb with hcb | hcb <;> cases hcb

/-- Ticks keep the order. -/
theorem OrderInv.tick {s : TimerSys} {n : ℕ} (h : OrderInv s) (hcond : InOrder s (.tick n)) :
    OrderInv (timerTick s n) := by
  have hbase := h.base.tick n
  have hle : s.tickCount + n ≤ 2 ^ 63 := hcond
  have hcount := h.ordered.count
  have hsum : addTime s.tickCount n = s.tickCount + n := by
    unfold addTime
    omega
  have hordered : ∀ pc, Ordered { s with tickCount := addTime s.tickCount n, pc := pc } := by
    intro pc
    refine ⟨?_, ?_, h.ordered.ticks, h.ordered.sorted, h.ordered.range⟩
    · dsimp only
      omega
    · dsimp only
      omega
  rcases timerTick_cases s n with heq | ⟨tickStart, deadline, -, heq⟩
  · rw [heq] at hbase ⊢
    exact ⟨hbase, hordered s.pc, h.queue, h.message, h.waits⟩
  · rw [heq] at hbase ⊢
    refine ⟨hbase, hordered _, h.queue, fun cb hcb => ?_,
      fun tickStart hw => absurd hw (not_waitsSince (by simp) (by simp))⟩
    rcases hcb with hcb | hcb <;> cases hcb

/-- A step that meets the condition keeps the order. -/
theorem OrderInv.step {s s' : TimerSys} {a : TimerAct} (h : OrderInv s) (hcond : InOrder s a)
    (hstep : timerStep s a = some s') : OrderInv s' := by
  rcases timerStep_cases hstep with ⟨n, rfl, rfl⟩ | heff | ⟨rfl, htask⟩
  · exact h.tick hcond
  · exact h.api heff
  · exact h.task (timerTask_effect htask) hcond

/-- The order holds at the start. -/
theorem orderInv_init : OrderInv ktimerInit where
  base := timerInv_init
  ordered :=
    { tick := by decide
      count := le_rfl
      ticks := fun _ => ⟨maxTimerTicks_pos, maxTimerTicks_pos⟩
      sorted := List.Pairwise.nil
      range := fun timer hmem => by cases hmem }
  queue := fun cb hmem => by cases hmem
  message := fun cb hcb => by rcases hcb with hcb | hcb <;> cases hcb
  waits := fun tickStart hw => absurd hw (not_waitsSince (by simp [ktimerInit]) (by simp [ktimerInit]))

/-- Timer 1 is created to run for 10 ticks, and the task comes to wait for it. -/
def waitForTen : List TimerAct :=
  [.create 1 10 0 0 true, .task, .task, .task, .task]

end GenieSdk.Analysis
