import GenieSdk.Lib.Runs
import GenieSdk.Model.Workqueue

/-!
# Works run once for each insertion

The membership of a work in a list, its `work_exit`, the semaphore and the place of the worker
describe one thing. `WorkLists` says how they agree and that what was inserted is what was run,
what is about to run and what is listed, in this order; `WorkCalls` says what a successful
submission has done. Every step keeps both, whenever the timers of the works expire.
-/

set_option autoImplicit false

namespace GenieSdk.Analysis

open GenieSdk.Lib GenieSdk.Model

inductive WorkAct
  | init (work dly : ℕ)
  | run (task wq work : ℕ)
  | cancel (task work : ℕ)
  | task (task : ℕ)
  | expire (timer wq : ℕ)
  | timerCb
  | worker (wq : ℕ)
  deriving DecidableEq

/-- A work is initialised, an idle task calls the interface, a task goes on in its call, the timer
task begins or goes on with the callback of a timer, or a worker takes a step. -/
def workStep (s : WorkSys) : WorkAct → Option WorkSys
  | .init work dly =>
    if (s.works work).inited ∨ (s.timers.timers work).isTimer then none
    else some (krhinoWorkInit s work dly).2
  | .run task wq work =>
    if s.tasks[task]? = some .idle ∧ (s.works work).inited then some (krhinoWorkRun s task wq work)
    else none
  | .cancel task work =>
    if s.tasks[task]? = some .idle ∧ (s.works work).inited then
      some (s.setTask task (.cancel work (s.works work).wq))
    else none
  | .task task =>
    match s.tasks[task]? with
    | none => none
    | some pc => workTask s task pc
  | .expire timer wq =>
    if s.timerCb = .none then some { s with timerCb := .enter timer wq } else none
  | .timerCb => workTimerCb s
  | .worker wq => workerTask s wq

/-! ## What the log shows -/

/-- The works that were inserted into a queue. -/
def insertedIn (wq : ℕ) (log : List WorkEvent) : List ℕ :=
  log.filterMap fun
    | .inserted _ q work => if q = wq then some work else none
    | _ => none

/-- The works whose handlers a queue's worker invoked. -/
def invokedIn (wq : ℕ) (log : List WorkEvent) : List ℕ :=
  log.filterMap fun
    | .invoked q work => if q = wq then some work else none
    | _ => none

/-- The task an event belongs to. -/
def eventTask : WorkEvent → Option ℕ
  | .run task _ _ => some task
  | .inserted task _ _ => task
  | .ran task _ _ _ => some task
  | .invoked _ _ => none
  | .cancelled task _ _ => some task

/-- The last event of a task. -/
def lastBy (task : ℕ) (log : List WorkEvent) : Option WorkEvent :=
  log.foldl (fun last e => if eventTask e = some task then some e else last) none

@[simp] theorem insertedIn_append (wq : ℕ) (log es : List WorkEvent) :
    insertedIn wq (log ++ es) = insertedIn wq log ++ insertedIn wq es := by
  simp [insertedIn]

@[simp] theorem invokedIn_append (wq : ℕ) (log es : List WorkEvent) :
    invokedIn wq (log ++ es) = invokedIn wq log ++ invokedIn wq es := by
  simp [invokedIn]

/-- One more event is the last one of its task. -/
theorem lastBy_append (task : ℕ) (log : List WorkEvent) (e : WorkEvent) :
    lastBy task (log ++ [e]) = if eventTask e = some task then some e else lastBy task log := by
  simp [lastBy]

/-! ## The lists -/

/-- The task is about to give the semaphore of the queue. -/
def isGiving (wq : ℕ) : WorkTaskPc → Bool
  | .semGive q _ => q == wq
  | _ => false

/-- A 1 where the condition holds. -/
def oneIf (p : Prop) [Decidable p] : ℕ := if p then 1 else 0

/-- The tasks that have inserted a work and have not yet given the semaphore; the timer task may be
one of them. -/
def givers (s : WorkSys) (wq : ℕ) : ℕ :=
  s.tasks.countP (isGiving wq) + oneIf (s.timerCb = .semGive wq)

/-- What will still become a token of the semaphore, or was one that the worker took. -/
def onTheWayTo (s : WorkSys) (wq : ℕ) : ℕ := givers s wq + oneIf ((s.queues wq).worker = .pop)

/-- The work that is about to be run. -/
def aboutToRun : WorkerPc → List ℕ
  | .call work => [work]
  | _ => []

/-- The works are objects at distinct addresses of the 32-bit address space, so a semaphore can count
them. -/
def WorksFit (s : WorkSys) : Prop := ∀ work, (s.works work).inited = true → work < workSemCountMax

/-- **How the lists, `work_exit`, the semaphores and the log agree.** Every listed work has a token,
in the semaphore or on the way to it. -/
structure WorkLists (s : WorkSys) : Prop where
  member : ∀ work, (∃ wq, work ∈ (s.queues wq).workList) ↔ (s.works work).workExit = true
  unique : ∀ work p q, work ∈ (s.queues p).workList → work ∈ (s.queues q).workList → p = q
  nodup : ∀ wq, (s.queues wq).workList.Nodup
  sem : ∀ wq, (s.queues wq).semCount + onTheWayTo s wq ≤ (s.queues wq).workList.length
  order : ∀ wq, insertedIn wq s.log =
    invokedIn wq s.log ++ aboutToRun (s.queues wq).worker ++ (s.queues wq).workList
  fresh : ∀ work, (s.works work).inited = false → (s.works work).workExit = false
  tokens : WorksFit s → ∀ wq, (s.queues wq).workList.length ≤ (s.queues wq).semCount + onTheWayTo s wq
  blocked : ∀ wq, (s.queues wq).worker = .blocked → (s.queues wq).semCount = 0

section Lists

variable {s s' : WorkSys} {work wq : ℕ}

/-- A work that is not marked is in no list. -/
theorem WorkLists.not_listed (h : WorkLists s) (hexit : (s.works work).workExit = false) (q : ℕ) :
    work ∉ (s.queues q).workList := by
  intro hmem
  rw [(h.member work).1 ⟨q, hmem⟩] at hexit
  cases hexit

/-- No list is longer than a semaphore can count. -/
theorem WorkLists.length_le (h : WorkLists s) (hfit : WorksFit s) (q : ℕ) :
    (s.queues q).workList.length ≤ workSemCountMax := by
  have hsub : (s.queues q).workList ⊆ List.range workSemCountMax := by
    intro w hw
    rw [List.mem_range]
    apply hfit
    by_contra hinit
    have hexit := h.fresh w (by simpa using hinit)
    exact h.not_listed hexit q hw
  have hlen := (List.subperm_of_subset (h.nodup q) hsub).length_le
  rwa [List.length_range] at hlen

/-- Taking out a work that is in no list changes nothing. -/
theorem rmNode_eq (h : ∀ q, work ∉ (s.queues q).workList) : s.rmNode work = s := by
  have hq : (fun q => { s.queues q with workList := (s.queues q).workList.erase work }) =
      s.queues := by
    funext q
    rw [List.erase_of_not_mem (h q)]
  unfold WorkSys.rmNode
  rw [hq]

/-- What `WorkLists` says of one queue. -/
structure QueueOk (s : WorkSys) (wq : ℕ) : Prop where
  nodup : (s.queues wq).workList.Nodup
  sem : (s.queues wq).semCount + onTheWayTo s wq ≤ (s.queues wq).workList.length
  order : insertedIn wq s.log =
    invokedIn wq s.log ++ aboutToRun (s.queues wq).worker ++ (s.queues wq).workList
  tokens : WorksFit s → (s.queues wq).workList.length ≤ (s.queues wq).semCount + onTheWayTo s wq
  blocked : (s.queues wq).worker = .blocked → (s.queues wq).semCount = 0

/-- Every queue is as `WorkLists` says. -/
theorem WorkLists.queue (h : WorkLists s) (q : ℕ) : QueueOk s q :=
  ⟨h.nodup q, h.sem q, h.order q, fun hfit => h.tokens hfit q, h.blocked q⟩

/-- A queue that a step leaves alone. -/
theorem QueueOk.congr (h : QueueOk s wq) (hq : s'.queues wq = s.queues wq)
    (hway : onTheWayTo s' wq = onTheWayTo s wq) (hinserted : insertedIn wq s'.log = insertedIn wq s.log)
    (hinvoked : invokedIn wq s'.log = invokedIn wq s.log) (hfit : WorksFit s' → WorksFit s) : QueueOk s' wq := by
  refine ⟨?_, ?_, ?_, fun hfit' => ?_, ?_⟩
  · rw [hq]
    exact h.nodup
  · rw [hq, hway]
    exact h.sem
  · rw [hinserted, hinvoked, hq]
    exact h.order
  · rw [hq, hway]
    exact h.tokens (hfit hfit')
  · rw [hq]
    exact h.blocked

/-- What a step at one queue has to keep. -/
theorem WorkLists.touched (h : WorkLists s)
    (hmember : ∀ w, (∃ q, w ∈ (s'.queues q).workList) ↔ (s'.works w).workExit = true)
    (hunique : ∀ w p q, w ∈ (s'.queues p).workList → w ∈ (s'.queues q).workList → p = q)
    (hfresh : ∀ w, (s'.works w).inited = false → (s'.works w).workExit = false)
    (hfit : WorksFit s' → WorksFit s) (hself : QueueOk s' wq)
    (hother : ∀ q, q ≠ wq → s'.queues q = s.queues q)
    (hway : ∀ q, q ≠ wq → onTheWayTo s' q = onTheWayTo s q)
    (hinserted : ∀ q, q ≠ wq → insertedIn q s'.log = insertedIn q s.log)
    (hinvoked : ∀ q, q ≠ wq → invokedIn q s'.log = invokedIn q s.log) : WorkLists s' := by
  have hall : ∀ q, QueueOk s' q := by
    intro q
    by_cases hq : q = wq
    · rw [hq]
      exact hself
    · exact (h.queue q).congr (hother q hq) (hway q hq) (hinserted q hq) (hinvoked q hq) hfit
  exact ⟨hmember, hunique, fun q => (hall q).nodup, fun q => (hall q).sem, fun q => (hall q).order, hfresh,
    fun hfit' q => (hall q).tokens hfit', fun q => (hall q).blocked⟩

/-- Works that stay initialised are counted as before. -/
theorem WorksFit.back (hinited : ∀ w, (s.works w).inited = true → (s'.works w).inited = true) (h : WorksFit s') :
    WorksFit s := fun w hw => h w (hinited w hw)

/-- A step that leaves the queues and what is on the way to them alone. -/
theorem WorkLists.quiet (h : WorkLists s) (hqueues : s'.queues = s.queues)
    (hexit : ∀ w, (s'.works w).workExit = (s.works w).workExit)
    (hfresh : ∀ w, (s'.works w).inited = false → (s.works w).inited = false)
    (hgivers : ∀ q, givers s' q = givers s q)
    (hinserted : ∀ q, insertedIn q s'.log = insertedIn q s.log)
    (hinvoked : ∀ q, invokedIn q s'.log = invokedIn q s.log) : WorkLists s' := by
  have hway : ∀ q, onTheWayTo s' q = onTheWayTo s q := by
    intro q
    unfold onTheWayTo
    rw [hgivers, hqueues]
  have hfit : WorksFit s' → WorksFit s := by
    apply WorksFit.back
    intro w hw
    by_contra hno
    rw [hfresh w (by simpa using hno)] at hw
    cases hw
  have hself : QueueOk s' 0 := (h.queue 0).congr (by rw [hqueues]) (hway 0) (hinserted 0) (hinvoked 0) hfit
  refine h.touched ?_ ?_ ?_ hfit hself (fun q _ => by rw [hqueues]) (fun q _ => hway q) (fun q _ => hinserted q)
    fun q _ => hinvoked q
  · intro w
    rw [hqueues, hexit]
    exact h.member w
  · rw [hqueues]
    exact h.unique
  · intro w hw
    rw [hexit]
    exact h.fresh w (hfresh w hw)

/-- A step at one queue that leaves its list alone. -/
theorem WorkLists.atQueue (h : WorkLists s) (x : KWorkqueue)
    (hqueues : s'.queues = Function.update s.queues wq x)
    (hlist : x.workList = (s.queues wq).workList) (hworks : s'.works = s.works)
    (hway : ∀ q, q ≠ wq → onTheWayTo s' q = onTheWayTo s q)
    (hsem : x.semCount + onTheWayTo s' wq ≤ (s.queues wq).semCount + onTheWayTo s wq)
    (htokens : WorksFit s →
      (s.queues wq).semCount + onTheWayTo s wq ≤ x.semCount + onTheWayTo s' wq)
    (hblocked : x.worker = .blocked → x.semCount = 0)
    (horder : ∀ q, insertedIn q s'.log = insertedIn q s.log)
    (hinvoked : ∀ q, q ≠ wq → invokedIn q s'.log = invokedIn q s.log)
    (hcalled : invokedIn wq s'.log ++ aboutToRun x.worker =
      invokedIn wq s.log ++ aboutToRun (s.queues wq).worker) : WorkLists s' := by
  have hself : s'.queues wq = x := by
    rw [hqueues, Function.update_self]
  have hother : ∀ q, q ≠ wq → s'.queues q = s.queues q := by
    intro q hq
    rw [hqueues, Function.update_of_ne hq]
  have hlists : ∀ q, (s'.queues q).workList = (s.queues q).workList := by
    intro q
    by_cases hq : q = wq
    · rw [hq, hself, hlist]
    · rw [hother q hq]
  have hfit : WorksFit s' → WorksFit s := WorksFit.back fun w hw => hworks ▸ hw
  refine h.touched ?_ ?_ ?_ hfit ⟨?_, ?_, ?_, fun hfit' => ?_, ?_⟩ hother hway (fun q _ => horder q) hinvoked
  · simp only [hlists, hworks]
    exact h.member
  · simp only [hlists]
    exact h.unique
  · rw [hworks]
    exact h.fresh
  · rw [hlists]
    exact h.nodup wq
  · rw [hlists, hself]
    exact hsem.trans (h.sem wq)
  · rw [hlists, horder, hself, hcalled]
    exact h.order wq
  · rw [hlists, hself]
    exact (h.tokens (hfit hfit') wq).trans (htokens (hfit hfit'))
  · rw [hself]
    exact hblocked

/-- A work that is not listed is put at the end of a list, and one more giver is on the
way. -/
theorem WorkLists.insert (h : WorkLists s) (hexit : (s.works work).workExit = false)
    (hinited : (s.works work).inited = true)
    (hqueues : s'.queues = Function.update s.queues wq
      { s.queues wq with workList := (s.queues wq).workList ++ [work] })
    (hworks : s'.works = Function.update s.works work
      { s.works work with wq := some wq, workExit := true })
    (hway : ∀ q, q ≠ wq → onTheWayTo s' q = onTheWayTo s q)
    (hwayto : onTheWayTo s' wq = onTheWayTo s wq + 1)
    (horder : insertedIn wq s'.log = insertedIn wq s.log ++ [work])
    (horder' : ∀ q, q ≠ wq → insertedIn q s'.log = insertedIn q s.log)
    (hinvoked : ∀ q, invokedIn q s'.log = invokedIn q s.log) : WorkLists s' := by
  have hno := h.not_listed hexit
  have hself : s'.queues wq = { s.queues wq with workList := (s.queues wq).workList ++ [work] } := by
    rw [hqueues, Function.update_self]
  have hother : ∀ q, q ≠ wq → s'.queues q = s.queues q := by
    intro q hq
    rw [hqueues, Function.update_of_ne hq]
  have hmem : ∀ w q, w ∈ (s'.queues q).workList ↔
      w ∈ (s.queues q).workList ∨ (w = work ∧ q = wq) := by
    intro w q
    by_cases hq : q = wq
    · subst hq
      rw [hself]
      simp
    · rw [hother q hq]
      simp [hq]
  have hsame : ∀ w, w ≠ work → s'.works w = s.works w := by
    intro w hw
    rw [hworks, Function.update_of_ne hw]
  have hfit : WorksFit s' → WorksFit s := by
    apply WorksFit.back
    intro w hw
    by_cases heq : w = work
    · rw [heq, hworks, Function.update_self]
      exact hinited
    · rwa [hsame w heq]
  refine h.touched ?_ ?_ ?_ hfit ⟨?_, ?_, ?_, fun hfit' => ?_, ?_⟩ hother hway horder' fun q _ => hinvoked q
  · intro w
    simp only [hmem]
    by_cases hw : w = work
    · subst hw
      simp [hworks]
    · rw [hsame w hw, ← h.member w]
      simp [hw]
  · intro w p q hp hq
    rw [hmem] at hp hq
    rcases hp with hp | ⟨rfl, rfl⟩ <;> rcases hq with hq | ⟨hw, rfl⟩
    · exact h.unique w p q hp hq
    · exact absurd hp (hw ▸ hno p)
    · exact absurd hq (hno q)
    · rfl
  · intro w hw
    by_cases heq : w = work
    · subst heq
      rw [hworks, Function.update_self] at hw
      rw [hw] at hinited
      cases hinited
    · rw [hsame w heq] at hw ⊢
      exact h.fresh w hw
  · rw [hself, List.nodup_append_comm]
    exact List.nodup_cons.2 ⟨hno wq, h.nodup wq⟩
  · have hsem := h.sem wq
    rw [hself, hwayto, List.length_append, List.length_singleton]
    dsimp only
    omega
  · rw [hinvoked, horder, h.order wq, hself]
    simp
  · have htokens := h.tokens (hfit hfit') wq
    rw [hself, hwayto, List.length_append, List.length_singleton]
    dsimp only
    omega
  · rw [hself]
    exact h.blocked wq

/-- A giver gives the semaphore. -/
theorem WorkLists.give (h : WorkLists s) (hqueues : s'.queues = (workSemGive s wq).2.queues)
    (hworks : s'.works = s.works) (hgivers : ∀ q, givers s' q + oneIf (q = wq) = givers s q)
    (hinserted : ∀ q, insertedIn q s'.log = insertedIn q s.log)
    (hinvoked : ∀ q, invokedIn q s'.log = invokedIn q s.log) : WorkLists s' := by
  have hself : givers s' wq + 1 = givers s wq := by
    simpa [oneIf] using hgivers wq
  have hother : ∀ q, q ≠ wq → givers s' q = givers s q := by
    intro q hq
    simpa [oneIf, hq] using hgivers q
  -- the queue after the call, with the token in the count or at the worker
  obtain ⟨x, hx, hlist, hsem, htokens, hblocked, hcalled⟩ : ∃ x,
      s'.queues = Function.update s.queues wq x ∧ x.workList = (s.queues wq).workList ∧
      x.semCount + oneIf (x.worker = .pop) ≤
        (s.queues wq).semCount + oneIf ((s.queues wq).worker = .pop) + 1 ∧
      (WorksFit s → (s.queues wq).semCount + oneIf ((s.queues wq).worker = .pop) + 1 ≤
        x.semCount + oneIf (x.worker = .pop)) ∧
      (x.worker = .blocked → x.semCount = 0) ∧
      aboutToRun x.worker = aboutToRun (s.queues wq).worker := by
    unfold workSemGive at hqueues
    dsimp only at hqueues
    split at hqueues
    case isTrue hwaits =>
      refine ⟨_, hqueues, rfl, ?_, fun _ => ?_, by simp, ?_⟩
      · simp [oneIf, hwaits]
      · simp [oneIf, hwaits]
      · simp [aboutToRun, hwaits]
    case isFalse hno =>
      split at hqueues
      case isTrue hfull =>
        refine ⟨s.queues wq, ?_, rfl, by omega, fun hfit => ?_, h.blocked wq, rfl⟩
        · rw [hqueues, Function.update_eq_self]
        · -- there is a listed work for each token, and one for the giver
          have hle := h.length_le hfit wq
          have hall := h.sem wq
          unfold onTheWayTo at hall
          omega
      case isFalse =>
        exact ⟨_, hqueues, rfl, by dsimp only; omega, fun _ => by dsimp only; omega,
          fun hw => absurd hw hno, rfl⟩
  have hworker : ∀ q, q ≠ wq → s'.queues q = s.queues q := by
    intro q hq
    rw [hx, Function.update_of_ne hq]
  refine h.atQueue x hx hlist hworks ?_ ?_ (fun hfit => ?_) hblocked hinserted
    (fun q _ => hinvoked q) ?_
  · intro q hq
    unfold onTheWayTo
    rw [hother q hq, hworker q hq]
  · unfold onTheWayTo
    rw [hx, Function.update_self]
    omega
  · have := htokens hfit
    unfold onTheWayTo
    rw [hx, Function.update_self]
    omega
  · rw [hinvoked, hcalled]

/-- An insertion, with the giver that goes with it. -/
theorem WorkLists.workInsert {src : Option ℕ} (h : WorkLists s)
    (hexit : (s.works work).workExit = false) (hinited : (s.works work).inited = true)
    (hqueues : s'.queues = (workInsert s src wq work).queues)
    (hworks : s'.works = (workInsert s src wq work).works)
    (hlog : s'.log = (workInsert s src wq work).log)
    (hgivers : ∀ q, givers s' q = givers s q + oneIf (q = wq)) : WorkLists s' := by
  unfold Model.workInsert at hqueues hworks hlog
  rw [rmNode_eq (h.not_listed hexit)] at hqueues hworks hlog
  have hq : s'.queues = Function.update s.queues wq
      { s.queues wq with workList := (s.queues wq).workList ++ [work] } := hqueues
  have hl : s'.log = s.log ++ [.inserted src wq work] := hlog
  have hworker : ∀ q, (s'.queues q).worker = (s.queues q).worker := by
    intro q
    rw [hq]
    by_cases heq : q = wq
    · rw [heq, Function.update_self]
    · rw [Function.update_of_ne heq]
  refine h.insert hexit hinited hq hworks ?_ ?_ ?_ ?_ ?_
  · intro q hne
    unfold onTheWayTo
    rw [hgivers, hworker]
    simp [oneIf, hne]
  · unfold onTheWayTo
    rw [hgivers, hworker]
    simp [oneIf]
    omega
  · rw [hl]
    simp [insertedIn]
  · intro q hne
    rw [hl, insertedIn_append]
    simp [insertedIn, Ne.symm hne]
  · intro q
    rw [hl, invokedIn_append]
    simp [invokedIn]

/-- A worker pops the first work of its list. -/
theorem WorkLists.pop {rest : List ℕ} (h : WorkLists s) (hpc : (s.queues wq).worker = .pop)
    (hlist : (s.queues wq).workList = work :: rest)
    (hqueues : s'.queues = Function.update s.queues wq { s.queues wq with
      workList := rest, workCurrent := some work, worker := .call work })
    (hworks : s'.works = Function.update s.works work { s.works work with workExit := false })
    (hgivers : ∀ q, givers s' q = givers s q) (hlog : s'.log = s.log) : WorkLists s' := by
  have hself : s'.queues wq = { s.queues wq with
      workList := rest, workCurrent := some work, worker := .call work } := by
    rw [hqueues, Function.update_self]
  have hother : ∀ q, q ≠ wq → s'.queues q = s.queues q := by
    intro q hq
    rw [hqueues, Function.update_of_ne hq]
  have hnodup := h.nodup wq
  rw [hlist, List.nodup_cons] at hnodup
  have hmem : ∀ w q, w ∈ (s'.queues q).workList ↔ w ∈ (s.queues q).workList ∧ w ≠ work := by
    intro w q
    by_cases hq : q = wq
    · subst hq
      rw [hself, hlist, List.mem_cons]
      constructor
      · intro hw
        exact ⟨.inr hw, fun heq => hnodup.1 (heq ▸ hw)⟩
      · rintro ⟨hw | hw, hne⟩
        · exact absurd hw hne
        · exact hw
    · rw [hother q hq]
      refine ⟨fun hw => ⟨hw, ?_⟩, And.left⟩
      rintro rfl
      exact hq (h.unique w q wq hw (by simp [hlist]))
  have hsame : ∀ w, w ≠ work → s'.works w = s.works w := by
    intro w hw
    rw [hworks, Function.update_of_ne hw]
  have hway : ∀ q, q ≠ wq → onTheWayTo s' q = onTheWayTo s q := by
    intro q hq
    unfold onTheWayTo
    rw [hgivers, hother q hq]
  -- the token that the worker took is gone with the work
  have hwayto : onTheWayTo s' wq + 1 = onTheWayTo s wq := by
    unfold onTheWayTo
    rw [hgivers, hself, hpc]
    simp [oneIf]
  have hfit : WorksFit s' → WorksFit s := by
    apply WorksFit.back
    intro w hw
    by_cases heq : w = work
    · rw [heq, hworks, Function.update_self]
      exact heq ▸ hw
    · rwa [hsame w heq]
  refine h.touched ?_ ?_ ?_ hfit ⟨?_, ?_, ?_, fun hfit' => ?_, ?_⟩ hother hway (fun q _ => by rw [hlog])
    fun q _ => by rw [hlog]
  · intro w
    simp only [hmem]
    by_cases hw : w = work
    · subst hw
      simp [hworks]
    · rw [hsame w hw, ← h.member w]
      simp [hw]
  · intro w p q hp hq
    exact h.unique w p q ((hmem w p).1 hp).1 ((hmem w q).1 hq).1
  · intro w hw
    by_cases heq : w = work
    · rw [heq, hworks, Function.update_self]
    · rw [hsame w heq] at hw ⊢
      exact h.fresh w hw
  · rw [hself]
    exact hnodup.2
  · have hsem := h.sem wq
    rw [hlist, List.length_cons] at hsem
    rw [hself]
    dsimp only
    omega
  · rw [hlog, h.order wq, hself, hpc, hlist]
    simp [aboutToRun]
  · have htokens := h.tokens (hfit hfit') wq
    rw [hlist, List.length_cons] at htokens
    rw [hself]
    dsimp only
    omega
  · rw [hself]
    simp

/-- What the pop of `worker_task` does. -/
theorem workerTask_pop {rest : List ℕ} (h : WorkLists s) (hpc : (s.queues wq).worker = .pop)
    (hlist : (s.queues wq).workList = work :: rest) : workerTask s wq =
      some ((s.setQueue wq { s.queues wq with
        workList := rest, workCurrent := some work, worker := .call work }).setWork work
          { s.works work with workExit := false }) := by
  have hq : Function.update (s.rmNode work).queues wq { (s.rmNode work).queues wq with
        workCurrent := some work, worker := .call work } =
      Function.update s.queues wq { s.queues wq with
        workList := rest, workCurrent := some work, worker := .call work } := by
    funext q
    by_cases heq : q = wq
    · subst heq
      simp [WorkSys.rmNode, hlist]
    · rw [Function.update_of_ne heq, Function.update_of_ne heq]
      have hno : work ∉ (s.queues q).workList := fun hw =>
        heq (h.unique work q wq hw (by simp [hlist]))
      simp [WorkSys.rmNode, List.erase_of_not_mem hno]
  unfold workerTask
  simp only [hpc, hlist, WorkSys.setQueue, WorkSys.setWork]
  rw [hq]
  rfl

end Lists

/-! ## The calls -/

/-- A submission of an immediate work that returned `RHINO_SUCCESS` has inserted it: that was the
last thing its task did before. -/
def SuccessInserted (s : WorkSys) : Prop :=
  ∀ pre task wq work post, s.log = pre ++ .ran task wq work .success :: post →
    (s.works work).inited = true ∧
      ((s.works work).dly = 0 → lastBy task pre = some (.inserted (some task) wq work))

/-- **What the calls in progress have done.** -/
structure WorkCalls (s : WorkSys) : Prop where
  giving : ∀ task wq work : ℕ, s.tasks[task]? = some (.semGive wq work) →
    (s.works work).inited = true ∧ lastBy task s.log = some (.inserted (some task) wq work)
  starting : ∀ task wq work : ℕ, s.tasks[task]? = some (.timerArg wq work) →
    (s.works work).inited = true ∧ 0 < (s.works work).dly ∧ s.priv work = some work
  cancelling : ∀ (task work : ℕ) (wq : Option ℕ), s.tasks[task]? = some (.cancel work wq) →
    (s.works work).inited = true
  priv : ∀ timer work, s.priv timer = some work →
    work = timer ∧ (s.works work).inited = true ∧ 0 < (s.works work).dly
  success : SuccessInserted s

section Calls

variable {s s' : WorkSys} {task work wq : ℕ} {pc : WorkTaskPc} {e : WorkEvent}

/-- Nothing of the calls changes; works may be initialised. -/
theorem WorkCalls.congr (h : WorkCalls s) (htasks : s'.tasks = s.tasks) (hlog : s'.log = s.log)
    (hpriv : s'.priv = s.priv) (hworks : ∀ w, (s.works w).inited = true →
      (s'.works w).inited = true ∧ (s'.works w).dly = (s.works w).dly) : WorkCalls s' where
  giving := by
    intro t q w ht
    rw [htasks] at ht
    rw [hlog]
    obtain ⟨hinit, hlast⟩ := h.giving t q w ht
    exact ⟨(hworks w hinit).1, hlast⟩
  starting := by
    intro t q w ht
    rw [htasks] at ht
    obtain ⟨hinit, hdly, hp⟩ := h.starting t q w ht
    rw [(hworks w hinit).2, hpriv]
    exact ⟨(hworks w hinit).1, hdly, hp⟩
  cancelling := by
    intro t w q ht
    rw [htasks] at ht
    exact (hworks w (h.cancelling t w q ht)).1
  priv := by
    intro t w ht
    rw [hpriv] at ht
    obtain ⟨heq, hinit, hdly⟩ := h.priv t w ht
    rw [(hworks w hinit).2]
    exact ⟨heq, (hworks w hinit).1, hdly⟩
  success := by
    intro pre t q w post heq
    rw [hlog] at heq
    obtain ⟨hinit, hlast⟩ := h.success pre t q w post heq
    rw [(hworks w hinit).2]
    exact ⟨(hworks w hinit).1, hlast⟩

/-- A task moves. -/
theorem WorkCalls.setTask (h : WorkCalls s)
    (hgiving : ∀ q w, pc = .semGive q w → (s.works w).inited = true ∧
      lastBy task s.log = some (.inserted (some task) q w))
    (hstarting : ∀ q w, pc = .timerArg q w → (s.works w).inited = true ∧ 0 < (s.works w).dly ∧
      s.priv w = some w)
    (hcancelling : ∀ w q, pc = .cancel w q → (s.works w).inited = true) :
    WorkCalls (s.setTask task pc) := by
  have hget : ∀ t x, (s.tasks.set task pc)[t]? = some x → (t = task ∧ pc = x) ∨
      s.tasks[t]? = some x := by
    intro t x ht
    by_cases heq : task = t
    · subst heq
      rw [List.getElem?_set_self'] at ht
      cases hs : s.tasks[task]? with
      | none => simp [hs] at ht
      | some y =>
        rw [hs] at ht
        exact .inl ⟨rfl, Option.some.inj ht⟩
    · rw [List.getElem?_set_ne heq] at ht
      exact .inr ht
  refine ⟨?_, ?_, ?_, h.priv, h.success⟩
  · intro t q w ht
    rcases hget t _ ht with ⟨rfl, hpc⟩ | ht
    · exact hgiving q w hpc
    · exact h.giving t q w ht
  · intro t q w ht
    rcases hget t _ ht with ⟨rfl, hpc⟩ | ht
    · exact hstarting q w hpc
    · exact h.starting t q w ht
  · intro t w q ht
    rcases hget t _ ht with ⟨rfl, hpc⟩ | ht
    · exact hcancelling w q hpc
    · exact h.cancelling t w q ht

/-- An event of a task that is not about to give a semaphore. -/
theorem WorkCalls.record (h : WorkCalls s)
    (hidle : ∀ t, eventTask e = some t → ∀ q w, s.tasks[t]? ≠ some (.semGive q w))
    (hran : ∀ t q w, e = .ran t q w .success → (s.works w).inited = true ∧
      ((s.works w).dly = 0 → lastBy t s.log = some (.inserted (some t) q w))) :
    WorkCalls (s.record e) := by
  refine ⟨?_, h.starting, h.cancelling, h.priv, ?_⟩
  · intro t q w ht
    obtain ⟨hinit, hlast⟩ := h.giving t q w ht
    refine ⟨hinit, ?_⟩
    change lastBy t (s.log ++ [e]) = _
    rw [lastBy_append, if_neg]
    · exact hlast
    · intro htask
      exact hidle t htask q w ht
  · intro pre t q w post heq
    change s.log ++ [e] = _ at heq
    rcases List.eq_nil_or_concat post with rfl | ⟨post', last, rfl⟩
    · obtain ⟨hlog, hlast⟩ := List.append_inj' heq rfl
      rw [← hlog]
      exact hran t q w (List.cons.inj hlast).1
    · rw [List.concat_eq_append, ← List.cons_append, ← List.append_assoc] at heq
      exact h.success pre t q w post' (List.append_inj' heq rfl).1

/-- A call of `krhino_work_run` returns. -/
theorem WorkCalls.workRunRet {stat : KStat} (h : WorkCalls s)
    (hran : stat = .success → (s.works work).inited = true ∧
      ((s.works work).dly = 0 → lastBy task s.log = some (.inserted (some task) wq work))) :
    WorkCalls (workRunRet s task wq work stat) := by
  have hidle : WorkCalls (s.setTask task .idle) :=
    h.setTask (fun _ _ hpc => by cases hpc) (fun _ _ hpc => by cases hpc)
      (fun _ _ hpc => by cases hpc)
  apply hidle.record
  · intro t ht q w hpc
    cases ht
    change (s.tasks.set task .idle)[task]? = _ at hpc
    rw [List.getElem?_set_self'] at hpc
    cases hs : s.tasks[task]? with
    | none => simp [hs] at hpc
    | some y => simp [hs] at hpc
  · intro t q w heq
    cases heq
    exact hran rfl

end Calls

/-! ## The steps -/

/-- **What holds in every run.** -/
structure WorkInv (s : WorkSys) : Prop where
  lists : WorkLists s
  calls : WorkCalls s

section Steps

variable {s s' : WorkSys} {task work wq dly timer : ℕ} {pc pc' : WorkTaskPc}

/-- The invariant holds at the start. -/
theorem workqueueInit_inv (taskNum : ℕ) : WorkInv (workqueueInit taskNum) := by
  have hidle : ∀ (t : ℕ) (pc : WorkTaskPc), pc ≠ .idle →
      (List.replicate taskNum WorkTaskPc.idle)[t]? ≠ some pc := by
    intro t pc hne ht
    rw [List.getElem?_replicate] at ht
    split at ht
    · exact hne (Option.some.inj ht).symm
    · cases ht
  refine ⟨⟨?_, ?_, ?_, ?_, ?_, ?_, ?_, ?_⟩, ⟨?_, ?_, ?_, ?_, ?_⟩⟩
  · intro w
    simp [workqueueInit]
  · intro w p q hp
    simp [workqueueInit] at hp
  · intro q
    simp [workqueueInit]
  · intro q
    have hgiving : isGiving q .idle = false := rfl
    simp [onTheWayTo, givers, workqueueInit, oneIf, List.countP_replicate, hgiving]
  · intro q
    simp [workqueueInit, insertedIn, invokedIn, aboutToRun]
  · intro w _
    rfl
  · intro _ q
    simp [workqueueInit]
  · intro q hq
    cases hq
  · intro t q w ht
    exact absurd ht (hidle t _ (by simp))
  · intro t q w ht
    exact absurd ht (hidle t _ (by simp))
  · intro t w q ht
    exact absurd ht (hidle t _ (by simp))
  · intro t w ht
    cases ht
  · intro pre t q w post heq
    simp [workqueueInit] at heq

/-- A task that gives the semaphore of a queue counts for that queue. -/
theorem oneIf_isGiving (q wq work : ℕ) :
    oneIf (isGiving q (.semGive wq work) = true) = oneIf (q = wq) := by
  unfold oneIf isGiving
  by_cases hq : q = wq
  · simp [hq]
  · simp [hq, Ne.symm hq]

/-- One task moves. -/
theorem givers_setTask (hpc : s.tasks[task]? = some pc) (pc' : WorkTaskPc) (q : ℕ) :
    givers (s.setTask task pc') q + oneIf (isGiving q pc = true) =
      givers s q + oneIf (isGiving q pc' = true) := by
  have h := countP_set_add pc' (isGiving q) hpc
  have hcb : (s.setTask task pc').timerCb = s.timerCb := rfl
  unfold givers oneIf
  rw [hcb]
  change (s.tasks.set task pc').countP (isGiving q) + _ + _ = _
  omega

/-- A task that gives before and after no semaphore changes no count. -/
theorem givers_setTask_same (hpc : s.tasks[task]? = some pc) (hno : ∀ q, isGiving q pc = false)
    (hno' : ∀ q, isGiving q pc' = false) (q : ℕ) : givers (s.setTask task pc') q = givers s q := by
  have h := givers_setTask hpc pc' q
  simpa [oneIf, hno, hno'] using h

/-- A work after its initialisation. -/
def freshWork (dly : ℕ) : KWork := { inited := true, dly := dly, wq := none, workExit := false }

/-- What the initialisation of a work can do. -/
inductive InitEffect (s : WorkSys) (work dly : ℕ) : WorkSys → Prop
  | immediate (hdly : dly = 0) : InitEffect s work dly (s.setWork work (freshWork dly))
  | delayed (timers : TimerSys) (hdly : 0 < dly)
      (htimers : krhinoTimerDynCreate s.timers work dly 0 work false = (.success, timers)) :
      InitEffect s work dly ({ s with timers := timers }.setWork work (freshWork dly))
  | failed : InitEffect s work dly s

/-- `krhino_work_init` sets up one work. -/
theorem krhinoWorkInit_effect (s : WorkSys) (work dly : ℕ) :
    InitEffect s work dly (krhinoWorkInit s work dly).2 := by
  unfold krhinoWorkInit
  dsimp only
  split
  case isFalse hdly => exact .immediate (by omega)
  case isTrue hdly =>
    split
    case h_1 timers htimers => exact .delayed timers hdly htimers
    case h_2 stat timers hne htimers =>
      -- a creation that fails leaves the timers as they are
      have hsame : timers = s.timers := by
        unfold krhinoTimerDynCreate at htimers
        dsimp only at htimers
        split at htimers
        case isTrue hok =>
          rw [htimers] at hok
          exact (hne hok).elim
        case isFalse => exact (Prod.mk.inj htimers).2.symm
      rw [hsame]
      exact .failed

/-- The invariant holds on when a work is set up. -/
theorem WorkInv.init (h : WorkInv s) (hnew : (s.works work).inited = false) :
    WorkInv (krhinoWorkInit s work dly).2 := by
  have hset : ∀ timers : TimerSys,
      WorkInv ({ s with timers := timers }.setWork work (freshWork dly)) := by
    intro timers
    constructor
    · refine h.lists.quiet rfl ?_ ?_ (fun _ => rfl) (fun _ => rfl) (fun _ => rfl)
      · intro w
        by_cases hw : w = work
        · subst hw
          simp [WorkSys.setWork, freshWork, h.lists.fresh w hnew]
        · simp [WorkSys.setWork, Function.update_of_ne hw]
      · intro w hw
        by_cases heq : w = work
        · rw [heq]
          exact hnew
        · simpa [WorkSys.setWork, Function.update_of_ne heq] using hw
    · refine h.calls.congr rfl rfl rfl ?_
      intro w hw
      have hother : w ≠ work := by
        rintro rfl
        rw [hnew] at hw
        cases hw
      simp [WorkSys.setWork, Function.update_of_ne hother, hw]
  have heff := krhinoWorkInit_effect s work dly
  generalize (krhinoWorkInit s work dly).2 = s' at heff ⊢
  cases heff with
  | immediate hdly => exact hset s.timers
  | delayed timers hdly htimers => exact hset timers
  | failed => exact h

/-- An event that is neither an insertion nor an invocation. -/
theorem WorkLists.returns {e : WorkEvent} (h : WorkLists s) (hpc : s.tasks[task]? = some pc)
    (hno : ∀ q, isGiving q pc = false) (he : ∀ q, insertedIn q [e] = [])
    (he' : ∀ q, invokedIn q [e] = []) : WorkLists ((s.setTask task .idle).record e) := by
  refine h.quiet rfl (fun _ => rfl) (fun _ hw => hw) ?_ ?_ ?_
  · exact givers_setTask_same hpc hno (fun _ => rfl)
  · intro q
    change insertedIn q (s.log ++ [e]) = _
    rw [insertedIn_append, he, List.append_nil]
  · intro q
    change invokedIn q (s.log ++ [e]) = _
    rw [invokedIn_append, he', List.append_nil]

/-- The invariant holds on when `krhino_work_run` begins. -/
theorem WorkInv.run (h : WorkInv s) (hpc : s.tasks[task]? = some .idle)
    (hinit : (s.works work).inited = true) : WorkInv (krhinoWorkRun s task wq work) := by
  -- the call itself
  have hcall : WorkInv (s.record (.run task wq work)) := by
    constructor
    · refine h.lists.quiet rfl (fun _ => rfl) (fun _ hw => hw) (fun _ => rfl) ?_ ?_
      · intro q
        change insertedIn q (s.log ++ [_]) = _
        simp [insertedIn]
      · intro q
        change invokedIn q (s.log ++ [_]) = _
        simp [invokedIn]
    · apply h.calls.record
      · intro t ht q w hg
        cases ht
        rw [hpc] at hg
        cases hg
      · intro t q w heq
        cases heq
  generalize ht : s.record (.run task wq work) = t at hcall
  have hpc' : t.tasks[task]? = some .idle := by
    rw [← ht]
    exact hpc
  have hinit' : (t.works work).inited = true := by
    rw [← ht]
    exact hinit
  unfold krhinoWorkRun
  rw [ht]
  dsimp only
  have hret : ∀ stat, stat ≠ .success → WorkInv (workRunRet t task wq work stat) := fun stat hne =>
    ⟨hcall.lists.returns hpc' (fun _ => rfl) (fun _ => rfl) (fun _ => rfl),
      hcall.calls.workRunRet fun heq => absurd heq hne⟩
  split
  case isTrue =>
    split
    case isTrue => exact hret _ (by decide)
    case isFalse =>
      split
      case isTrue => exact hret _ (by decide)
      case isFalse hexit =>
        constructor
        · refine hcall.lists.workInsert (by simpa using hexit) hinit' rfl rfl rfl ?_
          intro q
          have hg := givers_setTask (s := workInsert t (some task) wq work) hpc'
            (.semGive wq work) q
          have hsame : givers (workInsert t (some task) wq work) q = givers t q := rfl
          rw [hsame, oneIf_isGiving] at hg
          exact hg
        · have hrec : WorkCalls ((t.setWork work { t.works work with
              wq := some wq, workExit := true }).record (.inserted (some task) wq work)) := by
            apply WorkCalls.record
            · refine hcall.calls.congr rfl rfl rfl ?_
              intro w hw
              by_cases heq : w = work
              · subst heq
                simp [WorkSys.setWork, hw]
              · simp [WorkSys.setWork, Function.update_of_ne heq, hw]
            · intro t' ht' q w hg
              cases ht'
              change t.tasks[task]? = _ at hg
              rw [hpc'] at hg
              cases hg
            · intro t' q w heq
              cases heq
          have hset : WorkCalls (WorkSys.setTask _ task (.semGive wq work)) := hrec.setTask ?_
            (fun _ _ heq => by cases heq) (fun _ _ heq => by cases heq)
          · exact ⟨hset.giving, hset.starting, hset.cancelling, hset.priv, hset.success⟩
          · intro q w heq
            cases heq
            refine ⟨by simp [WorkSys.record, WorkSys.setWork, hinit'], ?_⟩
            change lastBy task (t.log ++ [_]) = _
            rw [lastBy_append]
            exact if_pos rfl
  case isFalse hdly =>
    constructor
    · exact hcall.lists.quiet rfl (fun _ => rfl) (fun _ hw => hw)
        (givers_setTask_same hpc' (fun _ => rfl) (fun _ => rfl)) (fun _ => rfl) (fun _ => rfl)
    · have hp : WorkCalls { t with priv := Function.update t.priv work (some work) } := by
        refine ⟨hcall.calls.giving, ?_, hcall.calls.cancelling, ?_, hcall.calls.success⟩
        · intro t' q w ht'
          obtain ⟨h₁, h₂, h₃⟩ := hcall.calls.starting t' q w ht'
          refine ⟨h₁, h₂, ?_⟩
          by_cases heq : w = work
          · rw [heq]
            exact Function.update_self _ _ _
          · exact (Function.update_of_ne heq _ _).trans h₃
        · intro timer w hw
          by_cases heq : timer = work
          · subst heq
            have hw' : Function.update t.priv timer (some timer) timer = some w := hw
            rw [Function.update_self] at hw'
            cases hw'
            exact ⟨rfl, hinit', Nat.pos_of_ne_zero hdly⟩
          · exact hcall.calls.priv timer w ((Function.update_of_ne heq _ _).symm.trans hw)
      refine hp.setTask (fun _ _ heq => by cases heq) ?_ (fun _ _ heq => by cases heq)
      intro q w heq
      cases heq
      exact ⟨hinit', Nat.pos_of_ne_zero hdly, Function.update_self _ _ _⟩

/-- What giving the semaphore leaves alone. -/
theorem workSemGive_frame (s : WorkSys) (wq : ℕ) : (workSemGive s wq).2.works = s.works ∧
    (workSemGive s wq).2.tasks = s.tasks ∧ (workSemGive s wq).2.timerCb = s.timerCb ∧
    (workSemGive s wq).2.log = s.log ∧ (workSemGive s wq).2.priv = s.priv ∧
    (workSemGive s wq).2.timers = s.timers := by
  unfold workSemGive
  dsimp only
  split
  · exact ⟨rfl, rfl, rfl, rfl, rfl, rfl⟩
  · split <;> exact ⟨rfl, rfl, rfl, rfl, rfl, rfl⟩

/-- The invariant holds on when a task gives the semaphore of the queue. -/
theorem WorkInv.semGive (h : WorkInv s) (hpc : s.tasks[task]? = some (.semGive wq work)) :
    WorkInv (workRunRet (workSemGive s wq).2 task wq work (workSemGive s wq).1) := by
  obtain ⟨hworks, htasks, hcb, hlog, hpriv, -⟩ := workSemGive_frame s wq
  obtain ⟨hinit, hlast⟩ := h.calls.giving task wq work hpc
  have hlog' : ∀ stat, (workRunRet (workSemGive s wq).2 task wq work stat).log =
      s.log ++ [.ran task wq work stat] := by
    intro stat
    rw [← hlog]
    rfl
  constructor
  · refine h.lists.give rfl hworks ?_ ?_ ?_
    · intro q
      have hg := givers_setTask (s := (workSemGive s wq).2) (htasks ▸ hpc) .idle q
      have hsame : givers (workSemGive s wq).2 q = givers s q := by
        unfold givers
        rw [htasks, hcb]
      rw [oneIf_isGiving, hsame] at hg
      exact hg
    · intro q
      rw [hlog', insertedIn_append]
      simp [insertedIn]
    · intro q
      rw [hlog', invokedIn_append]
      simp [invokedIn]
  · have hcalls : WorkCalls (workSemGive s wq).2 :=
      h.calls.congr htasks hlog hpriv fun w hw => ⟨by rw [hworks]; exact hw, by rw [hworks]⟩
    apply hcalls.workRunRet
    intro _
    rw [hworks, hlog]
    exact ⟨hinit, fun _ => hlast⟩

/-- The invariant does not depend on the timers. -/
theorem WorkInv.setTimers (h : WorkInv s) (timers : TimerSys) :
    WorkInv { s with timers := timers } :=
  ⟨h.lists.quiet rfl (fun _ => rfl) (fun _ hw => hw) (fun _ => rfl) (fun _ => rfl) (fun _ => rfl),
    h.calls.congr rfl rfl rfl fun _ hw => ⟨hw, rfl⟩⟩

/-- The invariant holds on when the argument of a timer is changed. -/
theorem WorkInv.timerArg (h : WorkInv s) (hpc : s.tasks[task]? = some (.timerArg wq work))
    (timers : TimerSys) (stat : KStat) :
    WorkInv (workRunRet { s with timers := timers } task wq work stat) := by
  obtain ⟨hinit, hdly, -⟩ := h.calls.starting task wq work hpc
  have ht := h.setTimers timers
  exact ⟨ht.lists.returns hpc (fun _ => rfl) (fun _ => rfl) (fun _ => rfl),
    ht.calls.workRunRet fun _ => ⟨hinit, fun h0 => absurd h0 (Nat.pos_iff_ne_zero.1 hdly)⟩⟩

/-- A cancellation returns. -/
theorem WorkInv.cancelRet (h : WorkInv s) (hpc : s.tasks[task]? = some pc)
    (hno : ∀ q, isGiving q pc = false) (stat : KStat) :
    WorkInv (workCancelRet s task work stat) := by
  refine ⟨h.lists.returns hpc hno (fun _ => rfl) (fun _ => rfl), ?_⟩
  have hidle : WorkCalls (s.setTask task .idle) :=
    h.calls.setTask (fun _ _ hpc => by cases hpc) (fun _ _ hpc => by cases hpc)
      (fun _ _ hpc => by cases hpc)
  apply hidle.record
  · intro t ht q w hg
    cases ht
    change (s.tasks.set task .idle)[task]? = _ at hg
    rw [List.getElem?_set_self', hpc] at hg
    cases hg
  · intro t q w heq
    cases heq

/-- The invariant holds on when a work is cancelled. -/
theorem WorkInv.cancel (h : WorkInv s) {seen : Option ℕ}
    (hpc : s.tasks[task]? = some (.cancel work seen)) :
    WorkInv (krhinoWorkCancel s task work seen) := by
  cases seen with
  | none =>
    unfold krhinoWorkCancel
    dsimp only
    split
    case isTrue =>
      exact (h.setTimers (krhinoTimerStop s.timers work).2).cancelRet hpc (fun _ => rfl) _
    case isFalse => exact h.cancelRet hpc (fun _ => rfl) _
  | some q =>
    unfold krhinoWorkCancel
    dsimp only
    split
    case isTrue => exact h.cancelRet hpc (fun _ => rfl) _
    case isFalse =>
      split
      case isTrue => exact h.cancelRet hpc (fun _ => rfl) _
      case isFalse hexit =>
        -- a work that is not listed has nothing to be unlinked from
        rw [rmNode_eq (h.lists.not_listed (by simpa using hexit))]
        have ht : WorkInv (s.setWork work { s.works work with wq := none }) := by
          constructor
          · refine h.lists.quiet rfl ?_ ?_ (fun _ => rfl) (fun _ => rfl) (fun _ => rfl)
            · intro w
              by_cases heq : w = work
              · subst heq
                simp [WorkSys.setWork]
              · simp [WorkSys.setWork, Function.update_of_ne heq]
            · intro w hw
              by_cases heq : w = work
              · subst heq
                simpa [WorkSys.setWork] using hw
              · simpa [WorkSys.setWork, Function.update_of_ne heq] using hw
          · refine h.calls.congr rfl rfl rfl ?_
            intro w hw
            by_cases heq : w = work
            · subst heq
              simp [WorkSys.setWork, hw]
            · simp [WorkSys.setWork, Function.update_of_ne heq, hw]
        exact ht.cancelRet hpc (fun _ => rfl) _

/-- Every step of a task keeps the invariant. -/
theorem WorkInv.goOn (h : WorkInv s) (hpc : s.tasks[task]? = some pc)
    (hstep : workTask s task pc = some s') : WorkInv s' := by
  cases pc with
  | idle => cases hstep
  | semGive wq work =>
    cases hstep
    exact h.semGive hpc
  | timerArg wq work =>
    cases hstep
    exact h.timerArg hpc _ _
  | cancel work seen =>
    cases hstep
    exact h.cancel hpc

/-- The timer task moves in its callback, where it does not give a semaphore. -/
theorem WorkInv.setTimerCb (h : WorkInv s) {cb : WorkTimerPc} (hno : ∀ q, s.timerCb ≠ .semGive q)
    (hno' : ∀ q, cb ≠ .semGive q) : WorkInv { s with timerCb := cb } := by
  refine ⟨h.lists.quiet rfl (fun _ => rfl) (fun _ hw => hw) ?_ (fun _ => rfl) (fun _ => rfl),
    h.calls.congr rfl rfl rfl fun _ hw => ⟨hw, rfl⟩⟩
  intro q
  simp [givers, oneIf, hno q, hno' q]

/-- Every step of the callback of a timer keeps the invariant. -/
theorem WorkInv.timerCb (h : WorkInv s) (hstep : workTimerCb s = some s') : WorkInv s' := by
  unfold workTimerCb at hstep
  split at hstep
  · cases hstep
  · next timer wq hcb =>
    split at hstep
    · cases hstep
    · next work hpriv =>
      obtain ⟨-, hinit, -⟩ := h.calls.priv timer work hpriv
      have hno : ∀ q, s.timerCb ≠ .semGive q := by
        intro q hq
        rw [hcb] at hq
        cases hq
      split at hstep
      · cases hstep
        exact h.setTimerCb hno (by simp)
      · split at hstep
        · cases hstep
          exact h.setTimerCb hno (by simp)
        · next hexit =>
          cases hstep
          constructor
          · refine h.lists.workInsert (by simpa using hexit) hinit rfl rfl rfl ?_
            intro q
            have htasks : (workInsert s none wq work).tasks = s.tasks := rfl
            by_cases hq : q = wq
            · simp [givers, oneIf, hq, htasks, hcb]
            · simp [givers, oneIf, hno q, hq, Ne.symm hq, htasks]
          · have hset : WorkCalls (s.setWork work { s.works work with
                wq := some wq, workExit := true }) := by
              refine h.calls.congr rfl rfl rfl ?_
              intro w hw
              by_cases heq : w = work
              · subst heq
                simp [WorkSys.setWork, hw]
              · simp [WorkSys.setWork, Function.update_of_ne heq, hw]
            have hrec := hset.record (e := .inserted none wq work) (fun t ht => by cases ht)
              (fun t q w heq => by cases heq)
            exact ⟨hrec.giving, hrec.starting, hrec.cancelling, hrec.priv, hrec.success⟩
  · next wq hcb =>
    cases hstep
    obtain ⟨hworks, htasks, -, hlog, hpriv, -⟩ := workSemGive_frame s wq
    constructor
    · refine h.lists.give rfl hworks ?_ (fun q => by rw [hlog]) (fun q => by rw [hlog])
      intro q
      unfold givers
      rw [htasks, hcb]
      by_cases hq : q = wq
      · simp [oneIf, hq]
      · simp [oneIf, hq, Ne.symm hq]
    · exact h.calls.congr htasks hlog hpriv fun w hw =>
        ⟨by rw [hworks]; exact hw, by rw [hworks]⟩

/-- Every step of a worker keeps the invariant. -/
theorem WorkInv.worker (h : WorkInv s) (hstep : workerTask s wq = some s') : WorkInv s' := by
  have hcalls : ∀ x : KWorkqueue, WorkCalls (s.setQueue wq x) := fun x =>
    h.calls.congr rfl rfl rfl fun _ hw => ⟨hw, rfl⟩
  have hway : ∀ (x : KWorkqueue) q, q ≠ wq →
      onTheWayTo (s.setQueue wq x) q = onTheWayTo s q := by
    intro x q hq
    unfold onTheWayTo
    rw [show givers (s.setQueue wq x) q = givers s q from rfl,
      show (s.setQueue wq x).queues q = s.queues q from Function.update_of_ne hq _ _]
  have hwayto : ∀ x : KWorkqueue,
      onTheWayTo (s.setQueue wq x) wq = givers s wq + oneIf (x.worker = .pop) := by
    intro x
    unfold onTheWayTo
    rw [show givers (s.setQueue wq x) wq = givers s wq from rfl,
      show (s.setQueue wq x).queues wq = x from Function.update_self _ _ _]
  cases hpc : (s.queues wq).worker with
  | take =>
    unfold workerTask at hstep
    simp only [hpc] at hstep
    split at hstep
    case isTrue hpos =>
      cases hstep
      refine ⟨h.lists.atQueue _ rfl rfl rfl (hway _) ?_ (fun _ => ?_) (by simp) (fun _ => rfl)
        (fun _ _ => rfl) ?_, hcalls _⟩
      · rw [hwayto]
        simp [onTheWayTo, oneIf, hpc]
        omega
      · rw [hwayto]
        simp [onTheWayTo, oneIf, hpc]
        omega
      · simp [aboutToRun, hpc, WorkSys.setQueue]
    case isFalse hzero =>
      cases hstep
      refine ⟨h.lists.atQueue _ rfl rfl rfl (hway _) ?_ (fun _ => ?_) (fun _ => ?_) (fun _ => rfl)
        (fun _ _ => rfl) ?_, hcalls _⟩
      · rw [hwayto]
        simp [onTheWayTo, oneIf, hpc]
      · rw [hwayto]
        simp [onTheWayTo, oneIf, hpc]
      · exact Nat.eq_zero_of_not_pos hzero
      · simp [aboutToRun, hpc, WorkSys.setQueue]
  | blocked =>
    unfold workerTask at hstep
    simp only [hpc] at hstep
    cases hstep
  | pop =>
    cases hlist : (s.queues wq).workList with
    | nil =>
      unfold workerTask at hstep
      simp only [hpc, hlist] at hstep
      cases hstep
    | cons work rest =>
      rw [workerTask_pop h.lists hpc hlist] at hstep
      cases hstep
      refine ⟨h.lists.pop hpc hlist rfl rfl (fun _ => rfl) rfl, ?_⟩
      refine h.calls.congr rfl rfl rfl ?_
      intro w hw
      by_cases heq : w = work
      · subst heq
        simp [WorkSys.setWork, WorkSys.setQueue, hw]
      · simp [WorkSys.setWork, WorkSys.setQueue, Function.update_of_ne heq, hw]
  | call work =>
    unfold workerTask at hstep
    simp only [hpc] at hstep
    cases hstep
    constructor
    · have hsame : (s.queues wq).semCount +
          onTheWayTo (s.setQueue wq { s.queues wq with worker := .clean }) wq =
            (s.queues wq).semCount + onTheWayTo s wq := by
        rw [hwayto]
        simp [onTheWayTo, oneIf, hpc]
      refine h.lists.atQueue _ rfl rfl rfl (hway _) hsame.le (fun _ => hsame.ge) (by simp) ?_ ?_ ?_
      · intro q
        change insertedIn q (s.log ++ [_]) = _
        simp [insertedIn]
      · intro q hq
        change invokedIn q (s.log ++ [_]) = _
        simp [invokedIn, Ne.symm hq]
      · change invokedIn wq (s.log ++ [_]) ++ _ = _
        simp [invokedIn, hpc, aboutToRun]
    · exact (hcalls _).record (fun t ht => by cases ht) (fun t q w heq => by cases heq)
  | clean =>
    unfold workerTask at hstep
    simp only [hpc] at hstep
    cases hstep
    refine ⟨h.lists.atQueue _ rfl rfl rfl (hway _) ?_ (fun _ => ?_) (by simp) (fun _ => rfl)
      (fun _ _ => rfl) ?_, hcalls _⟩
    · rw [hwayto]
      simp [onTheWayTo, oneIf, hpc]
    · rw [hwayto]
      simp [onTheWayTo, oneIf, hpc]
    · simp [aboutToRun, hpc, WorkSys.setQueue]

/-- **Every step keeps it.** -/
theorem WorkInv.step {a : WorkAct} (h : WorkInv s) (hstep : workStep s a = some s') :
    WorkInv s' := by
  cases a with
  | init work dly =>
    simp only [workStep] at hstep
    split at hstep
    case isTrue => cases hstep
    case isFalse hnew =>
      cases hstep
      refine h.init ?_
      simpa using (not_or.1 hnew).1
  | run task wq work =>
    simp only [workStep] at hstep
    split at hstep
    case isTrue hidle =>
      cases hstep
      exact h.run hidle.1 hidle.2
    case isFalse => cases hstep
  | cancel task work =>
    simp only [workStep] at hstep
    split at hstep
    case isTrue hidle =>
      cases hstep
      refine ⟨h.lists.quiet rfl (fun _ => rfl) (fun _ hw => hw)
        (givers_setTask_same hidle.1 (fun _ => rfl) (fun _ => rfl)) (fun _ => rfl)
        (fun _ => rfl), h.calls.setTask (fun _ _ heq => by cases heq)
          (fun _ _ heq => by cases heq) ?_⟩
      intro w q heq
      cases heq
      exact hidle.2
    case isFalse => cases hstep
  | task task =>
    simp only [workStep] at hstep
    split at hstep
    · cases hstep
    · next pc hpc => exact h.goOn hpc hstep
  | expire timer wq =>
    simp only [workStep] at hstep
    split at hstep
    case isTrue hnone =>
      cases hstep
      refine h.setTimerCb ?_ (by simp)
      intro q hq
      rw [hnone] at hq
      cases hq
    case isFalse => cases hstep
  | timerCb => exact h.timerCb hstep
  | worker wq => exact h.worker hstep

end Steps

/-! ## Every listed work is run -/

/-- How far a worker is from having emptied its list: four steps for each listed work, and those it
is in. -/
def workLeft (s : WorkSys) (wq : ℕ) : ℕ :=
  4 * (s.queues wq).workList.length +
    match (s.queues wq).worker with
    | .blocked => 0
    | .pop => 0
    | .take => 1
    | .clean => 2
    | .call _ => 3

section Draining

variable {s : WorkSys} {wq : ℕ}

/-- A worker that is not blocked takes a step towards the end of its list. It needs no
other task for it, and inserts nothing. -/
theorem WorkInv.worker_next (h : WorkInv s) (hpc : (s.queues wq).worker ≠ .blocked) :
    ∃ s', workerTask s wq = some s' ∧ workLeft s' wq < workLeft s wq ∧
      givers s' wq = givers s wq ∧ insertedIn wq s'.log = insertedIn wq s.log ∧
      (WorksFit s → WorksFit s') := by
  have hset : ∀ x : KWorkqueue, (s.setQueue wq x).queues wq = x := fun x =>
    Function.update_self _ _ _
  cases hworker : (s.queues wq).worker with
  | blocked => exact absurd hworker hpc
  | take =>
    by_cases hpos : 0 < (s.queues wq).semCount
    · refine ⟨s.setQueue wq
        { s.queues wq with semCount := (s.queues wq).semCount - 1, worker := .pop },
        by simp only [workerTask, hworker, if_pos hpos], ?_, rfl, rfl, id⟩
      simp [workLeft, hset, hworker]
    · refine ⟨s.setQueue wq { s.queues wq with worker := .blocked },
        by simp only [workerTask, hworker, if_neg hpos], ?_, rfl, rfl, id⟩
      simp [workLeft, hset, hworker]
  | pop =>
    cases hlist : (s.queues wq).workList with
    | nil =>
      have hsem := h.lists.sem wq
      rw [hlist] at hsem
      simp [onTheWayTo, oneIf, hworker] at hsem
    | cons work rest =>
      refine ⟨_, workerTask_pop h.lists hworker hlist, ?_, rfl, rfl, ?_⟩
      · simp [workLeft, WorkSys.setWork, hset, hworker, hlist]
        omega
      · intro hfit w hw
        apply hfit
        by_cases heq : w = work
        · subst heq
          simpa [WorkSys.setWork, WorkSys.setQueue] using hw
        · simpa [WorkSys.setWork, WorkSys.setQueue, Function.update_of_ne heq] using hw
  | call work =>
    refine ⟨(s.setQueue wq { s.queues wq with worker := .clean }).record (.invoked wq work),
      by simp only [workerTask, hworker], ?_, rfl, ?_, id⟩
    · simp [workLeft, WorkSys.record, hset, hworker]
    · simp [WorkSys.record, WorkSys.setQueue, insertedIn]
  | clean =>
    refine ⟨s.setQueue wq { s.queues wq with workCurrent := none, worker := .take },
      by simp only [workerTask, hworker], ?_, rfl, rfl, id⟩
    simp [workLeft, hset, hworker]

/-- A blocked worker to which no token is on its way has an empty list. -/
theorem WorkInv.blocked_empty (h : WorkInv s) (hfit : WorksFit s) (hgivers : givers s wq = 0)
    (hpc : (s.queues wq).worker = .blocked) : (s.queues wq).workList = [] := by
  have htokens := h.lists.tokens hfit wq
  rw [h.lists.blocked wq hpc] at htokens
  simp only [onTheWayTo, oneIf, hgivers, hpc] at htokens
  exact List.length_eq_zero_iff.1 (by simpa using htokens)

/-- **the worker alone empties its list.** -/
theorem WorkInv.drains (h : WorkInv s) (hfit : WorksFit s) (hgivers : givers s wq = 0) :
    ∃ n s', runSteps workStep s (List.replicate n (.worker wq)) = some s' ∧
      (s'.queues wq).workList = [] ∧ invokedIn wq s'.log = insertedIn wq s.log := by
  obtain ⟨k, hk⟩ : ∃ k, k = workLeft s wq := ⟨_, rfl⟩
  induction k using Nat.strong_induction_on generalizing s with
  | _ k ih =>
    by_cases hpc : (s.queues wq).worker = .blocked
    · have hempty := h.blocked_empty hfit hgivers hpc
      refine ⟨0, s, rfl, hempty, ?_⟩
      rw [h.lists.order wq, hempty, hpc]
      simp [aboutToRun]
    · obtain ⟨s₁, hstep, hlt, hgivers₁, hinserted, hfit₁⟩ := h.worker_next hpc
      obtain ⟨n, s', hrun, hempty, hinvoked⟩ := ih _ (hk ▸ hlt) (h.worker hstep) (hfit₁ hfit)
        (hgivers₁.trans hgivers) rfl
      refine ⟨n + 1, s', ?_, hempty, hinvoked.trans hinserted⟩
      rw [List.replicate_succ]
      simp only [runSteps, workStep, hstep]
      exact hrun

/-- `work_timer_cb` inserts the work of the timer, unless it runs or is listed. -/
theorem workTimerCb_expiry {timer : ℕ} {s' : WorkSys}
    (hcb : s.timerCb = .enter timer wq) (hstep : workTimerCb s = some s') :
    ∃ work, s.priv timer = some work ∧
      if (s.queues wq).workCurrent = some work ∨ (s.works work).workExit = true then s'.log = s.log
      else s'.log = s.log ++ [.inserted none wq work] ∧ work ∈ (s'.queues wq).workList := by
  unfold workTimerCb at hstep
  simp only [hcb] at hstep
  cases hpriv : s.priv timer with
  | none => simp [hpriv] at hstep
  | some work =>
    refine ⟨work, rfl, ?_⟩
    simp only [hpriv] at hstep
    split at hstep
    case isTrue hcur =>
      cases hstep
      rw [if_pos (.inl hcur)]
    case isFalse hcur =>
      split at hstep
      case isTrue hexit =>
        cases hstep
        rw [if_pos (.inr hexit)]
      case isFalse hexit =>
        cases hstep
        rw [if_neg (not_or.2 ⟨hcur, hexit⟩)]
        refine ⟨rfl, ?_⟩
        change work ∈ (Function.update (s.rmNode work).queues wq _ wq).workList
        rw [Function.update_self]
        simp

end Draining

/-- **What the work queue promises**, for every queue and every work. -/
structure WorkqueueOk (s : WorkSys) : Prop where
  sem_le : ∀ wq, (s.queues wq).semCount ≤ (s.queues wq).workList.length
  pop_nonempty : ∀ wq, (s.queues wq).worker = .pop → (s.queues wq).workList ≠ []
  listed_iff : ∀ work, (∃ wq, work ∈ (s.queues wq).workList) ↔ (s.works work).workExit = true
  listed_once : ∀ work p q, work ∈ (s.queues p).workList → work ∈ (s.queues q).workList →
    p = q ∧ (s.queues p).workList.count work = 1
  in_order : ∀ wq, insertedIn wq s.log =
    invokedIn wq s.log ++ aboutToRun (s.queues wq).worker ++ (s.queues wq).workList
  /-- every listed work has a token: in the semaphore, with a task that is about to give it, or
  with the worker that is about to pop -/
  tokens : WorksFit s → ∀ wq, (s.queues wq).semCount + givers s wq +
    oneIf ((s.queues wq).worker = .pop) = (s.queues wq).workList.length
  /-- once the tokens are given, the worker by itself runs all that was inserted -/
  drains : WorksFit s → ∀ wq, givers s wq = 0 → ∃ n s',
    runSteps workStep s (List.replicate n (.worker wq)) = some s' ∧
      (s'.queues wq).workList = [] ∧ invokedIn wq s'.log = insertedIn wq s.log
  /-- an expiry inserts its work, unless that runs or is listed -/
  expiry : ∀ timer wq s', s.timerCb = .enter timer wq → workTimerCb s = some s' →
    ∃ work, s.priv timer = some work ∧
      if (s.queues wq).workCurrent = some work ∨ (s.works work).workExit = true then s'.log = s.log
      else s'.log = s.log ++ [.inserted none wq work] ∧ work ∈ (s'.queues wq).workList
  success_inserted : ∀ pre task wq work post, s.log = pre ++ .ran task wq work .success :: post →
    (s.works work).dly = 0 → lastBy task pre = some (.inserted (some task) wq work)

/-- **Works run once for each insertion.** From the creation of the queues on, in every run of
submissions, cancellations, expiries and worker steps: the semaphore never counts more than the
list holds and the worker finds a work when it pops; a work is listed, and then once, exactly if
its `work_exit` is set; what was inserted into a queue is what was run, what is about to run and
what is listed, in this order; every listed work has its token, so that the worker runs all of them
without any other task's help; an expiry inserts its work unless that runs or is listed; a
successful submission has inserted its work. -/
theorem works_run_once (taskNum : ℕ) (as : List WorkAct) (s : WorkSys)
    (hrun : runSteps workStep (workqueueInit taskNum) as = some s) : WorkqueueOk s := by
  have h : WorkInv s := by
    have hkeep : ∀ t a t', WorkInv t → True → workStep t a = some t' → WorkInv t' :=
      fun t a t' ht _ hstep => ht.step hstep
    exact runSteps_inv hkeep (workqueueInit_inv taskNum)
      (stepsMeet_of_forall (fun _ _ _ => trivial) _) hrun
  refine ⟨?_, ?_, h.lists.member, ?_, h.lists.order, ?_, fun hfit wq => h.drains hfit,
    fun timer wq s' => workTimerCb_expiry, ?_⟩
  · intro wq
    exact (Nat.le_add_right _ _).trans (h.lists.sem wq)
  · intro wq hpc hnil
    have hsem := h.lists.sem wq
    rw [hnil] at hsem
    simp [onTheWayTo, oneIf, hpc] at hsem
  · intro work p q hp hq
    refine ⟨h.lists.unique work p q hp hq, ?_⟩
    exact List.count_eq_one_of_mem (h.lists.nodup p) hp
  · intro hfit wq
    have hle := h.lists.sem wq
    have hge := h.lists.tokens hfit wq
    unfold onTheWayTo at hle hge
    omega
  · intro pre task wq work post heq
    exact (h.calls.success pre task wq work post heq).2

/-- Two tasks submit two works; the worker runs the first one and pops the second one. -/
def twoWorks : List WorkAct :=
  [.init 0 0, .init 1 0, .run 0 0 0, .run 1 0 1, .task 1, .worker 0, .task 0, .worker 0, .worker 0,
    .worker 0, .worker 0, .worker 0]

/-- After that run the first work has run once on queue 0, and what is claimed holds. -/
theorem works_run_once_two :
    ∃ s, runSteps workStep (workqueueInit 2) twoWorks = some s ∧ invokedIn 0 s.log = [0] ∧
      WorkqueueOk s :=
  ⟨_, rfl, by decide +kernel, works_run_once 2 twoWorks _ rfl⟩

end GenieSdk.Analysis
