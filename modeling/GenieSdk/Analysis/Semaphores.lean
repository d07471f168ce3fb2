import GenieSdk.Analysis.EventWaiters
import GenieSdk.Model.Sem

/-!
# Semaphores

A give either counts the semaphore up or hands a token to a task that waits; the waits also end by
timeouts and aborts, in other files. **No token is lost or made up**: in every reachable state the
tokens that were supplied are those in the count, those that the takes got and those on the way to a
task that was woken, and a take that returns got one token if it succeeded and none if not
(`sem_tokens`).
-/

set_option autoImplicit false

namespace GenieSdk.Analysis.Rhino

open GenieSdk.Model.Rhino GenieSdk.Lib
open GenieSdk.Model (AllocFlag BlkState KStat pendStateEndProc)

/-! ## What is claimed -/

/-- What a give adds that wakes `woken` tasks if any task waits: a count that is full stays. -/
def given (s : SemKern) (sem woken : ℕ) : ℤ :=
  if (s.kern.objs sem).blkList = [] then if s.count sem = -1 then 0 else 1 else woken

/-- The tokens that a step adds to a semaphore: its first count, one by a give, one for each task that
is woken by a `give_all`, and what a `count_set` changes. -/
def supplies (sem : ℕ) (s : SemKern) : SemAct → ℤ
  | .create e count _ => if e = sem then count.toNat - (s.count sem).toNat else 0
  | .give e => if e = sem ∧ s.isSem sem = true then given s sem 1 else 0
  | .giveAll e =>
    if e = sem ∧ s.isSem sem = true then given s sem (s.kern.objs sem).blkList.length else 0
  | .countSet e count =>
    if e = sem ∧ (krhinoSemCountSet s e count).1 = .kstat .success then
      count.toNat - (s.count sem).toNat
    else 0
  | _ => 0

/-- The tokens that the takes got that have returned. -/
def taken (s : SemKern) (sem : ℕ) : ℕ :=
  ((s.takes.filter fun r => r.sem = sem).map SemTake.tokens).sum

/-- The tokens given to tasks that have not returned with them. -/
def onTheWay (s : SemKern) (sem : ℕ) : ℕ := s.handed.countP fun h => h.1 = sem

def accounted (sem : ℕ) (s : SemKern) : ℤ := (s.count sem).toNat + taken s sem + onTheWay s sem

/-- The count moves as the step says, and does not wrap: up by one in a give, down by one in a take, and
to what it is set to. -/
def CountMoves (sem : ℕ) (s s' : SemKern) : SemAct → Prop
  | .give e | .giveAll e =>
    s'.count sem = s.count sem ∨ (e = sem ∧ (s'.count sem).toNat = (s.count sem).toNat + 1)
  | .take e _ =>
    s'.count sem = s.count sem ∨ (e = sem ∧ (s'.count sem).toNat + 1 = (s.count sem).toNat)
  | .create e count _ | .countSet e count =>
    s'.count sem = s.count sem ∨ (e = sem ∧ s'.count sem = count)
  | _ => s'.count sem = s.count sem

/-- The condition on the deletion of tasks that the kernel does not check itself. -/
def FirstTaskDeletion (s : SemKern) : SemAct → Prop
  | .kern a => FirstDeletion s.kern a
  | _ => True

/-! ## The invariant -/

/-- Who waits is in a take and got nothing; who has been woken in one got a token exactly if
it was by a give. -/
structure SemInv (s : SemKern) : Prop where
  kern : KernOk s.kern none
  own : Owned s.kern
  type : ∀ e, s.isSem e = true → (s.kern.objs e).objType = .other ∧ e ≠ resSem
  free : ∀ e, s.isSem e = true → s.count e ≠ 0 → (s.kern.objs e).blkList = []
  waiting : ∀ e t, s.isSem e = true → waitsFor (s.kern.tasks t) = some e →
    s.inTake t = some e ∧ s.tokens t = 0
  back : ∀ e t, s.inTake t = some e →
    (s.isSem e = true ∧ waitsFor (s.kern.tasks t) = some e) ∨
      (Unblocked (s.kern.tasks t) ∧
        s.tokens t = if (s.kern.tasks t).blkState = .finish then 1 else 0)
  handed : ∀ e t, s.inTake t = some e → 0 < s.tokens t → (e, t) ∈ s.handed
  takes : ∀ r ∈ s.takes, r.tokens = if r.stat = .success then 1 else 0

section Inv

variable {s s' : SemKern} {sem task fuel : ℕ} {k : Kern}

/-- The list of a semaphore has the tasks that wait for it. -/
theorem SemInv.mem_blkList (h : SemInv s) {t e : ℕ} :
    t ∈ (s.kern.objs e).blkList ↔ waitsFor (s.kern.tasks t) = some e := h.kern.blk.mem_iff t e

/-- Where nobody comes to wait, nobody waits. -/
theorem SemInv.free_of_keeps (h : SemInv s) {e : ℕ} (hk : KernOk k none)
    (hkeeps : KeepsWaiters e s.kern k) (he : s.isSem e = true)
    (hnil : (s.kern.objs e).blkList = []) : (k.objs e).blkList = [] := by
  apply List.eq_nil_iff_forall_not_mem.2
  intro t ht
  have hwait := (hkeeps (h.type e he).1).2 t ((hk.blk.mem_iff t e).1 ht)
  rw [← h.mem_blkList, hnil] at hwait
  cases hwait

/-- **a step of the kernel** in which nobody comes to wait for a semaphore, and after which
every task in a take has still its outcome, waits on or was refused, or is deleted. -/
theorem SemInv.setKern (h : SemInv s) (hk : KernOk k none) (ho : Owned k)
    (hkeeps : ∀ e, s.isSem e = true → KeepsWaiters e s.kern k)
    (hwait : ∀ t, s.inTake t ≠ none →
      WaitKept (fun e => s.isSem e = true) (s.kern.tasks t) (k.tasks t) ∨
        (k.tasks t).taskState = .deleted) : SemInv (s.setKern k) where
  kern := hk
  own := ho
  type e he := ⟨(hkeeps e he (h.type e he).1).1, (h.type e he).2⟩
  free e he hcount := h.free_of_keeps hk (hkeeps e he) he (h.free e he hcount)
  waiting e t he hw := by
    obtain ⟨hin, htokens⟩ := h.waiting e t he ((hkeeps e he (h.type e he).1).2 t hw)
    refine ⟨(if_neg fun hdead => ?_).trans hin, htokens⟩
    change waitsFor (k.tasks t) = some e at hw
    rw [(unused_facts (.inr hdead)).2.2] at hw
    cases hw
  back e t hin := by
    change (if (k.tasks t).taskState = .deleted then none else s.inTake t) = some e at hin
    change (s.isSem e = true ∧ waitsFor (k.tasks t) = some e) ∨
      (Unblocked (k.tasks t) ∧ s.tokens t = if (k.tasks t).blkState = .finish then 1 else 0)
    split at hin
    case isTrue => cases hin
    case isFalse hlive =>
      have hkept := (hwait t (by simp [hin])).resolve_right hlive
      obtain ⟨he, hw⟩ | ⟨hawake, htokens⟩ := h.back e t hin
      · refine (hkept.waiting e he hw).imp (⟨he, ·⟩) fun ⟨hawake, hne⟩ => ⟨hawake, ?_⟩
        rw [if_neg hne, (h.waiting e t he hw).2]
      · obtain ⟨hawake', hsame⟩ := hkept.woken hawake
        exact .inr ⟨hawake', by rw [hsame, htokens]⟩
  handed e t hin htokens := by
    change (if (k.tasks t).taskState = .deleted then none else s.inTake t) = some e at hin
    split at hin
    case isTrue => cases hin
    case isFalse => exact h.handed e t hin htokens
  takes := h.takes

/-- A take is entered in the books. -/
theorem SemInv.record (h : SemInv s) {e tokens : ℕ} {stat : KStat}
    (htokens : tokens = if stat = .success then 1 else 0) :
    SemInv (s.record task e stat tokens) where
  kern := h.kern
  own := h.own
  type := h.type
  free := h.free
  waiting := h.waiting
  back := h.back
  handed := h.handed
  takes r hr := by
    rcases List.mem_append.1 hr with hr | hr
    · exact h.takes r hr
    · rw [List.mem_singleton.1 hr]
      exact htokens

/-- One count is written. -/
theorem SemInv.setCount (h : SemInv s) {n : BitVec 32} {peak : ℕ → BitVec 32}
    (hn : s.isSem sem = true → n ≠ 0 → (s.kern.objs sem).blkList = []) :
    SemInv { s with count := Function.update s.count sem n, peakCount := peak } where
  kern := h.kern
  own := h.own
  type := h.type
  free e he hne := by
    simp only [Function.update_apply] at hne
    split at hne
    case isTrue heq =>
      subst heq
      exact hn he hne
    case isFalse => exact h.free e he hne
  waiting := h.waiting
  back := h.back
  handed := h.handed
  takes := h.takes

/-! ## The books -/

/-- A recorded take adds its tokens. -/
theorem taken_record (s : SemKern) (task e : ℕ) (stat : KStat) (tokens sem : ℕ) :
    taken (s.record task e stat tokens) sem = taken s sem + if e = sem then tokens else 0 := by
  simp only [taken, SemKern.record, List.filter_append, List.map_append, List.sum_append]
  by_cases he : e = sem
  · simp [he]
  · simp [he]

/-- And so they are accounted for. -/
theorem accounted_record (s : SemKern) (task e : ℕ) (stat : KStat) (tokens sem : ℕ) :
    accounted sem (s.record task e stat tokens) =
      accounted sem s + if e = sem then (tokens : ℤ) else 0 := by
  have hcount : (s.record task e stat tokens).count = s.count := rfl
  have hway : onTheWay (s.record task e stat tokens) sem = onTheWay s sem := rfl
  unfold accounted
  rw [taken_record, hcount, hway]
  split_ifs <;> push_cast <;> ring

/-- Setting a count changes what is accounted for by the difference. -/
theorem accounted_setCount (n : BitVec 32) (peak : ℕ → BitVec 32) (e : ℕ) :
    accounted e { s with count := Function.update s.count sem n, peakCount := peak } =
      accounted e s + if sem = e then (n.toNat : ℤ) - (s.count e).toNat else 0 := by
  show ((Function.update s.count sem n e).toNat + taken s e + onTheWay s e : ℤ) = _
  unfold accounted
  rw [Function.update_apply]
  by_cases he : e = sem
  · rw [if_pos he, if_pos he.symm]
    ring
  · rw [if_neg he, if_neg (Ne.symm he)]
    ring

/-- A count that is not full is counted up, and one that is not 0 down, without wrapping. -/
theorem toNat_add_one {n : BitVec 32} (h : n ≠ -1) : (n + 1).toNat = n.toNat + 1 := by
  have hlt : n.toNat ≠ 2 ^ 32 - 1 := fun heq => h (BitVec.eq_of_toNat_eq (by rw [heq]; rfl))
  have := n.isLt
  rw [BitVec.toNat_add]
  exact Nat.mod_eq_of_lt (by simp; omega)

/-- A positive count less one. -/
theorem toNat_sub_one {n : BitVec 32} (h : 0 < n) : (n - 1).toNat + 1 = n.toNat := by
  have hpos : 0 < n.toNat := by simpa [BitVec.lt_def] using h
  have := n.isLt
  rw [BitVec.toNat_sub, show (1 : BitVec 32).toNat = 1 from rfl]
  omega

end Inv

/-! ## The calls -/

section Calls

variable {s s' : SemKern} {sem task fuel : ℕ}

/-- **a task is woken by a give**, and a token is handed to it. -/
theorem SemInv.wake (h : SemInv s) (he : s.isSem sem = true)
    (hw : waitsFor (s.kern.tasks task) = some sem) (hc : semWake s sem task = some s') :
    SemInv s' ∧ (∀ e, accounted e s' = accounted e s + if sem = e then 1 else 0) ∧
      s'.isSem = s.isSem ∧
      (s'.kern.objs sem).blkList = (s.kern.objs sem).blkList.erase task := by
  obtain ⟨k, hwake, rfl⟩ := Option.map_eq_some_iff.1 hc
  obtain ⟨hpend, -, t', htasks, hawake, hblk⟩ := pendTaskEnd_tasks hwake
  obtain ⟨obj, -, hobj, -, -, -, -, -, -, hobjs, -, -⟩ := pendTaskEnd_eq h.kern hwake
  obtain rfl : obj = sem := by
    rw [waitsFor, if_pos hpend, hobj] at hw
    exact Option.some.inj hw
  have hk : KernOk k none := pendTaskEnd_ok h.kern hwake
  have hkeeps : ∀ e, KeepsWaiters e s.kern k := fun e => pendTaskEnd_keeps hwake
  obtain ⟨hin, htokens⟩ := h.waiting obj task he hw
  refine ⟨⟨hk, h.own.same (pendTaskEnd_sameOwn h.kern hwake), fun e he' =>
      ⟨(hkeeps e (h.type e he').1).1, (h.type e he').2⟩, fun e he' hne =>
      h.free_of_keeps hk (hkeeps e) he' (h.free e he' hne), ?_, ?_, ?_, h.takes⟩, ?_, rfl, ?_⟩
  · intro e t he' hw'
    simp only [htasks, Function.update_apply] at hw' ⊢
    split at hw'
    case isTrue =>
      rw [hawake.waitsFor] at hw'
      cases hw'
    case isFalse hne =>
      rw [if_neg hne]
      exact h.waiting e t he' hw'
  · intro e t hin'
    by_cases ht : t = task
    · subst ht
      simp only [htasks, Function.update_self]
      exact .inr ⟨hawake, by rw [htokens, if_pos hblk]⟩
    · simp only [htasks, Function.update_of_ne ht]
      exact h.back e t hin'
  · intro e t hin' hpos
    simp only [Function.update_apply] at hpos
    split at hpos
    case isTrue heq =>
      subst heq
      obtain rfl : obj = e := Option.some.inj (hin.symm.trans hin')
      exact List.mem_cons_self
    case isFalse => exact List.mem_cons_of_mem _ (h.handed e t hin' hpos)
  · intro e
    show ((s.count e).toNat + taken s e +
      (((obj, task) :: s.handed).countP fun x => x.1 = e : ℕ) : ℤ) = _
    unfold accounted onTheWay
    rw [List.countP_cons]
    by_cases heq : obj = e
    · simp only [heq, decide_true, if_true]
      push_cast
      ring
    · simp [heq]
  · show (k.objs obj).blkList = _
    rw [hobjs, Function.update_self]

/-- **all waiting tasks are woken**, one after the other. -/
theorem SemInv.wakeAll (h : SemInv s) (he : s.isSem sem = true)
    (hc : semWakeAll fuel s sem = some s') :
    SemInv s' ∧ ∀ e, accounted e s' =
      accounted e s + if sem = e then ((s.kern.objs sem).blkList.length : ℤ) else 0 := by
  induction fuel generalizing s with
  | zero => cases hc
  | succ fuel ih =>
    unfold semWakeAll at hc
    split at hc
    case h_1 hnil =>
      cases hc
      exact ⟨h, fun e => by simp [hnil]⟩
    case h_2 first rest hlist =>
      split at hc
      case h_1 => cases hc
      case h_2 s₁ hwake =>
        have hw : waitsFor (s.kern.tasks first) = some sem :=
          h.mem_blkList.1 (by rw [hlist]; exact List.mem_cons_self)
        obtain ⟨h₁, hacc₁, hsem, hrest⟩ := h.wake he hw hwake
        obtain ⟨h', hacc⟩ := ih h₁ (by rw [hsem]; exact he) hc
        refine ⟨h', fun e => ?_⟩
        rw [hacc, hacc₁, hrest, hlist, List.erase_cons_head, List.length_cons]
        split_ifs <;> push_cast <;> ring

/-- **a give**, of one token or of one for each task that waits. -/
theorem SemInv.give (h : SemInv s) {all : Bool} {st : KStat}
    (hc : semGive fuel s sem all = some (st, s')) :
    SemInv s' ∧ ∀ e, accounted e s' = accounted e s + if sem = e ∧ s.isSem e = true then
      given s e (if all then (s.kern.objs e).blkList.length else 1) else 0 := by
  unfold semGive at hc
  split at hc
  case isTrue htype =>
    cases hc
    refine ⟨h, fun e => ?_⟩
    rw [if_neg, add_zero]
    rintro ⟨rfl, he⟩
    rw [htype] at he
    cases he
  case isFalse htype =>
    have he : s.isSem sem = true := by simpa using htype
    -- Only the semaphore that is given is concerned.
    suffices hacc : SemInv s' ∧ ∀ e, accounted e s' = accounted e s + if sem = e then
        given s sem (if all then (s.kern.objs sem).blkList.length else 1) else 0 by
      refine ⟨hacc.1, fun e => ?_⟩
      rw [hacc.2]
      by_cases heq : sem = e
      · subst heq
        simp only [he, and_self, if_true]
      · rw [if_neg heq, if_neg (fun hcond => heq hcond.1)]
    split at hc
    case h_1 hnil =>
      split at hc
      case isTrue hfull =>
        cases hc
        exact ⟨h, fun e => by simp [given, hnil, hfull]⟩
      case isFalse hfull =>
        cases hc
        refine ⟨h.setCount fun _ _ => hnil, fun e => ?_⟩
        unfold SemKern.setCount
        rw [accounted_setCount, given, if_pos hnil, if_neg hfull, toNat_add_one hfull]
        by_cases heq : sem = e
        · subst heq
          rw [if_pos rfl, if_pos rfl]
          push_cast
          ring
        · rw [if_neg heq, if_neg heq]
    case h_2 first rest hlist =>
      obtain ⟨s₁, hwake, heq⟩ := Option.map_eq_some_iff.1 hc
      cases heq
      have hgiven : ∀ woken, given s sem woken = woken := by
        intro woken
        rw [given, if_neg (by rw [hlist]; simp)]
      rw [hgiven]
      split at hwake
      case isTrue hall =>
        rw [if_pos hall]
        exact h.wakeAll he hwake
      case isFalse hall =>
        have hw : waitsFor (s.kern.tasks first) = some sem :=
          h.mem_blkList.1 (by rw [hlist]; exact List.mem_cons_self)
        obtain ⟨h', hacc, -⟩ := h.wake he hw hwake
        rw [if_neg hall, Nat.cast_one]
        exact ⟨h', hacc⟩

/-- **a take**: it is refused and gets nothing, it gets a token from the count, or the task
begins to wait. -/
theorem SemInv.take (h : SemInv s) {ticks : ℕ} {st : Option KStat} (hcall : s.MayCall)
    (hc : krhinoSemTake s sem ticks = some (st, s')) :
    SemInv s' ∧ ∀ e, accounted e s' = accounted e s := by
  have hrefuse : ∀ stat, stat ≠ .success →
      SemInv (s.record s.kern.active sem stat 0) ∧
        ∀ e, accounted e (s.record s.kern.active sem stat 0) = accounted e s := by
    intro stat hstat
    refine ⟨h.record (by rw [if_neg hstat]), fun e => ?_⟩
    rw [accounted_record]
    simp
  unfold krhinoSemTake at hc
  simp only at hc
  split_ifs at hc with hintrpt htype hcount hticks hlock
  · cases hc
    exact hrefuse _ (by decide)
  · cases hc
    exact hrefuse _ (by decide)
  · cases hc
    have hne : s.count sem ≠ 0 := by
      intro hzero
      rw [hzero] at hcount
      exact absurd hcount (by decide)
    have h₁ : SemInv { s with count := Function.update s.count sem (s.count sem - 1) } :=
      h.setCount fun he _ => h.free sem he hne
    refine ⟨h₁.record rfl, fun e => ?_⟩
    rw [accounted_record, accounted_setCount]
    split_ifs with heq
    · subst heq
      have := toNat_sub_one hcount
      omega
    · ring
  · cases hc
    exact hrefuse _ (by decide)
  · cases hc
    exact hrefuse _ (by decide)
  · split at hc
    case h_1 => cases hc
    case h_2 k hpend =>
      cases hc
      obtain ⟨hrdy, hnone⟩ := hcall.resolve_left hintrpt
      have he : s.isSem sem = true := by simpa using htype
      have hpos := Nat.pos_of_ne_zero hticks
      obtain ⟨hwaits, hsame, htypes⟩ := pendToBlkObj_tasks hpos hpend
      have hzero : s.count sem = 0 := by
        by_contra hne
        exact hcount ((BitVec.pos_iff_ne_zero _).2 hne)
      have hkcall : kernCall 0 s.kern (.blkObjPend sem ticks) = some k := by
        simp [kernCall, blkObjPend, hintrpt, (h.type sem he).1, hticks, hlock, hpend]
      have hk := kernCall_ok h.kern (.inr hrdy) hkcall
      refine ⟨⟨hk, h.own.same (kernCall_sameOwn h.kern (.inr hrdy) rfl hkcall), fun e he' =>
        ⟨(htypes e).trans (h.type e he').1, (h.type e he').2⟩, ?_, ?_, ?_, ?_, h.takes⟩,
        fun e => rfl⟩
      · intro e he' hne
        have hes : sem ≠ e := by
          rintro rfl
          exact hne hzero
        exact h.free_of_keeps hk (pendToBlkObj_keeps hes hpos hpend) he' (h.free e he' hne)
      · intro e t he' hw
        simp only [Function.update_apply]
        split
        case isTrue heq =>
          subst heq
          exact ⟨hwaits.symm.trans hw, rfl⟩
        case isFalse hne =>
          rw [show k.tasks t = s.kern.tasks t from hsame t hne] at hw
          exact h.waiting e t he' hw
      · intro e t hin
        simp only [Function.update_apply] at hin ⊢
        split at hin
        case isTrue heq =>
          subst heq
          cases hin
          exact .inl ⟨he, hwaits⟩
        case isFalse hne =>
          rw [if_neg hne, hsame t hne]
          exact h.back e t hin
      · intro e t hin htokens
        simp only [Function.update_apply] at hin htokens
        split at hin
        case isTrue heq =>
          rw [if_pos heq] at htokens
          cases htokens
        case isFalse hne =>
          rw [if_neg hne] at htokens
          exact h.handed e t hin htokens

/-- **a take returns** that had to wait. -/
theorem SemInv.takeReturn (h : SemInv s) {st : KStat}
    (hrdy : (s.kern.tasks s.kern.active).taskState = .rdy)
    (hc : semTakeReturn s = some (st, s')) :
    SemInv s' ∧ ∀ e, accounted e s' = accounted e s := by
  unfold semTakeReturn at hc
  simp only at hc
  split at hc
  case h_1 => cases hc
  case h_2 e₀ hin =>
    cases hc
    have hawake : Unblocked (s.kern.tasks s.kern.active) := .inl hrdy
    have htokens : s.tokens s.kern.active =
        if (s.kern.tasks s.kern.active).blkState = .finish then 1 else 0 := by
      obtain ⟨-, hw⟩ | ⟨-, htokens⟩ := h.back e₀ _ hin
      · rw [hawake.waitsFor] at hw
        cases hw
      · exact htokens
    have hstat : s.tokens s.kern.active =
        if pendStateEndProc (s.kern.tasks s.kern.active).blkState = .success then 1 else 0 := by
      rw [htokens]
      cases (s.kern.tasks s.kern.active).blkState
      all_goals rfl
    have h₁ : SemInv (s.record s.kern.active e₀ _ (s.tokens s.kern.active)) := h.record hstat
    refine ⟨⟨h.kern, h.own, h.type, h.free, ?_, ?_, ?_, h₁.takes⟩, fun e => ?_⟩
    · intro e t he hw
      have hne : t ≠ s.kern.active := by
        rintro rfl
        change waitsFor (s.kern.tasks s.kern.active) = some e at hw
        rw [hawake.waitsFor] at hw
        cases hw
      simp only [Function.update_of_ne hne]
      exact h.waiting e t he hw
    · intro e t hin'
      simp only [Function.update_apply] at hin'
      split at hin'
      case isTrue => cases hin'
      case isFalse => exact h.back e t hin'
    · intro e t hin' hpos
      simp only [Function.update_apply] at hin'
      split at hin'
      case isTrue => cases hin'
      case isFalse hne =>
        have hmem := h.handed e t hin' hpos
        show (e, t) ∈ if 0 < s.tokens s.kern.active then s.handed.erase (e₀, s.kern.active)
          else s.handed
        split
        case isTrue => exact (List.mem_erase_of_ne (by simp [hne])).2 hmem
        case isFalse => exact hmem
    · show ((s.count e).toNat + taken (s.record s.kern.active e₀ _ (s.tokens s.kern.active)) e +
        ((if 0 < s.tokens s.kern.active then s.handed.erase (e₀, s.kern.active)
          else s.handed).countP fun x => x.1 = e : ℕ) : ℤ) = _
      unfold accounted onTheWay
      rw [taken_record]
      by_cases hpos : 0 < s.tokens s.kern.active
      · have hone : s.tokens s.kern.active = 1 := by
          rw [htokens] at hpos ⊢
          split_ifs at hpos ⊢
          all_goals simp_all
        have hmem := h.handed e₀ _ hin hpos
        rw [if_pos hpos, List.countP_erase, hone]
        by_cases heq : e₀ = e
        · subst heq
          have : 0 < s.handed.countP fun x => x.1 = e₀ :=
            List.countP_pos_iff.2 ⟨_, hmem, by simp⟩
          simp only [hmem, if_true, decide_true, and_self]
          omega
        · simp [heq]
      · rw [if_neg hpos, Nat.eq_zero_of_not_pos hpos]
        simp

/-- A semaphore is created with its tokens. -/
theorem SemInv.create (h : SemInv s) {count : BitVec 32} {flag : AllocFlag}
    (hc : semCreate s sem count flag = some s') :
    SemInv s' ∧ ∀ e, accounted e s' =
      accounted e s + if sem = e then (count.toNat : ℤ) - (s.count e).toNat else 0 := by
  unfold semCreate at hc
  split at hc
  case isTrue => cases hc
  case isFalse hcond =>
    cases hc
    obtain ⟨hfree, hres⟩ := not_or.1 hcond
    have hfree := not_not.1 hfree
    have hdead := h.kern.dead sem hfree (by simp)
    refine ⟨⟨h.kern.setObj sem _ (by rw [hdead]) (fun hnone => by cases hnone),
      h.own.same (sameOwn_setObj (by simp [hfree]) (by simp) rfl), ?_, ?_, ?_, ?_, h.handed,
      h.takes⟩, accounted_setCount count (Function.update s.peakCount sem count)⟩
    · intro e he
      simp only [setObj_objs, Function.update_apply] at he ⊢
      split at he
      case isTrue heq =>
        rw [if_pos heq, heq]
        exact ⟨rfl, hres⟩
      case isFalse hne =>
        rw [if_neg hne]
        exact h.type e he
    · intro e he hne
      simp only [setObj_objs, Function.update_apply] at he hne ⊢
      split at he
      case isTrue heq => rw [if_pos heq]
      case isFalse hes =>
        rw [if_neg hes] at hne ⊢
        exact h.free e he hne
    · intro e t he hw
      have hne : e ≠ sem := by
        rintro rfl
        have hmem := h.mem_blkList.2 hw
        rw [hdead] at hmem
        cases hmem
      simp only [Function.update_of_ne hne] at he
      exact h.waiting e t he hw
    · intro e t hin
      refine (h.back e t hin).imp_left fun ⟨he, hw⟩ => ⟨?_, hw⟩
      show Function.update s.isSem sem true e = true
      rw [Function.update_apply]
      split
      case isTrue => rfl
      case isFalse => exact he

/-- Deleting a semaphore leaves the accounts. -/
theorem SemInv.del (h : SemInv s) {flag : AllocFlag} {st : KStat} (hcall : s.MayCall)
    (hc : semDel fuel s sem flag = some (st, s')) :
    SemInv s' ∧ ∀ e, accounted e s' = accounted e s := by
  unfold semDel at hc
  split_ifs at hc with hintrpt htype hflag
  · cases hc
    exact ⟨h, fun _ => rfl⟩
  · cases hc
    exact ⟨h, fun _ => rfl⟩
  · cases hc
    exact ⟨h, fun _ => rfl⟩
  · simp only at hc
    split at hc
    case h_1 => cases hc
    case h_2 k hall =>
      cases hc
      have he : s.isSem sem = true := by simpa using htype
      have hkcall : kernCall fuel s.kern (.blkObjDel sem) = some k := by
        simp [kernCall, blkObjDel, hintrpt, (h.type sem he).1, hall]
      have hrdy := hcall.imp_right And.left
      have hk := kernCall_ok h.kern hrdy hkcall
      have hnil := (pendTaskRmAll_ok (h.kern.beginDel sem) hall).2
      have hkeeps : ∀ e, e ≠ sem → KeepsWaiters e s.kern k := fun e hne =>
        kernCall_keeps (c := .blkObjDel sem) h.kern (Ne.symm hne) hkcall
      -- Whoever waits for whatever: the wait goes on, or ends without success.
      have hwait : ∀ t, WaitKept (fun _ => True) (s.kern.tasks t) (k.tasks t) := fun t =>
        (pendTaskRmAll_kept (D := fun _ => False) hall).waits t id
      have hother : ∀ e, Function.update s.isSem sem false e = true →
          e ≠ sem ∧ s.isSem e = true := by
        intro e he
        rw [Function.update_apply] at he
        split at he
        case isTrue => cases he
        case isFalse hne => exact ⟨hne, he⟩
      refine ⟨⟨hk, h.own.same (kernCall_sameOwn h.kern hrdy rfl hkcall), ?_, ?_, ?_, ?_, h.handed,
        h.takes⟩, fun _ => rfl⟩
      · intro e he
        obtain ⟨hne, he⟩ := hother e he
        exact ⟨(hkeeps e hne (h.type e he).1).1, (h.type e he).2⟩
      · intro e he hcount
        obtain ⟨hne, he⟩ := hother e he
        exact h.free_of_keeps hk (hkeeps e hne) he (h.free e he hcount)
      · intro e t he hw
        obtain ⟨hne, he⟩ := hother e he
        exact h.waiting e t he ((hkeeps e hne (h.type e he).1).2 t hw)
      · intro e t hin
        obtain ⟨he', hw⟩ | ⟨hawake, htokens⟩ := h.back e t hin
        · obtain hw' | ⟨hawake, hne⟩ := (hwait t).waiting e trivial hw
          · -- The task waits on, so it is another semaphore that is deleted.
            have hes : e ≠ sem := by
              rintro rfl
              have hmem := (hk.blk.mem_iff t e).2 hw'
              rw [hnil] at hmem
              cases hmem
            exact .inl ⟨(Function.update_of_ne hes ..).trans he', hw'⟩
          · exact .inr ⟨hawake, by rw [if_neg hne, (h.waiting e t he' hw).2]⟩
        · obtain ⟨hawake', hsame⟩ := (hwait t).woken hawake
          exact .inr ⟨hawake', by rw [hsame, htokens]⟩

/-- Setting the count changes the accounts by the difference. -/
theorem SemInv.countSet (h : SemInv s) (count : BitVec 32) :
    SemInv (krhinoSemCountSet s sem count).2 ∧ ∀ e, accounted e (krhinoSemCountSet s sem count).2 =
      accounted e s + if sem = e ∧ (krhinoSemCountSet s sem count).1 = .kstat .success then
        (count.toNat : ℤ) - (s.count e).toNat else 0 := by
  unfold krhinoSemCountSet
  split_ifs with hintrpt htype hfree
  · exact ⟨h, fun e => by simp⟩
  · exact ⟨h, fun e => by simp⟩
  · refine ⟨h.setCount fun he _ => hfree.elim (fun hpos => h.free sem he ?_) id, fun e => ?_⟩
    · exact (BitVec.pos_iff_ne_zero _).1 hpos
    · unfold SemKern.setCount
      rw [accounted_setCount]
      simp
  · exact ⟨h, fun e => by simp⟩

/-- **whatever else happens** in the kernel. -/
theorem SemInv.kernStep (h : SemInv s) {a : KernAct} (hcall : (∃ c, a = .call c) → s.MayCall)
    (hfirst : FirstDeletion s.kern a) (hc : semKernStep fuel s a = some s') :
    SemInv s' ∧ ∀ e, accounted e s' = accounted e s := by
  unfold semKernStep at hc
  split at hc
  case isTrue =>
    cases hc
    exact ⟨h, fun _ => rfl⟩
  case isFalse htype =>
    obtain ⟨k, hstep, rfl⟩ := Option.map_eq_some_iff.1 hc
    have huses : ∀ e, s.isSem e = true → ∀ c, a = .call c → ¬ UsesObj e c := by
      rintro e he c rfl huses
      apply htype
      cases c
      all_goals first
        | exact absurd huses id
        | (obtain rfl := (show _ = e from huses); exact he)
    refine ⟨h.setKern (kernStep_ok h.kern hstep) (kernStep_owned h.own h.kern hfirst hstep)
      (fun e he => kernStep_keeps h.kern (huses e he) hstep) (fun t hin => ?_), fun _ => rfl⟩
    refine kernStep_waitKept h.kern h.own
      (fun e he => ⟨(h.type e he).1, (h.type e he).2, huses e he⟩) hfirst (fun hcalls => ?_) hstep
    obtain hintrpt | ⟨-, hnone⟩ := hcall hcalls
    · exact .inr hintrpt
    · left
      rintro rfl
      exact hin hnone

end Calls

/-! ## Runs -/

section Runs

variable {s s' : SemKern} {fuel : ℕ}

/-- What a call leaves in the state. -/
theorem semCall_eq {ω : Type} {p : Prop} [Decidable p] {x : Option (ω × SemKern)}
    (h : (if p then x.map Prod.snd else none) = some s') : p ∧ ∃ st, x = some (st, s') := by
  split at h
  case isTrue hp =>
    obtain ⟨⟨st, s₁⟩, hx, rfl⟩ := Option.map_eq_some_iff.1 h
    exact ⟨hp, st, hx⟩
  case isFalse => cases h

/-- **every step** keeps the invariant, and the books agree with what it supplies. -/
theorem SemInv.step (h : SemInv s) {a : SemAct} (hfirst : FirstTaskDeletion s a)
    (hc : semStep fuel s a = some s') :
    SemInv s' ∧ ∀ sem, accounted sem s' = accounted sem s + supplies sem s a := by
  cases a with
  | create e count flag =>
    simp only [semStep] at hc
    split at hc
    case isTrue => exact h.create hc
    case isFalse => cases hc
  | del e flag =>
    obtain ⟨hcall, st, hc⟩ := semCall_eq hc
    obtain ⟨h', hacc⟩ := h.del hcall hc
    exact ⟨h', fun sem => (hacc sem).trans (add_zero _).symm⟩
  | give e =>
    obtain ⟨-, st, hc⟩ := semCall_eq hc
    exact h.give hc
  | giveAll e =>
    obtain ⟨-, st, hc⟩ := semCall_eq hc
    exact h.give hc
  | take e ticks =>
    obtain ⟨hcall, st, hc⟩ := semCall_eq hc
    obtain ⟨h', hacc⟩ := h.take hcall hc
    exact ⟨h', fun sem => (hacc sem).trans (add_zero _).symm⟩
  | takeReturn =>
    obtain ⟨⟨-, hrdy⟩, st, hc⟩ := semCall_eq hc
    obtain ⟨h', hacc⟩ := h.takeReturn hrdy hc
    exact ⟨h', fun sem => (hacc sem).trans (add_zero _).symm⟩
  | countSet e count =>
    simp only [semStep] at hc
    split at hc
    case isTrue =>
      cases hc
      exact h.countSet count
    case isFalse => cases hc
  | kern a =>
    have hkern : ((∃ c, a = .call c) → s.MayCall) ∧ semKernStep fuel s a = some s' := by
      cases a with
      | call c =>
        simp only [semStep] at hc
        split at hc
        case isTrue hcall => exact ⟨fun _ => hcall, hc⟩
        case isFalse => cases hc
      | _ => exact ⟨fun ⟨c, hac⟩ => (by cases hac), hc⟩
    obtain ⟨h', hacc⟩ := h.kernStep hkern.1 hfirst hkern.2
    exact ⟨h', fun sem => (hacc sem).trans (add_zero _).symm⟩

/-- The invariant holds at the start. -/
theorem semStart_inv : SemInv semStart where
  kern := krhinoStart_ok
  own := krhinoStart_owned
  type _ he := by cases he
  free _ he _ := by cases he
  waiting _ _ he _ := by cases he
  back _ _ hin := by cases hin
  handed _ _ hin _ := by cases hin
  takes _ hr := by cases hr

/-- Waking all tasks leaves the counts. -/
theorem semWakeAll_count {sem : ℕ} (hc : semWakeAll fuel s sem = some s') : s'.count = s.count := by
  induction fuel generalizing s with
  | zero => cases hc
  | succ fuel ih =>
    unfold semWakeAll at hc
    split at hc
    case h_1 =>
      cases hc
      rfl
    case h_2 =>
      split at hc
      case h_1 => cases hc
      case h_2 s₁ hwake =>
        obtain ⟨k, -, rfl⟩ := Option.map_eq_some_iff.1 hwake
        have hrest := ih hc
        exact hrest

/-- One count is written. -/
theorem count_cases (s : SemKern) (sem e : ℕ) (n : BitVec 32) :
    Function.update s.count e n sem = s.count sem ∨
      (e = sem ∧ Function.update s.count e n sem = n) := by
  by_cases heq : e = sem
  · subst heq
    exact .inr ⟨rfl, Function.update_self ..⟩
  · exact .inl (Function.update_of_ne (Ne.symm heq) ..)

/-- Giving adds one token, or none. -/
theorem semGive_count {sem e : ℕ} {all : Bool} {st : KStat}
    (hc : semGive fuel s e all = some (st, s')) :
    s'.count sem = s.count sem ∨ (e = sem ∧ (s'.count sem).toNat = (s.count sem).toNat + 1) := by
  unfold semGive at hc
  split at hc
  case isTrue =>
    cases hc
    exact .inl rfl
  case isFalse =>
    split at hc
    case h_1 =>
      split at hc
      case isTrue =>
        cases hc
        exact .inl rfl
      case isFalse hfull =>
        cases hc
        refine (count_cases s sem e (s.count e + 1)).imp_right fun ⟨heq, hn⟩ => ⟨heq, ?_⟩
        subst heq
        exact (congrArg BitVec.toNat hn).trans (toNat_add_one hfull)
    case h_2 =>
      left
      obtain ⟨s₁, hwake, heq⟩ := Option.map_eq_some_iff.1 hc
      cases heq
      split at hwake
      case isTrue => rw [semWakeAll_count hwake]
      case isFalse =>
        obtain ⟨k, -, rfl⟩ := Option.map_eq_some_iff.1 hwake
        rfl

/-- Taking removes one token, or none. -/
theorem krhinoSemTake_count {sem e ticks : ℕ} {st : Option KStat}
    (hc : krhinoSemTake s e ticks = some (st, s')) :
    s'.count sem = s.count sem ∨ (e = sem ∧ (s'.count sem).toNat + 1 = (s.count sem).toNat) := by
  unfold krhinoSemTake at hc
  simp only at hc
  split_ifs at hc with hintrpt htype hcount hticks hlock
  · cases hc
    exact .inl rfl
  · cases hc
    exact .inl rfl
  · cases hc
    refine (count_cases s sem e (s.count e - 1)).imp_right fun ⟨heq, hn⟩ => ⟨heq, ?_⟩
    subst heq
    exact (congrArg (BitVec.toNat · + 1) hn).trans (toNat_sub_one hcount)
  · cases hc
    exact .inl rfl
  · cases hc
    exact .inl rfl
  · split at hc
    case h_1 => cases hc
    case h_2 =>
      cases hc
      exact .inl rfl

/-- **no count wraps**, in any state. -/
theorem semStep_countMoves {a : SemAct} (hc : semStep fuel s a = some s') (sem : ℕ) :
    CountMoves sem s s' a := by
  have hkern : ∀ a, semKernStep fuel s a = some s' → s'.count sem = s.count sem := by
    intro a hc
    unfold semKernStep at hc
    split at hc
    case isTrue =>
      cases hc
      rfl
    case isFalse =>
      obtain ⟨k, -, rfl⟩ := Option.map_eq_some_iff.1 hc
      rfl
  cases a with
  | create e count flag =>
    simp only [semStep, semCreate] at hc
    split_ifs at hc
    cases hc
    exact count_cases s sem e count
  | del e flag =>
    obtain ⟨-, st, hc⟩ := semCall_eq hc
    unfold semDel at hc
    split_ifs at hc
    all_goals try (cases hc; rfl)
    simp only at hc
    split at hc
    case h_1 => cases hc
    case h_2 =>
      cases hc
      rfl
  | give e =>
    obtain ⟨-, st, hc⟩ := semCall_eq hc
    exact semGive_count hc
  | giveAll e =>
    obtain ⟨-, st, hc⟩ := semCall_eq hc
    exact semGive_count hc
  | take e ticks =>
    obtain ⟨-, st, hc⟩ := semCall_eq hc
    exact krhinoSemTake_count hc
  | takeReturn =>
    obtain ⟨-, st, hc⟩ := semCall_eq hc
    unfold semTakeReturn at hc
    simp only at hc
    split at hc
    case h_1 => cases hc
    case h_2 =>
      cases hc
      rfl
  | countSet e count =>
    simp only [semStep] at hc
    split at hc
    case isTrue =>
      cases hc
      unfold krhinoSemCountSet
      split_ifs
      · exact .inl rfl
      · exact .inl rfl
      · exact count_cases s sem e count
      · exact .inl rfl
    case isFalse => cases hc
  | kern a =>
    cases a with
    | call c =>
      simp only [semStep] at hc
      split at hc
      case isTrue => exact hkern _ hc
      case isFalse => cases hc
    | intrptEnter => exact hkern _ hc
    | intrptExit => exact hkern _ hc
    | coreSched => exact hkern _ hc

end Runs

/-- **Token conservation.** In every state that a run reaches in which no task is deleted twice: nobody
waits for a semaphore whose count is not 0; the tokens supplied so far are those in the count, those
that the returned takes got and those on the way; a take that returned got one token if it succeeded
and none otherwise; and no step makes the count wrap. -/
theorem sem_tokens (fuel : ℕ) (acts : List SemAct) (s : SemKern)
    (hmeet : StepsMeet (semStep fuel) FirstTaskDeletion semStart acts)
    (hrun : runSteps (semStep fuel) semStart acts = some s) (sem : ℕ) :
    (s.isSem sem = true → s.count sem ≠ 0 →
      (s.kern.objs sem).blkList = [] ∧ ∀ t, waitsFor (s.kern.tasks t) ≠ some sem) ∧
    sumSteps (semStep fuel) (supplies sem) semStart acts =
      (s.count sem).toNat + taken s sem + onTheWay s sem ∧
    (∀ r ∈ s.takes, r.tokens = if r.stat = .success then 1 else 0) ∧
    ∀ a s', semStep fuel s a = some s' → CountMoves sem s s' a := by
  have h : SemInv s := runSteps_inv (fun _ _ _ hi hfirst hc => (hi.step hfirst hc).1) semStart_inv
    hmeet hrun
  refine ⟨fun he hne => ?_, ?_, h.takes, fun a s' hc => semStep_countMoves hc sem⟩
  · have hnil := h.free sem he hne
    refine ⟨hnil, fun t ht => ?_⟩
    rw [← h.mem_blkList, hnil] at ht
    cases ht
  · have hsum := runSteps_sum (I := SemInv) (M := accounted sem) (d := supplies sem)
      (fun _ _ _ hi hfirst hc => ⟨(hi.step hfirst hc).1, (hi.step hfirst hc).2 sem⟩) semStart_inv
      hmeet hrun
    have hstart : accounted sem semStart = 0 := rfl
    rw [hstart, zero_add] at hsum
    exact hsum.symm

/-- A task takes the one token of a semaphore, waits for a second one and gets it from the idle task. -/
theorem sem_tokens_two : ∃ s, runSteps (semStep 9) semStart
      [.kern (.call (.taskCreate 1 10 0 true .staticAlloc)), .kern .coreSched,
        .create 1 1 .staticAlloc, .take 1 0, .take 1 waitForever, .kern .coreSched, .give 1,
        .kern .coreSched, .takeReturn] = some s ∧
    s.takes = [⟨1, 1, .success, 1⟩, ⟨1, 1, .success, 1⟩] ∧
    sumSteps (semStep 9) (supplies 1) semStart
      [.kern (.call (.taskCreate 1 10 0 true .staticAlloc)), .kern .coreSched,
        .create 1 1 .staticAlloc, .take 1 0, .take 1 waitForever, .kern .coreSched, .give 1,
        .kern .coreSched, .takeReturn] = 2 ∧
    (∀ r ∈ s.takes, r.tokens = if r.stat = .success then 1 else 0) ∧
    ∀ a s', semStep 9 s a = some s' → CountMoves 1 s s' a := by
  obtain ⟨s, hrun, htakes, hacc⟩ : ∃ s, runSteps (semStep 9) semStart
      [.kern (.call (.taskCreate 1 10 0 true .staticAlloc)), .kern .coreSched,
        .create 1 1 .staticAlloc, .take 1 0, .take 1 waitForever, .kern .coreSched, .give 1,
        .kern .coreSched, .takeReturn] = some s ∧
      s.takes = [⟨1, 1, .success, 1⟩, ⟨1, 1, .success, 1⟩] ∧
      ((s.count 1).toNat + taken s 1 + onTheWay s 1 : ℤ) = 2 := ⟨_, rfl, rfl, rfl⟩
  obtain ⟨-, hsum, hall, hmoves⟩ := sem_tokens 9 _ s
    (stepsMeet_of_forall (by simp [FirstTaskDeletion, FirstDeletion]) _) hrun 1
  exact ⟨s, hrun, htakes, hsum.trans hacc, hall, hmoves⟩

end GenieSdk.Analysis.Rhino
