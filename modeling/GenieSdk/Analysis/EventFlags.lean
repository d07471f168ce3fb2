import GenieSdk.Analysis.EventWaiters
import GenieSdk.Model.EventFlag

/-!
# Event flags

A task that waits for an event is woken as soon as its condition holds: **in every reachable state no
waiting task has its condition met, and a call of `krhino_event_set` wakes exactly the tasks whose
condition the new flags meet**, whatever their order, and clears the flags of those that ask for it
(`event_flags`).
-/

set_option autoImplicit false

namespace GenieSdk.Analysis.Rhino

open GenieSdk.Model.Rhino GenieSdk.Lib
open GenieSdk.Model (AllocFlag BlkState KStat)

/-! ## What is claimed -/

/-- What the task waits for is met by `cur`. -/
def Met (s : EventKern) (cur : BitVec 32) (t : ℕ) : Bool := flagsMet cur (s.pendOption t) (s.pendFlags t)

/-- The task asks for its flags to be cleared. -/
def Clears (s : EventKern) (t : ℕ) : Bool := s.pendOption t &&& flagsClearMask ≠ 0

/-- The flags less those of a task. -/
def clearFor (s : EventKern) (f : BitVec 32) (t : ℕ) : BitVec 32 := f &&& ~~~(s.pendFlags t)

/-- The task was woken: it waits for nothing, and its call returns success. -/
structure Woken (t t' : KTask) : Prop where
  taskState : t'.taskState = if t.taskState = .pend then .rdy else .suspended
  blkState : t'.blkState = .finish
  blkObj : t'.blkObj = none

/-- A call leads from `s` to `s'`; `cur` are the flags as it sets them. -/
structure SetWakes (s s' : EventKern) (event : ℕ) (cur : BitVec 32) : Prop where
  waiting : ∀ t, t ∈ (s'.kern.objs event).blkList ↔
    t ∈ (s.kern.objs event).blkList ∧ Met s cur t = false
  woken : ∀ t ∈ (s.kern.objs event).blkList, Met s cur t = true →
    Woken (s.kern.tasks t) (s'.kern.tasks t) ∧ s'.actlFlags t = cur
  others : ∀ t, ¬ (t ∈ (s.kern.objs event).blkList ∧ Met s cur t = true) →
    s'.kern.tasks t = s.kern.tasks t ∧ s'.actlFlags t = s.actlFlags t
  flags : ∀ ts : List ℕ, ts.Perm ((s.kern.objs event).blkList.filter fun t => Met s cur t && Clears s t) →
    s'.flags event = ts.foldl (clearFor s) cur
  otherFlags : ∀ e, e ≠ event → s'.flags e = s.flags e

/-! ## Conditions -/

section Flags

variable {a x : BitVec 32} {opt : UInt8} {f : BitVec 32}

/-- What fewer flags meet, more flags meet. -/
theorem flagsMet_of_and (h : flagsMet (a &&& x) opt f = true) : flagsMet a opt f = true := by
  unfold flagsMet at h ⊢
  split at h
  case isTrue hand =>
    rw [if_pos hand]
    simp only [decide_eq_true_eq] at h ⊢
    rw [← h]
    ext i hi
    simp only [BitVec.getElem_and]
    cases a[i] <;> simp
  case isFalse hor =>
    rw [if_neg hor]
    simp only [ne_eq, decide_eq_true_eq] at h ⊢
    intro hz
    apply h
    rw [BitVec.and_assoc, BitVec.and_comm x f, ← BitVec.and_assoc, hz]
    simp

/-- Fewer flags meet no condition that was not met. -/
theorem flagsMet_and_eq_false (h : flagsMet a opt f = false) : flagsMet (a &&& x) opt f = false := by
  by_contra hc
  rw [flagsMet_of_and (by simpa using hc)] at h
  cases h

/-- The clears commute. -/
theorem clearFor_comm (s : EventKern) (f : BitVec 32) (t u : ℕ) :
    clearFor s (clearFor s f t) u = clearFor s (clearFor s f u) t := by
  unfold clearFor
  rw [BitVec.and_assoc, BitVec.and_comm (~~~(s.pendFlags t)), ← BitVec.and_assoc]

/-- Clearing for several tasks clears some flags. -/
theorem foldl_clearFor (s : EventKern) (ts : List ℕ) (f : BitVec 32) :
    ∃ y, ts.foldl (clearFor s) f = f &&& y := by
  induction ts generalizing f with
  | nil => exact ⟨BitVec.allOnes 32, BitVec.and_allOnes.symm⟩
  | cons t ts ih =>
    obtain ⟨y, hy⟩ := ih (clearFor s f t)
    refine ⟨~~~(s.pendFlags t) &&& y, ?_⟩
    rw [List.foldl_cons, hy, clearFor, BitVec.and_assoc]

end Flags

/-! ## Waking -/

section Wake

variable {k k' : Kern} {t : ℕ} {del : Option ℕ}

/-- A task that waits is woken. -/
theorem pendTaskWakeup_spec (hpend : Pending (k.tasks t)) :
    ∃ k' t', pendTaskWakeup k t = some k' ∧ k'.tasks = Function.update k.tasks t t' ∧
      Woken (k.tasks t) t' := by
  unfold pendTaskWakeup pendTaskEnd
  obtain hs | hs := hpend
  · simp only [hs]
    exact ⟨_, { k.tasks t with
      taskState := .rdy, tickHead := false, blkState := .finish, blkObj := none }, rfl, by simp,
      ⟨by simp [hs], rfl, rfl⟩⟩
  · simp only [hs]
    exact ⟨_, { k.tasks t with
      taskState := .suspended, tickHead := false, blkState := .finish, blkObj := none }, rfl, by simp,
      ⟨by simp [hs], rfl, rfl⟩⟩

/-- A woken task waits for nothing. -/
theorem Woken.waitsFor {a b : KTask} (h : Woken a b) : waitsFor b = none := by
  unfold Rhino.waitsFor
  split
  · exact h.blkObj
  · rfl

/-- The tasks that wait for an object are those of its list. -/
theorem KernOk.mem_blkList (h : KernOk k del) {e : ℕ} :
    t ∈ (k.objs e).blkList ↔ Rhino.waitsFor (k.tasks t) = some e := h.blk.mem_iff t e

/-- A task that waits for an object is blocked. -/
theorem pending_of_waitsFor {a : KTask} {e : ℕ} (h : Rhino.waitsFor a = some e) : Pending a := by
  unfold Rhino.waitsFor at h
  split at h
  · assumption
  · cases h

/-- A walk over waiting tasks ends, wakes those whose condition is met, and clears what they
ask for. -/
structure WalkSpec (cur : BitVec 32) (event : ℕ) (s : EventKern) (l : List ℕ) (s' : EventKern) :
    Prop where
  kern : KernOk s'.kern none
  isEvent : s'.isEvent = s.isEvent
  pendOption : s'.pendOption = s.pendOption
  pendFlags : s'.pendFlags = s.pendFlags
  keeps : ∀ obj, KeepsWaiters obj s.kern s'.kern
  woken : ∀ t ∈ l, Met s cur t = true →
    Woken (s.kern.tasks t) (s'.kern.tasks t) ∧ s'.actlFlags t = cur
  others : ∀ t, ¬ (t ∈ l ∧ Met s cur t = true) →
    s'.kern.tasks t = s.kern.tasks t ∧ s'.actlFlags t = s.actlFlags t
  flags : s'.flags event =
    (l.filter fun t => Met s cur t && Clears s t).foldl (clearFor s) (s.flags event)
  otherFlags : ∀ e, e ≠ event → s'.flags e = s.flags e

/-- What is left of a round when a task is woken in it. -/
def wakeOne (cur : BitVec 32) (event : ℕ) (s : EventKern) (k : Kern) (t : ℕ) : EventKern :=
  let s := { s with kern := k, actlFlags := Function.update s.actlFlags t cur }
  if s.pendOption t &&& flagsClearMask ≠ 0 then
    { s with flags := Function.update s.flags event (s.flags event &&& ~~~(s.pendFlags t)) }
  else s

/-- Waking one task, and what its condition clears. -/
theorem wakeOne_eq (cur : BitVec 32) (event : ℕ) (s : EventKern) (k : Kern) (t : ℕ) :
    wakeOne cur event s k t = { s with
      kern := k
      actlFlags := Function.update s.actlFlags t cur
      flags := if Clears s t then Function.update s.flags event (clearFor s (s.flags event) t)
        else s.flags } := by
  unfold wakeOne Clears clearFor
  by_cases hclr : s.pendOption t &&& flagsClearMask ≠ 0
  · simp [hclr]
  · simp [hclr]

/-- The walk over the tasks that wait wakes those whose condition is met. -/
theorem eventSetLoop_spec {cur : BitVec 32} {event : ℕ} {l : List ℕ} (hnd : l.Nodup) {s : EventKern}
    (hk : KernOk s.kern none) (hpend : ∀ t ∈ l, Pending (s.kern.tasks t)) :
    ∃ s', eventSetLoop cur event s l = some s' ∧ WalkSpec cur event s l s' := by
  induction l generalizing s with
  | nil =>
    exact ⟨s, rfl, hk, rfl, rfl, rfl, fun _ => .refl _ _, fun _ h => absurd h (by simp),
      fun _ _ => ⟨rfl, rfl⟩, rfl, fun _ _ => rfl⟩
  | cons t rest ih =>
    obtain ⟨hnot, hnd⟩ := List.nodup_cons.1 hnd
    by_cases hmet : Met s cur t = true
    · obtain ⟨k, t', hwake, htasks, hwoken⟩ := pendTaskWakeup_spec (hpend t (by simp))
      have hk' : KernOk k none := pendTaskEnd_ok hk hwake
      have hpend' : ∀ u ∈ rest, Pending ((wakeOne cur event s k t).kern.tasks u) := by
        intro u hu
        rw [wakeOne_eq]
        simp only [htasks]
        rw [Function.update_of_ne (by rintro rfl; exact hnot hu)]
        exact hpend u (List.mem_cons_of_mem _ hu)
      obtain ⟨s', hloop, hspec⟩ := @ih hnd (wakeOne cur event s k t) (by rw [wakeOne_eq]; exact hk')
        hpend'
      refine ⟨s', ?_, ?_⟩
      · rw [eventSetLoop, if_pos (show flagsMet _ _ _ = true from hmet), hwake]
        exact hloop
      · have hne : ∀ u, u ≠ t → k.tasks u = s.kern.tasks u := by
          intro u hu
          rw [htasks, Function.update_of_ne hu]
        generalize hs₁ : wakeOne cur event s k t = s₁ at hspec
        rw [wakeOne_eq] at hs₁
        subst hs₁
        refine ⟨hspec.kern, hspec.isEvent, hspec.pendOption, hspec.pendFlags,
          fun obj => (pendTaskEnd_keeps hwake).trans (hspec.keeps obj), ?_, ?_, ?_, ?_⟩
        · intro u hu hmu
          by_cases hut : u = t
          · subst hut
            obtain ⟨htask, hactl⟩ := hspec.others u fun h => hnot h.1
            rw [htask, hactl, htasks, Function.update_self]
            exact ⟨hwoken, Function.update_self ..⟩
          · obtain ⟨hw, hactl⟩ := hspec.woken u ((List.mem_cons.1 hu).resolve_left hut) hmu
            rw [hne u hut] at hw
            exact ⟨hw, hactl⟩
        · intro u hu
          have hut : u ≠ t := by
            rintro rfl
            exact hu ⟨List.mem_cons_self, hmet⟩
          obtain ⟨htask, hactl⟩ := hspec.others u fun h => hu ⟨List.mem_cons_of_mem _ h.1, h.2⟩
          rw [hne u hut] at htask
          exact ⟨htask, hactl.trans (Function.update_of_ne hut ..)⟩
        · rw [hspec.flags]
          by_cases hclr : Clears s t = true
          · rw [List.filter_cons_of_pos (by simp [hmet, hclr]), List.foldl_cons]
            simp only [hclr, if_true, Function.update_self]
            rfl
          · rw [List.filter_cons_of_neg (by simp [hclr])]
            simp only [if_neg hclr]
            rfl
        · intro e he
          rw [hspec.otherFlags e he]
          by_cases hclr : Clears s t = true
          · simp [hclr, Function.update_of_ne he]
          · simp [hclr]
    · obtain ⟨s', hloop, hspec⟩ := ih hnd hk fun u hu => hpend u (List.mem_cons_of_mem _ hu)
      refine ⟨s', ?_, hspec.kern, hspec.isEvent, hspec.pendOption, hspec.pendFlags, hspec.keeps, ?_,
        ?_, ?_, hspec.otherFlags⟩
      · rw [eventSetLoop, if_neg (show ¬ flagsMet _ _ _ = true from hmet)]
        exact hloop
      · intro u hu hmu
        rcases List.mem_cons.1 hu with rfl | hu
        · exact absurd hmu hmet
        · exact hspec.woken u hu hmu
      · intro u hu
        exact hspec.others u fun h => hu ⟨List.mem_cons_of_mem _ h.1, h.2⟩
      · rw [hspec.flags, List.filter_cons_of_neg (by simp [hmet])]

end Wake

/-! ## Runs -/

/-- No task that waits for an event has its condition met. -/
structure EventInv (s : EventKern) : Prop where
  kern : KernOk s.kern none
  type : ∀ e, s.isEvent e = true → (s.kern.objs e).objType = .other
  unmet : ∀ e t, s.isEvent e = true → waitsFor (s.kern.tasks t) = some e → Met s (s.flags e) t = false

section Steps

variable {s s' : EventKern} {event fuel : ℕ} {flags : BitVec 32} {opt : UInt8}

/-- A step of the kernel brings no task to wait for an event. -/
theorem EventInv.setKern (h : EventInv s) {k : Kern} (hk : KernOk k none)
    (hkeeps : ∀ e, s.isEvent e = true → KeepsWaiters e s.kern k) : EventInv { s with kern := k } where
  kern := hk
  type e he := (hkeeps e he (h.type e he)).1
  unmet e t he ht := h.unmet e t he ((hkeeps e he (h.type e he)).2 t ht)

/-- The invariant holds on over a step of the kernel. -/
theorem EventInv.kernStep (h : EventInv s) {a : KernAct}
    (hc : eventStep fuel s (.kern a) = some s') : EventInv s' := by
  simp only [eventStep] at hc
  split at hc
  case isTrue =>
    cases hc
    exact h
  case isFalse htype =>
    obtain ⟨k, hk, rfl⟩ := Option.map_eq_some_iff.1 hc
    refine h.setKern (kernStep_ok h.kern hk) fun e he => kernStep_keeps h.kern ?_ hk
    rintro c rfl huses
    apply htype
    cases c
    all_goals first
      | exact absurd huses id
      | (obtain rfl := (show _ = e from huses); exact he)

/-- And when an event is created. -/
theorem EventInv.create (h : EventInv s) {flag : AllocFlag}
    (hc : eventCreate s event flags flag = some s') : EventInv s' := by
  unfold eventCreate at hc
  split at hc
  case isTrue => cases hc
  case isFalse hfree =>
    cases hc
    have hdead := h.kern.dead event (not_not.1 hfree) (by simp)
    refine ⟨h.kern.setObj event _ (by rw [hdead]) (fun hnone => by cases hnone), ?_, ?_⟩
    · intro e he
      simp only [setObj_objs, Function.update_apply] at he ⊢
      split at he
      case isTrue heq => rw [if_pos heq]
      case isFalse hne =>
        rw [if_neg hne]
        exact h.type e he
    · intro e t he ht
      have hne : e ≠ event := by
        rintro rfl
        have hmem := h.kern.mem_blkList.2 ht
        rw [hdead] at hmem
        cases hmem
      simp only [Function.update_of_ne hne] at he ⊢
      exact h.unmet e t he ht

/-- And when an event is deleted. -/
theorem EventInv.del (h : EventInv s) {flag : AllocFlag} {st : EventStat}
    (hc : eventDel fuel s event flag = some (st, s')) : EventInv s' := by
  unfold eventDel at hc
  split_ifs at hc with hintrpt htype hflag
  · cases hc
    exact h
  · cases hc
    exact h
  · cases hc
    exact h
  · simp only at hc
    split at hc
    case h_1 => cases hc
    case h_2 k hall =>
      cases hc
      obtain ⟨hk, hnil⟩ := pendTaskRmAll_ok (h.kern.beginDel event) hall
      have hkeeps : ∀ e, e ≠ event → KeepsWaiters e s.kern k := by
        intro e hne
        have hclear : KeepsWaiters e s.kern
            (s.kern.setObj event { s.kern.objs event with objType := .none }) := by
          intro hobj
          rw [setObj_objs, Function.update_of_ne hne]
          exact ⟨hobj, fun _ ht => ht⟩
        exact hclear.trans (pendTaskRmAll_keeps hall)
      have hother : ∀ e, Function.update s.isEvent event false e = true →
          e ≠ event ∧ s.isEvent e = true := by
        intro e he
        rw [Function.update_apply] at he
        split at he
        case isTrue => cases he
        case isFalse hne => exact ⟨hne, he⟩
      refine ⟨hk.endDel hnil, ?_, ?_⟩
      · intro e he
        obtain ⟨hne, he⟩ := hother e he
        exact (hkeeps e hne (h.type e he)).1
      · intro e t he ht
        obtain ⟨hne, he⟩ := hother e he
        have hunmet := h.unmet e t he ((hkeeps e hne (h.type e he)).2 t ht)
        unfold Met at hunmet ⊢
        simp only [Function.update_of_ne hne]
        exact hunmet

/-- An event gets fewer flags. -/
theorem EventInv.fewer (h : EventInv s) (x : BitVec 32) (actl : ℕ → BitVec 32) :
    EventInv { s with
      actlFlags := actl, flags := Function.update s.flags event (s.flags event &&& x) } where
  kern := h.kern
  type := h.type
  unmet e t he ht := by
    have hunmet := h.unmet e t he ht
    unfold Met at hunmet ⊢
    simp only [Function.update_apply]
    split
    case isTrue heq =>
      rw [heq] at hunmet
      exact flagsMet_and_eq_false hunmet
    case isFalse => exact hunmet

/-- And when a task asks for flags. -/
theorem EventInv.get (h : EventInv s) {ticks : ℕ} {st : Option EventStat}
    (hrun : 0 < s.kern.intrptLevel ∨ (s.kern.tasks s.kern.active).taskState = .rdy)
    (hc : krhinoEventGet s event flags opt ticks = some (st, s')) : EventInv s' := by
  unfold krhinoEventGet at hc
  split_ifs at hc with hopt hintrpt htype hmet hclr hticks hlock
  · cases hc
    exact h
  · cases hc
    exact h
  · cases hc
    exact h
  · cases hc
    exact h.fewer _ _
  · cases hc
    exact ⟨h.kern, h.type, h.unmet⟩
  · cases hc
    exact h
  · cases hc
    exact h
  · split at hc
    case h_1 => cases hc
    case h_2 k hpend =>
      cases hc
      have hrdy := hrun.resolve_left hintrpt
      have hpos := Nat.pos_of_ne_zero hticks
      have hevent : (s.kern.objs event).objType = .other := h.type event (by simpa using htype)
      obtain ⟨hwaits, hsame, htypes⟩ := pendToBlkObj_tasks hpos hpend
      refine ⟨pendToBlkObj_ok h.kern hrdy hpos (by simp [hevent]) hpend,
        fun e he => (htypes e).trans (h.type e he), fun e t he ht => ?_⟩
      unfold Met
      by_cases hact : t = s.kern.active
      · subst hact
        obtain rfl : event = e := Option.some.inj (hwaits.symm.trans ht)
        simpa using hmet
      · simp only [Function.update_of_ne hact]
        rw [hsame t hact] at ht
        exact h.unmet e t he ht

/-- The flags as a call of `krhino_event_set` sets them. -/
def setFlags (s : EventKern) (event : ℕ) (flags : BitVec 32) (opt : UInt8) : BitVec 32 :=
  if opt = optAnd then s.flags event &&& flags else s.flags event ||| flags

/-- **One call of `krhino_event_set`.** -/
theorem EventInv.set (h : EventInv s) (he : s.isEvent event = true)
    (hopt : opt = optAnd ∨ opt = optOr) : ∃ s', krhinoEventSet s event flags opt =
      some (.kstat .success, s') ∧ SetWakes s s' event (setFlags s event flags opt) ∧ EventInv s' := by
  unfold krhinoEventSet eventSet setFlags
  rw [if_neg (by tauto), if_neg (by simp [he])]
  obtain rfl | rfl := hopt
  · -- Fewer flags: nothing is met that was not met before.
    rw [if_pos (by decide), if_pos rfl]
    have hnone : ∀ t ∈ (s.kern.objs event).blkList, Met s (s.flags event &&& flags) t = false :=
      fun t ht => flagsMet_and_eq_false (h.unmet event t he (h.kern.mem_blkList.1 ht))
    refine ⟨_, rfl, ⟨fun t => ?_, fun t ht hm => ?_, fun _ _ => ⟨rfl, rfl⟩, fun ts hts => ?_,
      fun e hne => Function.update_of_ne hne ..⟩, h.fewer flags s.actlFlags⟩
    · exact ⟨fun ht => ⟨ht, hnone t ht⟩, fun ht => ht.1⟩
    · rw [hnone t ht] at hm
      cases hm
    · rw [List.filter_eq_nil_iff.2 (fun t ht => by simp [hnone t ht])] at hts
      rw [hts.eq_nil]
      exact Function.update_self ..
  · rw [if_neg (by decide), if_neg (by decide)]
    generalize s.flags event ||| flags = cur
    have hmem : ∀ t, t ∈ (s.kern.objs event).blkList ↔ waitsFor (s.kern.tasks t) = some event :=
      fun t => h.kern.mem_blkList
    obtain ⟨s', hloop, hspec⟩ := @eventSetLoop_spec cur event _ (h.kern.blk.nodup event)
      { s with flags := Function.update s.flags event cur } h.kern
      fun t ht => pending_of_waitsFor ((hmem t).1 ht)
    have hflags : ∃ y, s'.flags event = cur &&& y := by
      rw [hspec.flags]
      simp only [Function.update_self]
      exact foldl_clearFor _ _ _
    have hkeep : ∀ e t, s.isEvent e = true → waitsFor (s'.kern.tasks t) = some e →
        waitsFor (s.kern.tasks t) = some e := fun e t he => (hspec.keeps e (h.type e he)).2 t
    -- Whoever waits afterwards has waited before, and was not woken.
    have hstill : ∀ t, waitsFor (s'.kern.tasks t) = some event → Met s cur t = false := by
      intro t ht
      by_contra hm
      have hm : Met s cur t = true := by simpa using hm
      have hw := hspec.woken t ((hmem t).2 (hkeep event t he ht)) hm
      rw [hw.1.waitsFor] at ht
      cases ht
    refine ⟨s', ?_, ⟨fun t => ?_, hspec.woken, hspec.others, fun ts hts => ?_, fun e hne => ?_⟩,
      hspec.kern, fun e hev => ?_, fun e t hev ht => ?_⟩
    · simp [hloop]
    · rw [hspec.kern.mem_blkList, hmem]
      refine ⟨fun ht => ⟨hkeep event t he ht, hstill t ht⟩, fun ⟨ht, hm⟩ => ?_⟩
      rw [(hspec.others t fun hc => by rw [show Met s cur t = true from hc.2] at hm; cases hm).1]
      exact ht
    · have hf := hspec.flags
      simp only [Function.update_self] at hf
      rw [hts.foldl_eq' (fun t _ u _ f => clearFor_comm s f t u)]
      exact hf
    · rw [hspec.otherFlags e hne]
      exact Function.update_of_ne hne ..
    · rw [hspec.isEvent] at hev
      exact (hspec.keeps e (h.type e hev)).1
    · rw [hspec.isEvent] at hev
      unfold Met
      rw [hspec.pendOption, hspec.pendFlags]
      by_cases hne : e = event
      · subst hne
        obtain ⟨y, hy⟩ := hflags
        rw [hy]
        exact flagsMet_and_eq_false (hstill t ht)
      · rw [hspec.otherFlags e hne]
        simp only [Function.update_of_ne hne]
        exact h.unmet e t hev (hkeep e t hev ht)

/-- Every step keeps the invariant. -/
theorem EventInv.step (h : EventInv s) {a : EventAct} (hc : eventStep fuel s a = some s') :
    EventInv s' := by
  cases a with
  | create event flags flag => exact h.create hc
  | del event flag =>
    obtain ⟨⟨st, s₁⟩, hdel, rfl⟩ := Option.map_eq_some_iff.1 hc
    exact h.del hdel
  | get event flags opt ticks =>
    simp only [eventStep] at hc
    split at hc
    case isTrue hrun =>
      obtain ⟨⟨st, s₁⟩, hget, rfl⟩ := Option.map_eq_some_iff.1 hc
      exact h.get hrun hget
    case isFalse => cases hc
  | set event flags opt =>
    obtain ⟨⟨st, s₁⟩, hset, rfl⟩ := Option.map_eq_some_iff.1 hc
    by_cases hopt : opt = optAnd ∨ opt = optOr
    · by_cases he : s.isEvent event = true
      · obtain ⟨s', hs', -, hinv⟩ := @EventInv.set s event flags opt h he hopt
        cases hs'.symm.trans hset
        exact hinv
      · unfold krhinoEventSet eventSet at hset
        rw [if_neg (by tauto), if_pos (by simpa using he)] at hset
        cases hset
        exact h
    · unfold krhinoEventSet at hset
      rw [if_pos (by tauto)] at hset
      cases hset
      exact h
  | kern a => exact h.kernStep hc

/-- The invariant holds at the start. -/
theorem eventStart_inv : EventInv eventStart :=
  ⟨krhinoStart_ok, fun _ he => (by cases he), fun _ _ he => (by cases he)⟩

end Steps

/-- **Event flags.** In every state that a run of calls reaches, no task that waits for an event has its
condition met by the event's flags; and the next `krhino_event_set`, whichever it is, sets the flags,
wakes exactly the waiting tasks whose condition they meet, and leaves the flags less what the woken tasks
ask to be cleared, taken in any order. -/
theorem event_flags (fuel : ℕ) (acts : List EventAct) (s : EventKern)
    (hrun : runSteps (eventStep fuel) eventStart acts = some s) (event : ℕ)
    (he : s.isEvent event = true) :
    (∀ t ∈ (s.kern.objs event).blkList, Met s (s.flags event) t = false) ∧
      ∀ (flags : BitVec 32) (opt : UInt8), opt = optAnd ∨ opt = optOr →
        ∃ s', krhinoEventSet s event flags opt = some (.kstat .success, s') ∧
          SetWakes s s' event (setFlags s event flags opt) := by
  have h : EventInv s := runSteps_inv (P := fun _ _ => True) (fun _ _ _ hi _ hc => hi.step hc)
    eventStart_inv (stepsMeet_of_forall (fun _ _ _ => trivial) _) hrun
  refine ⟨fun t ht => h.unmet event t he (h.kern.mem_blkList.1 ht), fun flags opt hopt => ?_⟩
  obtain ⟨s', hset, hwakes, -⟩ := @EventInv.set s event flags opt h he hopt
  exact ⟨s', hset, hwakes⟩

/-- A task waits for two flags of an event, one of which is set. -/
theorem event_flags_pair : ∃ s, runSteps (eventStep 9) eventStart
      [.kern (.call (.taskCreate 1 10 0 true .staticAlloc)), .kern .coreSched,
        .create 1 4 .staticAlloc, .get 1 6 optAndClear waitForever, .kern .coreSched] = some s ∧
    s.isEvent 1 = true ∧ (s.kern.objs 1).blkList = [1] ∧
    (∀ t ∈ (s.kern.objs 1).blkList, Met s (s.flags 1) t = false) ∧
    ∀ (flags : BitVec 32) (opt : UInt8), opt = optAnd ∨ opt = optOr →
      ∃ s', krhinoEventSet s 1 flags opt = some (.kstat .success, s') ∧
        SetWakes s s' 1 (setFlags s 1 flags opt) := by
  obtain ⟨s, hrun, he, hlist⟩ : ∃ s, runSteps (eventStep 9) eventStart
      [.kern (.call (.taskCreate 1 10 0 true .staticAlloc)), .kern .coreSched,
        .create 1 4 .staticAlloc, .get 1 6 optAndClear waitForever, .kern .coreSched] = some s ∧
      s.isEvent 1 = true ∧ (s.kern.objs 1).blkList = [1] := ⟨_, rfl, rfl, rfl⟩
  obtain ⟨hunmet, hset⟩ := event_flags 9 _ s hrun 1 he
  exact ⟨s, hrun, he, hlist, hunmet, hset⟩

end GenieSdk.Analysis.Rhino
