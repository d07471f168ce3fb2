import GenieSdk.Analysis.TimerOneShot

/-!
# Overdue timers

A timer expires in the second in which the clock shows its time, and in no other: a timer whose time
lies behind the clock never expires. Ticks do not pass over a timer, so **no timer is ever overdue
exactly if no clock synchronisation passes over one and no timer is armed for the past**
(`no_timer_overdue_iff`). A periodic start computes its first time from the date alone, and a re-armed
timer leaves the 32 bits of the clock in 2106.
-/

set_option autoImplicit false

namespace GenieSdk.Analysis

open GenieSdk.Lib
open GenieSdk.Model

/-- A second of the clock with the work item it submits, or a call in between. -/
inductive ClockAct
  | second (ret : ℤ)
  | start (index unixTime : ℕ) (attrData : VendorAttrData)
  | periodicStart (index periodicTime schedule : ℕ) (attrData : VendorAttrData)
  | remove (index : ℕ)
  | localTimeUpdate (unixTime : ℕ)
  | timezoneUpdate (timezone : ℤ)
  | timeSyncSet (periodTime retryDelay retryTimes : ℕ)

/-- The call as a step of its own. -/
def ClockAct.call : ClockAct → Option GenieTimeAct
  | .second _ => none
  | .start index unixTime attrData => some (.start index unixTime attrData)
  | .periodicStart index periodicTime schedule attrData =>
    some (.periodicStart index periodicTime schedule attrData)
  | .remove index => some (.remove index)
  | .localTimeUpdate unixTime => some (.localTimeUpdate unixTime)
  | .timezoneUpdate timezone => some (.timezoneUpdate timezone)
  | .timeSyncSet periodTime retryDelay retryTimes =>
    some (.timeSyncSet periodTime retryDelay retryTimes)

def clockStep (s : GenieTime) (a : ClockAct) : Option GenieTime :=
  match a.call with
  | some c => genieTimeStep s c
  | none =>
    match a with
    | .second ret => some (second s ret)
    | _ => none

/-- No active timer's time has been reached. -/
def NotOverdue (s : GenieTime) : Prop := ∀ node ∈ s.active, s.unixTime < node.unixtimeMatch

instance (s : GenieTime) : Decidable (NotOverdue s) :=
  inferInstanceAs (Decidable (∀ node ∈ _, _))

/-- The first time of a periodic timer, as a start computes it. -/
def firstMatch (s : GenieTime) (periodicTime schedule : ℕ) : ℕ :=
  toU32 (utc2Unix { s.localTime with
    hour := 0, minutes := 0, seconds := 0
    day := (s.localTime.day + nextWeekdayDiffGet s.localTime.weekday schedule) % 256 } +
    periodicTime - s.timezone * hourSecs)

/-- The days until a timer that expires with the next tick is due again. -/
def daysUntilNext (s : GenieTime) (node : GenieTimer) : ℕ :=
  1 + nextWeekdayDiffGet (nextWeekday (timerUpdate s).localTime.weekday) node.schedule

/-- A synchronisation sets the clock before the time of every active timer, a periodic timer is started
for a time to come, and a timer that expires is re-armed within the 32 bits of the clock. -/
def KeepsAhead (s : GenieTime) : ClockAct → Prop
  | .second _ => ∀ node ∈ s.active, node.periodic = true → node.unixtimeMatch = s.unixTime + 1 →
    node.unixtimeMatch + daysUntilNext s node * daySecs < 2 ^ 32
  | .periodicStart index periodicTime schedule _ =>
    s.update = true → schedule ≠ 0 → (genieTimeTake s index).isSome →
      s.unixTime < firstMatch s periodicTime schedule
  | .localTimeUpdate unixTime => ∀ node ∈ s.active, unixTime % 2 ^ 32 < node.unixtimeMatch
  | _ => True

/-- What holds of the active timers in every run. -/
structure ClockOk (s : GenieTime) : Prop where
  timers : TimersOk s
  nodes : ∀ node ∈ s.active, node.unixtimeMatch < 2 ^ 32 ∧ node.state ≠ .invalid

section Start

variable {s : GenieTime} {index : ℕ} {r : Option GtError × GenieTime}
  (edit : GenieTime → GenieTimer → GenieTimer)

/-- The active timers after a start that finds a node, or none. -/
theorem start_cases (hs : TimersOk s)
    (hr : r = match genieTimeTake s index with
      | none => (some .noresource, s)
      | some (node, s) => (none, { s with active := s.active ++ [edit s node] })) :
    r = (some .noresource, s) ∨ ∃ node s', Takes s s' node ∧ r.1 = none ∧
      r.2.unixTime = s.unixTime ∧ r.2.active = s'.active ++ [edit s' node] := by
  cases htake : genieTimeTake s index with
  | none =>
    rw [htake] at hr
    exact Or.inl hr
  | some p =>
    obtain ⟨node, s'⟩ := p
    rw [htake] at hr
    obtain ⟨htakes, -⟩ := genieTimeTake_spec hs htake
    rw [hr]
    exact Or.inr ⟨node, s', htakes, rfl, htakes.clock.2.1, rfl⟩

/-- What holds of the active timers and of the new one. -/
theorem forall_start {p : GenieTimer → Prop} (hs : TimersOk s)
    (hr : r = match genieTimeTake s index with
      | none => (some .noresource, s)
      | some (node, s) => (none, { s with active := s.active ++ [edit s node] }))
    (hall : ∀ node ∈ s.active, p node)
    (hnew : ∀ node s', Takes s s' node → p (edit s' node)) : ∀ node ∈ r.2.active, p node := by
  obtain rfl | ⟨node, s', htakes, -, -, hactive⟩ := start_cases edit hs hr
  · exact hall
  · intro other hmem
    rw [hactive] at hmem
    rcases List.mem_append.1 hmem with hin | hin
    · exact hall other (htakes.active.subset hin)
    · rw [List.mem_singleton.1 hin]
      exact hnew node s' htakes

/-- A timer that is armed for a time to come leaves no timer behind. -/
theorem notOverdue_start (hs : TimersOk s) (hno : NotOverdue s)
    (hr : r = match genieTimeTake s index with
      | none => (some .noresource, s)
      | some (node, s) => (none, { s with active := s.active ++ [edit s node] }))
    (hnew : ∀ node s', Takes s s' node → s.unixTime < (edit s' node).unixtimeMatch) :
    NotOverdue r.2 := by
  have hall := forall_start edit (p := fun node => s.unixTime < node.unixtimeMatch) hs hr hno hnew
  obtain rfl | ⟨_, _, _, _, hunix, _⟩ := start_cases edit hs hr
  · exact hno
  · unfold NotOverdue
    rw [hunix]
    exact hall

end Start

section Walk

variable {s : GenieTime}

/-- What stays active: what does not expire, and what is re-armed. -/
theorem mem_genieTimeWalk {node : GenieTimer} {l : List GenieTimer} :
    node ∈ (genieTimeWalk s l).1 ↔
      ∃ n ∈ l, (isGenieTimeTimeout s n = false ∧ node = n) ∨
        (isGenieTimeTimeout s n = true ∧ n.periodic = true ∧ node = genieTimeRearm s n) := by
  induction l with
  | nil => simp [genieTimeWalk]
  | cons n rest ih =>
    rw [List.exists_mem_cons_iff, ← ih]
    rw [genieTimeWalk]
    cases hdue : isGenieTimeTimeout s n with
    | false => simp
    | true => cases hper : n.periodic <;> simp

/-- The loop ends within its seven rounds. -/
theorem nextWeekdayLoop_le (tmp fuel d : ℕ) : nextWeekdayLoop tmp fuel d ≤ d + fuel := by
  induction fuel generalizing d with
  | zero => exact le_rfl
  | succ fuel ih =>
    unfold nextWeekdayLoop
    split
    · exact Nat.le_add_right _ _
    · exact (ih (d + 1)).trans (by omega)

/-- The next day of a schedule is at most eight days away. -/
theorem daysUntilNext_le (s : GenieTime) (node : GenieTimer) : daysUntilNext s node ≤ 8 := by
  unfold daysUntilNext nextWeekdayDiffGet
  have hle := nextWeekdayLoop_le ((((node.schedule ||| node.schedule <<< 7) >>>
    ((if nextWeekday (timerUpdate s).localTime.weekday = 0 then 7
      else nextWeekday (timerUpdate s).localTime.weekday) - 1)) &&& 0x7F)) 7 0
  dsimp only
  omega

/-- A removal leaves a part of the active timers. -/
theorem genieTimeRemove_subset (s : GenieTime) (index : ℤ) :
    (genieTimeRemove s index).2.active ⊆ s.active ∧
      (genieTimeRemove s index).2.unixTime = s.unixTime := by
  refine genieTimeRemove_of_stop (p := fun t => t.active ⊆ s.active ∧ t.unixTime = s.unixTime)
    (fun t i h => ?_) ⟨List.Subset.refl _, rfl⟩ index
  unfold genieTimeStop
  split_ifs
  · exact h
  · exact h
  · exact h
  · split
    · exact h
    · exact ⟨List.Subset.trans List.eraseP_subset h.1, h.2⟩

end Walk

section Steps

variable {s s' : GenieTime}

/-- The lists after a second. -/
theorem second_active (s : GenieTime) (ret : ℤ) :
    (second s ret).active = (genieTimeWalk (timerUpdate s) s.active).1 ∧
      (second s ret).unixTime = (timerUpdate s).unixTime := by
  obtain ⟨hactive, -, -, -, hunix⟩ := genieTimeDoWork_lists (timerUpdate s) ret
  have htick : (timerUpdate s).active = s.active := by
    unfold timerUpdate
    split <;> rfl
  rw [htick] at hactive
  exact ⟨hactive, hunix⟩

/-- **every call keeps `ClockOk`.** -/
theorem ClockOk.step (hs : ClockOk s) {a : ClockAct} (h : clockStep s a = some s') : ClockOk s' := by
  cases a with
  | second ret =>
    cases h
    have htick := (genieTimeStep_effect (a := .timerUpdate) rfl hs.timers).1
    refine ⟨(genieTimeStep_effect (a := .doWork ret) rfl htick).1, ?_⟩
    rw [(second_active s ret).1]
    intro node hmem
    obtain ⟨n, hn, ⟨-, rfl⟩ | ⟨-, -, rfl⟩⟩ := mem_genieTimeWalk.1 hmem
    · exact hs.nodes node hn
    · exact ⟨Nat.mod_lt _ (by norm_num), (hs.nodes n hn).2⟩
  | start index unixTime attrData =>
    refine ⟨(genieTimeStep_effect (a := .start index unixTime attrData) h hs.timers).1, ?_⟩
    cases h
    unfold genieTimeStart
    split_ifs
    · exact hs.nodes
    · exact hs.nodes
    · exact hs.nodes
    · refine forall_start (fun _ node => { node with
        index := index, unixtimeMatch := unixTime % 2 ^ 32, state := .on, attrData := attrData })
        hs.timers rfl hs.nodes fun _ _ _ => ⟨Nat.mod_lt _ (by norm_num), ?_⟩
      exact VtState.noConfusion
  | periodicStart index periodicTime schedule attrData =>
    refine ⟨(genieTimeStep_effect (a := .periodicStart index periodicTime schedule attrData) h
      hs.timers).1, ?_⟩
    cases h
    unfold genieTimePeriodicStart
    split_ifs
    · exact hs.nodes
    · exact hs.nodes
    · exact hs.nodes
    · refine forall_start (fun s node => { node with
        index := index, periodic := true, periodicTime := periodicTime, schedule := schedule
        state := .on, attrData := attrData, unixtimeMatch := firstMatch s periodicTime schedule })
        hs.timers rfl hs.nodes fun _ _ _ => ⟨?_, VtState.noConfusion⟩
      show toU32 _ < 2 ^ 32
      unfold toU32
      omega
  | remove index =>
    refine ⟨(genieTimeStep_effect (a := .remove index) h hs.timers).1, ?_⟩
    cases h
    exact fun node hmem => hs.nodes node ((genieTimeRemove_subset s (toI8 index)).1 hmem)
  | localTimeUpdate unixTime =>
    refine ⟨(genieTimeStep_effect (a := .localTimeUpdate unixTime) h hs.timers).1, ?_⟩
    cases h
    unfold genieTimeLocalTimeUpdate
    rw [if_neg (by simp [hs.timers.init])]
    exact hs.nodes
  | timezoneUpdate timezone =>
    refine ⟨(genieTimeStep_effect (a := .timezoneUpdate timezone) h hs.timers).1, ?_⟩
    cases h
    unfold genieTimeTimezoneUpdate
    split_ifs <;> exact hs.nodes
  | timeSyncSet periodTime retryDelay retryTimes =>
    refine ⟨(genieTimeStep_effect (a := .timeSyncSet periodTime retryDelay retryTimes) h
      hs.timers).1, ?_⟩
    cases h
    unfold genieTimeTimeSyncSet
    split <;> exact hs.nodes

/-- **a second** leaves no timer behind exactly if every timer that expires is re-armed
within the 32 bits. -/
theorem notOverdue_second (hs : ClockOk s) (hno : NotOverdue s) (ret : ℤ) :
    NotOverdue (second s ret) ↔ KeepsAhead s (.second ret) := by
  obtain ⟨hactive, hunix⟩ := second_active s ret
  unfold NotOverdue KeepsAhead
  rw [hactive, hunix]
  -- with a timer active the clock runs, and it is not about to leave its 32 bits
  have htick : ∀ node ∈ s.active, (timerUpdate s).unixTime = s.unixTime + 1 := by
    intro node hmem
    have hlt := hno node hmem
    have hnode := (hs.nodes node hmem).1
    exact (timerUpdate_lists (hs.timers.update (List.ne_nil_of_mem hmem)) (by omega)).2.2.2
  constructor
  · intro hall node hmem hper hdue
    by_contra hge
    have hunix := htick node hmem
    have htimeout : isGenieTimeTimeout (timerUpdate s) node = true := by
      simp only [isGenieTimeTimeout, decide_eq_true_eq]
      exact ⟨(hs.nodes node hmem).2, by omega⟩
    have hlt := hall _ (mem_genieTimeWalk.2 ⟨node, hmem, Or.inr ⟨htimeout, hper, rfl⟩⟩)
    have hrearm : (genieTimeRearm (timerUpdate s) node).unixtimeMatch =
      (node.unixtimeMatch + daysUntilNext s node * daySecs) % 2 ^ 32 := rfl
    have hdays := daysUntilNext_le s node
    have hnode := (hs.nodes node hmem).1
    unfold daySecs at hge hrearm
    omega
  · intro hall node hmem
    obtain ⟨n, hn, ⟨hnot, rfl⟩ | ⟨htimeout, hper, rfl⟩⟩ := mem_genieTimeWalk.1 hmem
    · have hlt := hno node hn
      have hunix := htick node hn
      simp only [isGenieTimeTimeout, decide_eq_false_iff_not, not_and] at hnot
      have hne := hnot (hs.nodes node hn).2
      omega
    · have hunix := htick n hn
      simp only [isGenieTimeTimeout, decide_eq_true_eq] at htimeout
      have hok := hall n hn hper (by omega)
      have hrearm : (genieTimeRearm (timerUpdate s) n).unixtimeMatch =
        (n.unixtimeMatch + daysUntilNext s n * daySecs) % 2 ^ 32 := rfl
      have hdays : 1 ≤ daysUntilNext s n := Nat.le_add_right _ _
      unfold daySecs at hok hrearm
      omega

/-- **a periodic start** arms a timer for the time its date gives. -/
theorem notOverdue_periodicStart (hs : ClockOk s) (hno : NotOverdue s)
    (index periodicTime schedule : ℕ) (attrData : VendorAttrData) :
    NotOverdue (genieTimePeriodicStart s index periodicTime schedule attrData).2 ↔
      KeepsAhead s (.periodicStart index periodicTime schedule attrData) := by
  have hfirst : ∀ node s', Takes s s' node →
      firstMatch s' periodicTime schedule = firstMatch s periodicTime schedule := by
    intro node s' htakes
    unfold firstMatch
    rw [htakes.clock.1, htakes.clock.2.2]
  unfold KeepsAhead genieTimePeriodicStart
  split_ifs with hinit hupd hsched
  · exact absurd hs.timers.init (by simp [hinit])
  · exact ⟨fun _ h => absurd h (by simp [hupd]), fun _ => hno⟩
  · exact ⟨fun _ _ h => absurd hsched h, fun _ => hno⟩
  · constructor
    · intro hall _ _ htake
      obtain ⟨⟨node, s'⟩, htake⟩ := Option.isSome_iff_exists.1 htake
      rw [htake] at hall
      obtain ⟨htakes, -⟩ := genieTimeTake_spec hs.timers htake
      have hlt := hall _ (List.mem_append_right _ (List.mem_singleton.2 rfl))
      rw [← hfirst node s' htakes, ← htakes.clock.2.1]
      exact hlt
    · intro hok
      by_cases htake : (genieTimeTake s index).isSome
      · refine notOverdue_start (fun s node => { node with
          index := index, periodic := true, periodicTime := periodicTime, schedule := schedule
          state := .on, attrData := attrData, unixtimeMatch := firstMatch s periodicTime schedule })
          hs.timers hno rfl fun node s' htakes => ?_
        show _ < firstMatch s' periodicTime schedule
        rw [hfirst node s' htakes]
        exact hok (by simpa using hupd) hsched htake
      · rw [Option.not_isSome_iff_eq_none.1 htake]
        exact hno

/-- **every call** keeps the timers ahead of the clock exactly if it meets the condition. -/
theorem notOverdue_step (hs : ClockOk s) (hno : NotOverdue s) (a : ClockAct) :
    KeepsAhead s a ↔ ∀ s', clockStep s a = some s' → NotOverdue s' := by
  cases a with
  | second ret =>
    rw [← notOverdue_second hs hno ret]
    exact ⟨fun h s' hc => Option.some.inj hc ▸ h, fun h => h _ rfl⟩
  | start index unixTime attrData =>
    refine ⟨fun _ s' hc => ?_, fun _ => trivial⟩
    cases hc
    unfold genieTimeStart
    split_ifs with _ _ hlate
    · exact hno
    · exact hno
    · exact hno
    · exact notOverdue_start (fun _ node => { node with
        index := index, unixtimeMatch := unixTime % 2 ^ 32, state := .on, attrData := attrData })
        hs.timers hno rfl fun _ _ _ => Nat.lt_of_not_le hlate
  | periodicStart index periodicTime schedule attrData =>
    rw [← notOverdue_periodicStart hs hno]
    exact ⟨fun h s' hc => Option.some.inj hc ▸ h, fun h => h _ rfl⟩
  | remove index =>
    refine ⟨fun _ s' hc => ?_, fun _ => trivial⟩
    cases hc
    obtain ⟨hsub, hunix⟩ := genieTimeRemove_subset s (toI8 index)
    intro node hmem
    rw [hunix]
    exact hno node (hsub hmem)
  | localTimeUpdate unixTime =>
    have hsync : (genieTimeLocalTimeUpdate s (unixTime % 2 ^ 32)).2.active = s.active ∧
        (genieTimeLocalTimeUpdate s (unixTime % 2 ^ 32)).2.unixTime = unixTime % 2 ^ 32 := by
      unfold genieTimeLocalTimeUpdate
      rw [if_neg (by simp [hs.timers.init])]
      exact ⟨rfl, rfl⟩
    have hiff : NotOverdue (genieTimeLocalTimeUpdate s (unixTime % 2 ^ 32)).2 ↔
        KeepsAhead s (.localTimeUpdate unixTime) := by
      unfold NotOverdue
      rw [hsync.1, hsync.2]
      rfl
    rw [← hiff]
    exact ⟨fun h s' hc => Option.some.inj hc ▸ h, fun h => h _ rfl⟩
  | timezoneUpdate timezone =>
    refine ⟨fun _ s' hc => ?_, fun _ => trivial⟩
    cases hc
    unfold genieTimeTimezoneUpdate
    split_ifs <;> exact hno
  | timeSyncSet periodTime retryDelay retryTimes =>
    refine ⟨fun _ s' hc => ?_, fun _ => trivial⟩
    cases hc
    unfold genieTimeTimeSyncSet
    split <;> exact hno

end Steps

/-- The clock is right at the start. -/
theorem clockOk_init : ClockOk genieTimeInit :=
  ⟨timersOk_init, fun _ hmem => nomatch hmem⟩

/-- **Overdue timers.** In every run of starts, removals, synchronisations and seconds from
`genie_time_init` on, every state has all active timers ahead of the clock, after each run of the
work item in particular, if and only if every step meets `KeepsAhead`. -/
theorem no_timer_overdue_iff (as : List ClockAct) :
    (∀ pre s, pre <+: as → runSteps clockStep genieTimeInit pre = some s → NotOverdue s) ↔
      StepsMeet clockStep KeepsAhead genieTimeInit as :=
  stepsMeet_iff (I := ClockOk) (fun _ _ _ hs h => hs.step h)
    (fun _ a hs hno => notOverdue_step hs hno a) clockOk_init fun _ hmem => nomatch hmem

/-- The clock is set past timer 3. -/
theorem timer_overdue :
    ¬ ∀ (as : List ClockAct) (ret : ℤ) (s : GenieTime),
      runSteps clockStep genieTimeInit (as ++ [.second ret]) = some s → NotOverdue s := by
  intro hall
  have h := hall
    [.localTimeUpdate 1610668800, .start 3 1610668810 { type := 0x100, para := 1 },
      .localTimeUpdate 1610668820] 0 _ rfl
  revert h
  decide

end GenieSdk.Analysis
