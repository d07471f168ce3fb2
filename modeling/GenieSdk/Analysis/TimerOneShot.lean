import GenieSdk.Analysis.PeriodicTimer

/-!
# One-shot timers

`genie_time_start` leaves the flag `periodic` of its node as it finds it, and neither a stop nor a
firing clears it. **A timer is called once and retires exactly if the node it is started in was not
last a periodic one** (`one_shot_iff`). A node is named by its slot, and its life as one timer ends
when another timer is started in it.
-/

set_option autoImplicit false

namespace GenieSdk.Analysis

open GenieSdk.Lib
open GenieSdk.Model

/-- The call starts a timer in the node. -/
def StartsIn (slot : ℕ) (s : GenieTime) : GenieTimeAct → Prop
  | .start index unixTime attrData =>
    (genieTimeStart s index (unixTime % 2 ^ 32) attrData).1 = none ∧
      ∃ node s', genieTimeTake s index = some (node, s') ∧ node.slot = slot
  | .periodicStart index periodicTime schedule attrData =>
    (genieTimePeriodicStart s index periodicTime schedule attrData).1 = none ∧
      ∃ node s', genieTimeTake s index = some (node, s') ∧ node.slot = slot
  | _ => False

/-- The calls of the callback for the node after the first `n` calls. -/
def firedSince (n slot : ℕ) (s : GenieTime) : List GtTimeout :=
  (s.log.drop n).filter fun timeout => timeout.slot = slot

/-- The node is idle. -/
def IdleSlot (slot : ℕ) (s : GenieTime) : Prop := ∃ node ∈ s.idle, node.slot = slot

/-- In every run in which no other timer is started in the node, the timer that is started there in
`s` has its callback called at most once, for second `timeout.unixTime`, and its node is idle then. -/
def FiresOnce (s : GenieTime) (timeout : GtTimeout) : Prop :=
  ∀ as s', StepsMeet genieTimeStep (fun s a => ¬ StartsIn timeout.slot s a) s as →
    runSteps genieTimeStep s as = some s' →
    firedSince s.log.length timeout.slot s' = [] ∨
      (firedSince s.log.length timeout.slot s' = [timeout] ∧ IdleSlot timeout.slot s')

/-- The node is active and armed for the timeout. -/
structure ArmedOnce (timeout : GtTimeout) (node : GenieTimer) : Prop where
  slot : node.slot = timeout.slot
  index : node.index = timeout.index
  attrData : node.attrData = timeout.attrData
  state : node.state ≠ .invalid
  periodic : node.periodic = false
  matchTime : node.unixtimeMatch = timeout.unixTime

/-- A one-shot timer waits, or is over. -/
inductive OnceInv (n : ℕ) (timeout : GtTimeout) (s : GenieTime) : Prop
  | armed (hfired : firedSince n timeout.slot s = [])
    (hactive : ∃ node ∈ s.active, ArmedOnce timeout node)
  | retired (hfired : firedSince n timeout.slot s = [] ∨ firedSince n timeout.slot s = [timeout])
    (hidle : IdleSlot timeout.slot s)

section Lists

variable {s s' : GenieTime} {node other : GenieTimer}

/-- Two nodes of the lists with one slot are one node, in one of the lists. -/
theorem SlotsOk.active_idle (hs : SlotsOk s) (hactive : node ∈ s.active) (hidle : other ∈ s.idle) :
    node.slot ≠ other.slot := by
  have hnodup := hs.nodup
  rw [timerSlots, List.map_append] at hnodup
  exact (List.nodup_append.1 hnodup).2.2 _ (List.mem_map_of_mem hactive) _ (List.mem_map_of_mem hidle)

/-- The other active timers have other slots. -/
theorem SlotsOk.active_split (hs : SlotsOk s) {l₁ l₂ : List GenieTimer}
    (hsplit : s.active = l₁ ++ node :: l₂) : ∀ other ∈ l₁ ++ l₂, other.slot ≠ node.slot := by
  have hnodup := hs.nodup
  rw [timerSlots, List.map_append, hsplit, List.map_append, List.map_cons] at hnodup
  have hleft := (List.nodup_append.1 hnodup).1
  have hperm : (l₁.map GenieTimer.slot ++ node.slot :: l₂.map GenieTimer.slot).Perm
      (node.slot :: (l₁ ++ l₂).map GenieTimer.slot) := by
    rw [List.map_append]
    exact List.perm_middle
  intro other hmem heq
  refine (List.nodup_cons.1 (hperm.nodup_iff.1 hleft)).1 ?_
  rw [← heq]
  exact List.mem_map_of_mem hmem

/-- Taking a node off the active list leaves the others there. -/
theorem mem_unlist (hmem : other ∈ s.active) (hne : other.slot ≠ node.slot) :
    other ∈ (s.unlist node).active :=
  (List.mem_eraseP_of_neg (by simpa using hne)).2 hmem

/-- A start leaves the nodes it does not take where they are. -/
theorem genieTimeTake_others {index : ℕ} (h : genieTimeTake s index = some (node, s')) :
    (∀ other ∈ s.active, other.slot ≠ node.slot → other ∈ s'.active) ∧
      (∀ other ∈ s.idle, other.slot ≠ node.slot → other ∈ s'.idle) ∧ s'.log = s.log := by
  unfold genieTimeTake at h
  split at h
  · cases h
    exact ⟨fun _ hmem hne => mem_unlist hmem hne, fun _ hmem _ => hmem, rfl⟩
  · split at h
    · cases h
    · next first idle hidle =>
      cases h
      refine ⟨fun _ hmem _ => hmem, fun other hmem hne => ?_, rfl⟩
      rw [hidle] at hmem
      rcases List.mem_cons.1 hmem with rfl | hin
      · exact absurd rfl hne
      · exact hin

end Lists

section Steps

variable {n : ℕ} {timeout : GtTimeout} {s s' : GenieTime}

/-- A call that leaves the node where it is and calls nothing back for it. -/
theorem OnceInv.keep (h : OnceInv n timeout s)
    (hlog : firedSince n timeout.slot s' = firedSince n timeout.slot s)
    (hactive : ∀ node ∈ s.active, node.slot = timeout.slot → node ∈ s'.active)
    (hidle : ∀ node ∈ s.idle, node.slot = timeout.slot → node ∈ s'.idle) : OnceInv n timeout s' := by
  cases h with
  | armed hfired hnode =>
    obtain ⟨node, hmem, harmed⟩ := hnode
    exact .armed (hlog.trans hfired) ⟨node, hactive node hmem harmed.slot, harmed⟩
  | retired hfired hnode =>
    obtain ⟨node, hmem, hslot⟩ := hnode
    rw [← hlog] at hfired
    exact .retired hfired ⟨node, hidle node hmem hslot, hslot⟩

/-- A call that does not touch the lists and the log. -/
theorem OnceInv.same (h : OnceInv n timeout s) (hlog : s'.log = s.log) (hactive : s'.active = s.active)
    (hidle : s'.idle = s.idle) : OnceInv n timeout s' := by
  refine h.keep ?_ (fun _ hmem _ => hactive.symm ▸ hmem) (fun _ hmem _ => hidle.symm ▸ hmem)
  unfold firedSince
  rw [hlog]

/-- A start in another node. -/
theorem OnceInv.start {index : ℕ} {r : Option GtError × GenieTime}
    (h : OnceInv n timeout s) (edit : GenieTime → GenieTimer → GenieTimer)
    (hother : r.1 = none → ¬ ∃ node s', genieTimeTake s index = some (node, s') ∧
      node.slot = timeout.slot)
    (hr : r = match genieTimeTake s index with
      | none => (some .noresource, s)
      | some (node, s) => (none, { s with active := s.active ++ [edit s node] })) :
    OnceInv n timeout r.2 := by
  cases htake : genieTimeTake s index with
  | none =>
    rw [htake] at hr
    rw [hr]
    exact h
  | some p =>
    obtain ⟨node, s'⟩ := p
    rw [htake] at hr
    have hne : timeout.slot ≠ node.slot := fun heq =>
      hother (by rw [hr]) ⟨node, s', htake, heq.symm⟩
    obtain ⟨hactive, hidle, hlog⟩ := genieTimeTake_others htake
    rw [hr]
    refine h.keep ?_ (fun other hmem hslot => ?_) (fun other hmem hslot => ?_)
    · unfold firedSince
      rw [hlog]
    · exact List.mem_append_left _ (hactive other hmem (hslot ▸ hne))
    · exact hidle other hmem (hslot ▸ hne)

/-- A stop retires the node or leaves it alone. -/
theorem OnceInv.stop (h : OnceInv n timeout s) (index : ℤ) :
    OnceInv n timeout (genieTimeStop s index).2 := by
  unfold genieTimeStop
  split_ifs
  · exact h
  · exact h
  · exact h
  · split
    · exact h
    · next node hfind =>
      by_cases hslot : node.slot = timeout.slot
      · have hlog : firedSince n timeout.slot s = [] ∨ firedSince n timeout.slot s = [timeout] := by
          cases h with
          | armed hfired => exact Or.inl hfired
          | retired hfired => exact hfired
        exact .retired hlog ⟨_, List.mem_append_right _ List.mem_cons_self, hslot⟩
      · exact h.keep rfl (fun other hmem heq => mem_unlist hmem (heq ▸ Ne.symm hslot))
          (fun _ hmem _ => List.mem_append_left _ hmem)

/-- A removal calls nothing back. -/
theorem genieTimeRemove_log (s : GenieTime) (index : ℤ) : (genieTimeRemove s index).2.log = s.log := by
  refine genieTimeRemove_of_stop (p := fun t => t.log = s.log) (fun t i h => ?_) rfl index
  rw [← h]
  unfold genieTimeStop
  split_ifs
  · rfl
  · rfl
  · rfl
  · split <;> rfl

/-- The lists and the log after a run of the work item. -/
theorem genieTimeDoWork_lists (s : GenieTime) (ret : ℤ) :
    (genieTimeDoWork s ret).active = (genieTimeWalk s s.active).1 ∧
      (genieTimeDoWork s ret).idle = s.idle ++ (genieTimeWalk s s.active).2.1 ∧
      (genieTimeDoWork s ret).log = s.log ++ (genieTimeWalk s s.active).2.2 ∧
      (genieTimeDoWork s ret).update = s.update ∧
      (genieTimeDoWork s ret).unixTime = s.unixTime := by
  unfold genieTimeDoWork genieTimeSync
  dsimp only
  split
  · split <;> exact ⟨rfl, rfl, rfl, rfl, rfl⟩
  · exact ⟨rfl, rfl, rfl, rfl, rfl⟩

/-- The callback is called for the slots of the nodes. -/
theorem genieTimeWalk_slot (s : GenieTime) {l : List GenieTimer} {slot : ℕ}
    (h : ∀ node ∈ l, node.slot ≠ slot) :
    ((genieTimeWalk s l).2.2.filter fun timeout => timeout.slot = slot) = [] := by
  induction l with
  | nil => rfl
  | cons node rest ih =>
    have hrest := ih fun other hmem => h other (List.mem_cons_of_mem _ hmem)
    have hne := h node List.mem_cons_self
    unfold genieTimeWalk
    dsimp only
    split_ifs
    · rw [List.filter_cons_of_neg (by simpa using hne)]
      exact hrest
    · rw [List.filter_cons_of_neg (by simpa using hne)]
      exact hrest
    · exact hrest

/-- The calls of the callback for a node that was active and for one that was not. -/
theorem firedSince_doWork (s : GenieTime) (ret : ℤ) (hn : n ≤ s.log.length) (slot : ℕ) :
    firedSince n slot (genieTimeDoWork s ret) = firedSince n slot s ++
      (genieTimeWalk s s.active).2.2.filter fun timeout => timeout.slot = slot := by
  unfold firedSince
  rw [(genieTimeDoWork_lists s ret).2.2.1, List.drop_append_of_le_length hn, List.filter_append]

/-- **a run of the work item** calls the callback if the time has come, and retires the
node. -/
theorem OnceInv.doWork (h : OnceInv n timeout s) (hs : TimersOk s) (hn : n ≤ s.log.length)
    (ret : ℤ) : OnceInv n timeout (genieTimeDoWork s ret) := by
  obtain ⟨hactive, hidle, -, -, -⟩ := genieTimeDoWork_lists s ret
  cases h with
  | armed hfired hnode =>
    obtain ⟨node, hmem, harmed⟩ := hnode
    obtain ⟨l₁, l₂, hsplit⟩ := List.append_of_mem hmem
    have hne := hs.slots.active_split hsplit
    rw [harmed.slot] at hne
    have h₁ := genieTimeWalk_slot s fun other hin => hne other (List.mem_append_left _ hin)
    have h₂ := genieTimeWalk_slot s fun other hin => hne other (List.mem_append_right _ hin)
    have hlog := firedSince_doWork s ret hn timeout.slot
    rw [hfired, List.nil_append, hsplit, genieTimeWalk_append] at hlog
    by_cases hfire : timeout.unixTime = s.unixTime
    · have hdue : isGenieTimeTimeout s node = true := by
        simp [isGenieTimeTimeout, harmed.state, harmed.matchTime, hfire]
      refine .retired (Or.inr ?_) ?_
      · rw [hlog]
        simp only [genieTimeWalk, hdue, harmed.periodic, if_true, Bool.false_eq_true, if_false,
          List.filter_append, h₁, List.nil_append]
        rw [List.filter_cons_of_pos (by simpa using harmed.slot), h₂]
        obtain ⟨slot, index, unixTime, attrData⟩ := timeout
        rw [harmed.slot, harmed.index, harmed.attrData, ← hfire]
      · refine ⟨{ node with unixtimeMatch := 0xFFFFFFFF, state := .invalid }, ?_, harmed.slot⟩
        rw [hidle, hsplit, genieTimeWalk_append]
        simp [genieTimeWalk, hdue, harmed.periodic]
    · have hnot : isGenieTimeTimeout s node = false := by
        simp [isGenieTimeTimeout, harmed.matchTime, hfire]
      refine .armed ?_ ⟨node, ?_, harmed⟩
      · rw [hlog]
        simp [genieTimeWalk, hnot, h₁, h₂]
      · rw [hactive, hsplit, genieTimeWalk_append]
        simp [genieTimeWalk, hnot]
  | retired hfired hnode =>
    obtain ⟨node, hmem, hslot⟩ := hnode
    have hne : ∀ node ∈ s.active, node.slot ≠ timeout.slot := fun other hin =>
      hslot ▸ hs.slots.active_idle hin hmem
    have hnone := genieTimeWalk_slot s hne
    have hlog := firedSince_doWork s ret hn timeout.slot
    rw [hnone, List.append_nil] at hlog
    rw [← hlog] at hfired
    exact .retired hfired ⟨node, by rw [hidle]; exact List.mem_append_left _ hmem, hslot⟩

/-- The log only grows. -/
theorem genieTimeStep_log {a : GenieTimeAct} (hc : genieTimeStep s a = some s') :
    s.log.length ≤ s'.log.length := by
  have hstart : ∀ (index : ℕ) (edit : GenieTime → GenieTimer → GenieTimer),
      s.log.length ≤ (match genieTimeTake s index with
        | none => ((some .noresource, s) : Option GtError × GenieTime)
        | some (node, s) => (none, { s with active := s.active ++ [edit s node] })).2.log.length := by
    intro index edit
    cases htake : genieTimeTake s index with
    | none => exact le_rfl
    | some p => exact (congrArg List.length (genieTimeTake_others htake).2.2).ge
  cases a with
  | start index unixTime attrData =>
    cases hc
    unfold genieTimeStart
    split_ifs
    · exact le_rfl
    · exact le_rfl
    · exact le_rfl
    · exact hstart index _
  | periodicStart index periodicTime schedule attrData =>
    cases hc
    unfold genieTimePeriodicStart
    split_ifs
    · exact le_rfl
    · exact le_rfl
    · exact le_rfl
    · exact hstart index _
  | remove index =>
    cases hc
    exact (congrArg List.length (genieTimeRemove_log s _)).ge
  | timerUpdate =>
    cases hc
    unfold timerUpdate
    split <;> exact le_rfl
  | doWork ret =>
    cases hc
    rw [(genieTimeDoWork_lists s ret).2.2.1, List.length_append]
    exact Nat.le_add_right _ _
  | localTimeUpdate unixTime =>
    cases hc
    unfold genieTimeLocalTimeUpdate
    split <;> exact le_rfl
  | timezoneUpdate timezone =>
    cases hc
    unfold genieTimeTimezoneUpdate
    split_ifs <;> exact le_rfl
  | timeSyncSet periodTime retryDelay retryTimes =>
    cases hc
    unfold genieTimeTimeSyncSet
    split <;> exact le_rfl

/-- **every call.** -/
theorem OnceInv.step (h : OnceInv n timeout s) (hs : TimersOk s) (hn : n ≤ s.log.length)
    {a : GenieTimeAct} (hother : ¬ StartsIn timeout.slot s a) (hc : genieTimeStep s a = some s') :
    OnceInv n timeout s' := by
  cases a with
  | start index unixTime attrData =>
    cases hc
    unfold StartsIn at hother
    unfold genieTimeStart at hother ⊢
    split_ifs at hother ⊢ with hinit hupd hlate
    · exact h
    · exact h
    · exact h
    · exact h.start (fun _ node => { node with
        index := index, unixtimeMatch := unixTime % 2 ^ 32, state := .on, attrData := attrData })
        (fun hok hin => hother ⟨by rw [if_neg hlate]; exact hok, hin⟩) rfl
  | periodicStart index periodicTime schedule attrData =>
    cases hc
    unfold StartsIn at hother
    unfold genieTimePeriodicStart at hother ⊢
    split_ifs at hother ⊢ with hinit hupd hsched
    · exact h
    · exact h
    · exact h
    · exact h.start (fun s node => { node with
        index := index, periodic := true, periodicTime := periodicTime, schedule := schedule
        state := .on, attrData := attrData
        unixtimeMatch := toU32 (utc2Unix
          { s.localTime with
            hour := 0, minutes := 0, seconds := 0
            day := (s.localTime.day + nextWeekdayDiffGet s.localTime.weekday schedule) % 256 } +
            periodicTime - s.timezone * hourSecs) })
        (fun hok hin => hother ⟨by rw [if_neg hsched]; exact hok, hin⟩) rfl
  | remove index =>
    cases hc
    exact genieTimeRemove_of_stop (fun _ i h => h.stop i) h _
  | timerUpdate =>
    cases hc
    unfold timerUpdate
    split
    · exact h.same rfl rfl rfl
    · exact h
  | doWork ret =>
    cases hc
    exact h.doWork hs hn ret
  | localTimeUpdate unixTime =>
    cases hc
    unfold genieTimeLocalTimeUpdate
    split
    · exact h
    · exact h.same rfl rfl rfl
  | timezoneUpdate timezone =>
    cases hc
    unfold genieTimeTimezoneUpdate
    split_ifs
    · exact h
    · exact h
    · exact h.same rfl rfl rfl
  | timeSyncSet periodTime retryDelay retryTimes =>
    cases hc
    unfold genieTimeTimeSyncSet
    split
    · exact h
    · exact h.same rfl rfl rfl

end Steps

/-- A one-shot timer in a node that is not periodic fires once. -/
theorem firesOnce_of_armed {s : GenieTime} {timeout : GtTimeout} (hs : TimersOk s)
    (harmed : ∃ node ∈ s.active, ArmedOnce timeout node) : FiresOnce s timeout := by
  intro as s' hmeet hrun
  have hstart : OnceInv s.log.length timeout s := by
    refine .armed ?_ harmed
    unfold firedSince
    rw [List.drop_length]
    rfl
  obtain ⟨hinv, -, -⟩ := runSteps_inv
    (I := fun t => OnceInv s.log.length timeout t ∧ TimersOk t ∧ s.log.length ≤ t.log.length)
    (fun _ _ _ ht hother hc => ⟨ht.1.step ht.2.1 ht.2.2 hother hc,
      (genieTimeStep_effect hc ht.2.1).1, ht.2.2.trans (genieTimeStep_log hc)⟩)
    ⟨hstart, hs, le_rfl⟩ hmeet hrun
  cases hinv with
  | armed hfired => exact Or.inl hfired
  | retired hfired hidle => exact hfired.imp_right fun h => ⟨h, hidle⟩

section Stale

variable {slot : ℕ} {s : GenieTime}

/-- The node is active with a periodic flag and has `k` seconds and one more to go. -/
def PeriodicIn (slot k : ℕ) (s : GenieTime) : Prop :=
  ∃ node ∈ s.active, node.slot = slot ∧ node.state ≠ .invalid ∧ node.periodic = true ∧
    node.unixtimeMatch = s.unixTime + k + 1

/-- What the tick of a set clock changes. -/
theorem timerUpdate_lists (hupd : s.update = true) (hlt : s.unixTime + 1 < 2 ^ 32) :
    (timerUpdate s).active = s.active ∧ (timerUpdate s).log = s.log ∧
      (timerUpdate s).update = true ∧ (timerUpdate s).unixTime = s.unixTime + 1 := by
  rw [timerUpdate_eq hupd]
  exact ⟨rfl, rfl, hupd, Nat.mod_eq_of_lt hlt⟩

/-- A second before the time has come. -/
theorem PeriodicIn.wait {k : ℕ} (h : PeriodicIn slot (k + 1) s) (hupd : s.update = true)
    (hlt : s.unixTime + 1 < 2 ^ 32) : PeriodicIn slot k (second s 0) := by
  obtain ⟨node, hmem, hslot, hstate, hper, hmatch⟩ := h
  obtain ⟨l₁, l₂, hsplit⟩ := List.append_of_mem hmem
  obtain ⟨htick, -, -, hunix⟩ := timerUpdate_lists hupd hlt
  obtain ⟨hactive, -, -, -, hunix'⟩ := genieTimeDoWork_lists (timerUpdate s) 0
  have hnot : isGenieTimeTimeout (timerUpdate s) node = false := by
    simp only [isGenieTimeTimeout, decide_eq_false_iff_not]
    omega
  refine ⟨node, ?_, hslot, hstate, hper, ?_⟩
  · show node ∈ (genieTimeDoWork (timerUpdate s) 0).active
    rw [hactive, htick, hsplit, genieTimeWalk_append]
    simp [genieTimeWalk, hnot]
  · show node.unixtimeMatch = (genieTimeDoWork (timerUpdate s) 0).unixTime + k + 1
    omega

/-- The second in which it has come: the callback is called and the node stays active. -/
theorem PeriodicIn.fire (h : PeriodicIn slot 0 s) (hupd : s.update = true)
    (hlt : s.unixTime + 1 < 2 ^ 32) :
    (∃ timeout ∈ (second s 0).log.drop s.log.length, timeout.slot = slot) ∧
      ∃ node ∈ (second s 0).active, node.slot = slot := by
  obtain ⟨node, hmem, hslot, hstate, hper, hmatch⟩ := h
  obtain ⟨l₁, l₂, hsplit⟩ := List.append_of_mem hmem
  obtain ⟨htick, hlog, -, hunix⟩ := timerUpdate_lists hupd hlt
  obtain ⟨hactive, -, hlog', -, -⟩ := genieTimeDoWork_lists (timerUpdate s) 0
  have hdue : isGenieTimeTimeout (timerUpdate s) node = true := by
    simp only [isGenieTimeTimeout, decide_eq_true_eq]
    exact ⟨hstate, by omega⟩
  constructor
  · refine ⟨⟨node.slot, node.index, (timerUpdate s).unixTime, node.attrData⟩, ?_, hslot⟩
    show _ ∈ (genieTimeDoWork (timerUpdate s) 0).log.drop s.log.length
    rw [hlog', hlog, List.drop_left, htick, hsplit, genieTimeWalk_append]
    simp [genieTimeWalk, hdue, hper]
  · refine ⟨genieTimeRearm (timerUpdate s) node, ?_, hslot⟩
    show _ ∈ (genieTimeDoWork (timerUpdate s) 0).active
    rw [hactive, htick, hsplit, genieTimeWalk_append]
    simp [genieTimeWalk, hdue, hper]

/-- Some seconds later the callback has been called and the node is still active. -/
theorem PeriodicIn.stays {k : ℕ} (h : PeriodicIn slot k s) (hupd : s.update = true)
    (hlt : s.unixTime + k + 1 < 2 ^ 32) :
    ∃ as s', (∀ a ∈ as, ∀ s, ¬ StartsIn slot s a) ∧ runSteps genieTimeStep s as = some s' ∧
      (∃ timeout ∈ s'.log.drop s.log.length, timeout.slot = slot) ∧
      ∃ node ∈ s'.active, node.slot = slot := by
  have hquiet : ∀ a ∈ [GenieTimeAct.timerUpdate, .doWork 0], ∀ s, ¬ StartsIn slot s a := by
    intro a ha s
    simp only [List.mem_cons, List.not_mem_nil, or_false] at ha
    rcases ha with rfl | rfl <;> exact id
  induction k generalizing s with
  | zero => exact ⟨[.timerUpdate, .doWork 0], second s 0, hquiet, rfl, h.fire hupd (by omega)⟩
  | succ k ih =>
    obtain ⟨-, hlog, hupd', hunix⟩ := timerUpdate_lists hupd (by omega)
    obtain ⟨-, -, hlog', hupd'', hunix'⟩ := genieTimeDoWork_lists (timerUpdate s) 0
    obtain ⟨as, s', hothers, hrun, ⟨timeout, hmem, hslot⟩, hactive⟩ :=
      ih (h.wait hupd (by omega)) (hupd''.trans hupd')
        (show (genieTimeDoWork (timerUpdate s) 0).unixTime + k + 1 < 2 ^ 32 by omega)
    refine ⟨.timerUpdate :: .doWork 0 :: as, s', ?_, hrun, ⟨timeout, ?_, hslot⟩, hactive⟩
    · intro a ha
      rcases List.mem_append.1 (show a ∈ [GenieTimeAct.timerUpdate, .doWork 0] ++ as from ha) with
        hin | hin
      · exact hquiet a hin
      · exact hothers a hin
    · have hle : s.log.length ≤ (second s 0).log.length := by
        show s.log.length ≤ (genieTimeDoWork (timerUpdate s) 0).log.length
        rw [hlog', hlog, List.length_append]
        exact Nat.le_add_right _ _
      obtain ⟨d, hd⟩ := Nat.exists_eq_add_of_le hle
      rw [hd, ← List.drop_drop] at hmem
      exact List.mem_of_mem_drop hmem

end Stale

/-- The state a successful start leaves: the node it takes is active and keeps its flag. -/
theorem genieTimeStart_armed {s s₁ s' : GenieTime} {index unixTime : ℕ} {attrData : VendorAttrData}
    {node : GenieTimer} (htake : genieTimeTake s index = some (node, s'))
    (hstart : genieTimeStart s index unixTime attrData = (none, s₁)) :
    s.unixTime < unixTime ∧ s.update = true ∧ s₁ = { s' with
      active := s'.active ++ [{ node with
        index := index, unixtimeMatch := unixTime, state := .on, attrData := attrData }] } := by
  unfold genieTimeStart at hstart
  rw [htake] at hstart
  split_ifs at hstart with hinit hupd hlate
  · cases hstart
  · cases hstart
  · cases hstart
  · cases hstart
    exact ⟨Nat.lt_of_not_le hlate, by simpa using hupd, rfl⟩

/-- A node that is periodic is still active after its time has come. -/
theorem not_firesOnce_of_periodic {s : GenieTime} {timeout : GtTimeout} {k : ℕ} (hs : TimersOk s)
    (hupd : s.update = true) (hin : PeriodicIn timeout.slot k s)
    (hlt : s.unixTime + k + 1 < 2 ^ 32) : ¬ FiresOnce s timeout := by
  intro honce
  obtain ⟨as, t, hothers, hrun, ⟨fired, hmem, hslot⟩, ⟨other, hactive, hother⟩⟩ := hin.stays hupd hlt
  have hfired : fired ∈ firedSince s.log.length timeout.slot t :=
    List.mem_filter.2 ⟨hmem, by simpa using hslot⟩
  obtain hnone | ⟨-, idle, hidle, hidleSlot⟩ :=
    honce as t (stepsMeet_of_forall (fun a ha s => hothers a ha s) _) hrun
  · rw [hnone] at hfired
    cases hfired
  · have ht : TimersOk t :=
      runSteps_inv (P := fun _ _ => True) (I := TimersOk)
        (fun _ _ _ ht _ h => (genieTimeStep_effect h ht).1) hs
        (stepsMeet_of_forall (fun _ _ _ => trivial) _) hrun
    exact ht.slots.active_idle hactive hidle (hother.trans hidleSlot.symm)

/-- **One-shot timers.** In every state reached by any calls, a timer that a start arms has its
callback called at most once, at its time, and its node is idle then, in every run, if and only if the
node that the start takes does not have its periodic flag set. -/
theorem one_shot_iff (as : List GenieTimeAct) (s s₁ s' : GenieTime) (index unixTime : ℕ)
    (attrData : VendorAttrData) (node : GenieTimer)
    (hrun : runSteps genieTimeStep genieTimeInit as = some s) (hrange : unixTime < 2 ^ 32)
    (htake : genieTimeTake s index = some (node, s'))
    (hstart : genieTimeStart s index unixTime attrData = (none, s₁)) :
    FiresOnce s₁ ⟨node.slot, index, unixTime, attrData⟩ ↔ node.periodic = false := by
  have hs : TimersOk s := timersOk_run hrun
  have hs₁ : TimersOk s₁ := by
    have heff := (genieTimeStart_effect s index unixTime attrData hs).1
    rwa [Nat.mod_eq_of_lt hrange, hstart] at heff
  obtain ⟨hlt, hupd, rfl⟩ := genieTimeStart_armed htake hstart
  obtain ⟨htakes, -⟩ := genieTimeTake_spec hs htake
  have hunix : s'.unixTime = s.unixTime := htakes.clock.2.1
  refine ⟨fun honce => ?_, fun hper => ?_⟩
  · by_contra hper
    refine not_firesOnce_of_periodic (k := unixTime - s.unixTime - 1) hs₁
      (htakes.flags.2.trans hupd) ?_ ?_ honce
    · refine ⟨_, List.mem_append_right _ List.mem_cons_self, rfl, by simp, by simpa using hper, ?_⟩
      show unixTime = s'.unixTime + _ + 1
      omega
    · show s'.unixTime + _ + 1 < 2 ^ 32
      omega
  · refine firesOnce_of_armed hs₁ ⟨_, List.mem_append_right _ List.mem_cons_self, ?_⟩
    exact ⟨rfl, rfl, rfl, by simp, hper, rfl⟩

/-- Timer 3 is started in a node that was not used before. -/
theorem one_shot_fresh :
    ∃ s s₁ s' node, runSteps genieTimeStep genieTimeInit [.localTimeUpdate 1610668800] = some s ∧
      genieTimeTake s 3 = some (node, s') ∧
      genieTimeStart s 3 1610668810 { type := 0x100, para := 1 } = (none, s₁) ∧
      FiresOnce s₁ ⟨node.slot, 3, 1610668810, { type := 0x100, para := 1 }⟩ := by
  refine ⟨_, _, _, _, rfl, rfl, rfl, ?_⟩
  exact (one_shot_iff [.localTimeUpdate 1610668800] _ _ _ 3 1610668810 _ _ rfl (by norm_num) rfl
    rfl).2 rfl

/-- Timer 3 is periodic and then started as a one-shot timer. -/
def staleFlagRun : List GenieTimeAct :=
  [.localTimeUpdate 1610668800, .periodicStart 3 32400 0x10 { type := 0x100, para := 1 }]

/-- A timer of a slot that was periodic before is not one-shot. -/
theorem one_shot_stale :
    ¬ ∀ (as : List GenieTimeAct) (s s₁ s' : GenieTime) (index unixTime : ℕ)
      (attrData : VendorAttrData) (node : GenieTimer),
      runSteps genieTimeStep genieTimeInit as = some s → unixTime < 2 ^ 32 →
      genieTimeTake s index = some (node, s') →
      genieTimeStart s index unixTime attrData = (none, s₁) →
      FiresOnce s₁ ⟨node.slot, index, unixTime, attrData⟩ := by
  intro hall
  obtain ⟨s, hrun⟩ : ∃ s, runSteps genieTimeStep genieTimeInit staleFlagRun = some s := ⟨_, rfl⟩
  obtain ⟨s₁, hrun₁⟩ : ∃ s₁, runSteps genieTimeStep genieTimeInit (staleFlagRun ++
      [.start 3 1610668810 { type := 0x100, para := 1 }]) = some s₁ := ⟨_, rfl⟩
  have hs₁ := timersOk_run hrun₁
  cases hrun
  cases hrun₁
  refine not_firesOnce_of_periodic (k := 9) hs₁ ?_ ?_ ?_
    (hall staleFlagRun _ _ _ 3 1610668810 { type := 0x100, para := 1 } _ rfl (by norm_num) rfl rfl)
  · rfl
  · exact ⟨_, List.mem_cons_self, rfl, by decide, rfl, rfl⟩
  · decide

end GenieSdk.Analysis
