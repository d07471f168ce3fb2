import GenieSdk.Model.GenieTime

/-!
# Timer slots

The timer nodes move between the active and the idle list and none is lost or doubled, whatever
is started, removed or fired. `genie_time_find` knows no index from `GENIE_TIME_MAX` on, so a
timer started with such an index is never found again: it can be started twice and not removed.
-/

set_option autoImplicit false

namespace GenieSdk.Analysis

open GenieSdk.Lib
open GenieSdk.Model

inductive GenieTimeAct
  | start (index unixTime : ℕ) (attrData : VendorAttrData)
  | periodicStart (index periodicTime schedule : ℕ) (attrData : VendorAttrData)
  | remove (index : ℕ)
  | timerUpdate
  | doWork (ret : ℤ)
  | localTimeUpdate (unixTime : ℕ)
  | timezoneUpdate (timezone : ℤ)
  | timeSyncSet (periodTime retryDelay retryTimes : ℕ)

/-- One call, as a message makes it: an index arrives as a byte and a time as 32 bits. -/
def genieTimeStep (s : GenieTime) : GenieTimeAct → Option GenieTime
  | .start index unixTime attrData => some (genieTimeStart s index (unixTime % 2 ^ 32) attrData).2
  | .periodicStart index periodicTime schedule attrData =>
    some (genieTimePeriodicStart s index periodicTime schedule attrData).2
  | .remove index => some (genieTimeRemove s (toI8 index)).2
  | .timerUpdate => some (timerUpdate s)
  | .doWork ret => some (genieTimeDoWork s ret)
  | .localTimeUpdate unixTime => some (genieTimeLocalTimeUpdate s (unixTime % 2 ^ 32)).2
  | .timezoneUpdate timezone => some (genieTimeTimezoneUpdate s timezone).2
  | .timeSyncSet periodTime retryDelay retryTimes =>
    some (genieTimeTimeSyncSet s periodTime retryDelay retryTimes).2

/-- A start that succeeds has an index that can be found again. -/
def KeepsIndex (s : GenieTime) : GenieTimeAct → Prop
  | .start index unixTime _ =>
    s.update = true → s.unixTime < unixTime % 2 ^ 32 → s.idle ≠ [] → index < genieTimeMax
  | .periodicStart index _ schedule _ =>
    s.update = true → schedule ≠ 0 → s.idle ≠ [] → index < genieTimeMax
  | _ => True

instance (s : GenieTime) (a : GenieTimeAct) : Decidable (KeepsIndex s a) := by
  unfold KeepsIndex
  split <;> infer_instance

/-- The slots of both lists. -/
def timerSlots (s : GenieTime) : List ℕ := (s.active ++ s.idle).map GenieTimer.slot

/-- Every node is in exactly one of the lists, once. -/
def SlotsOk (s : GenieTime) : Prop := (timerSlots s).Perm (List.range genieTimeMax)

/-- **What holds of the timers in every run.** Two active nodes may carry one index only if it is
one that `genie_time_find` does not know. -/
structure TimersOk (s : GenieTime) : Prop where
  init : s.init = true
  update : s.active ≠ [] → s.update = true
  unixTime : s.unixTime < 2 ^ 32
  timezone : -12 ≤ s.timezone ∧ s.timezone ≤ 12
  slots : SlotsOk s
  distinct : (s.active.map GenieTimer.index).Pairwise fun i j => i = j → genieTimeMax ≤ i

/-- The active nodes carry indices that can be found. -/
def LowIndices (s : GenieTime) : Prop := ∀ node ∈ s.active, node.index < genieTimeMax

/-- No slot is in the lists twice. -/
theorem SlotsOk.nodup {s : GenieTime} (h : SlotsOk s) : (timerSlots s).Nodup :=
  h.nodup_iff.2 List.nodup_range

/-- The other active nodes do not carry a node's index. -/
theorem TimersOk.index_ne {s : GenieTime} {l₁ l₂ : List GenieTimer} {node : GenieTimer}
    (h : TimersOk s) (hsplit : s.active = l₁ ++ node :: l₂) (hlt : node.index < genieTimeMax) :
    ∀ other ∈ l₁ ++ l₂, other.index ≠ node.index := by
  have hdist := h.distinct
  rw [hsplit, List.map_append, List.map_cons, List.pairwise_append, List.pairwise_cons] at hdist
  obtain ⟨-, ⟨hafter, -⟩, hcross⟩ := hdist
  intro other hother heq
  rcases List.mem_append.1 hother with hin | hin
  · have hge := hcross _ (List.mem_map_of_mem hin) _ List.mem_cons_self heq
    omega
  · have hge := hafter _ (List.mem_map_of_mem hin) heq.symm
    omega

/-- Taking a node off the active list by its slot. -/
theorem unlist_split {s : GenieTime} {node : GenieTimer} (hs : SlotsOk s)
    (hmem : node ∈ s.active) :
    ∃ l₁ l₂, s.active = l₁ ++ node :: l₂ ∧ (s.unlist node).active = l₁ ++ l₂ := by
  obtain ⟨l₁, l₂, hsplit⟩ := List.append_of_mem hmem
  refine ⟨l₁, l₂, hsplit, ?_⟩
  have hnodup : (s.active.map GenieTimer.slot).Nodup := by
    have h := hs.nodup
    rw [timerSlots, List.map_append] at h
    exact (List.nodup_append.1 h).1
  have hbefore : ∀ other ∈ l₁, ¬ (decide (other.slot = node.slot)) = true := by
    intro other hother heq
    rw [hsplit, List.map_append, List.map_cons] at hnodup
    exact (List.nodup_append.1 hnodup).2.2 _ (List.mem_map_of_mem hother) _
      List.mem_cons_self (by simpa using heq)
  simp only [GenieTime.unlist, hsplit]
  rw [List.eraseP_append_right _ (fun other hother => by simpa using hbefore other hother)]
  simp

/-- The node found by an index is active and carries it. -/
theorem genieTimeFind_some {s : GenieTime} {index : ℕ} {node : GenieTimer}
    (h : genieTimeFind s index = some node) :
    index < genieTimeMax ∧ node ∈ s.active ∧ node.index = index := by
  unfold genieTimeFind at h
  split at h
  · cases h
  · next hlt =>
    refine ⟨by omega, List.mem_of_find?_eq_some h, ?_⟩
    simpa using List.find?_some h

/-- An index that is not found is that of no active timer. -/
theorem genieTimeFind_none {s : GenieTime} {index : ℕ} (h : genieTimeFind s index = none)
    (hlt : index < genieTimeMax) : ∀ node ∈ s.active, node.index ≠ index := by
  unfold genieTimeFind at h
  rw [if_neg (by omega)] at h
  simpa using h

/-- What is left when a node is taken out of `s`. -/
structure Takes (s s' : GenieTime) (node : GenieTimer) : Prop where
  slots : (node.slot :: timerSlots s').Perm (timerSlots s)
  active : List.Sublist s'.active s.active
  clock : s'.localTime = s.localTime ∧ s'.unixTime = s.unixTime ∧ s'.timezone = s.timezone
  flags : s'.init = s.init ∧ s'.update = s.update

/-- An active timer is taken out of its list. -/
theorem unlist_takes {s : GenieTime} {node : GenieTimer} (hs : SlotsOk s)
    (hmem : node ∈ s.active) : Takes s (s.unlist node) node := by
  obtain ⟨l₁, l₂, hsplit, hactive⟩ := unlist_split hs hmem
  refine ⟨?_, ?_, ⟨rfl, rfl, rfl⟩, ⟨rfl, rfl⟩⟩
  · simp only [timerSlots, hactive, hsplit, List.map_append, List.map_cons, List.append_assoc,
      List.cons_append]
    exact List.perm_middle.symm
  · rw [hactive, hsplit]
    simp

/-- The node a start takes. -/
theorem genieTimeTake_spec {s s' : GenieTime} {index : ℕ} {node : GenieTimer} (hs : TimersOk s)
    (h : genieTimeTake s index = some (node, s')) :
    Takes s s' node ∧ (index < genieTimeMax → ∀ other ∈ s'.active, other.index ≠ index) := by
  unfold genieTimeTake at h
  split at h
  · next found hfind =>
    cases h
    obtain ⟨hlt, hmem, hindex⟩ := genieTimeFind_some hfind
    obtain ⟨l₁, l₂, hsplit, hactive⟩ := unlist_split hs.slots hmem
    refine ⟨unlist_takes hs.slots hmem, fun _ => ?_⟩
    rw [hactive, ← hindex]
    exact hs.index_ne hsplit (hindex.symm ▸ hlt)
  · next hnone =>
    split at h
    · cases h
    · next first idle hidle =>
      cases h
      refine ⟨⟨?_, List.Sublist.refl _, ⟨rfl, rfl, rfl⟩, ⟨rfl, rfl⟩⟩, fun hlt => ?_⟩
      · simp only [timerSlots, hidle, List.map_append, List.map_cons]
        exact List.perm_middle.symm
      · exact genieTimeFind_none hnone hlt

/-- A node with the slot of the one taken goes to the end of the active list. -/
theorem Takes.slotsOk_active {s s' s'' : GenieTime} {node node' : GenieTimer} (h : Takes s s' node)
    (hs : SlotsOk s) (hslot : node'.slot = node.slot) (hactive : s''.active = s'.active ++ [node'])
    (hidle : s''.idle = s'.idle) : SlotsOk s'' := by
  have hperm : (timerSlots s'').Perm (node.slot :: timerSlots s') := by
    simp only [timerSlots, hactive, hidle, List.map_append, List.map_cons, hslot,
      List.append_assoc, List.singleton_append]
    exact List.perm_middle
  exact (hperm.trans h.slots).trans hs

/-- Or to the end of the idle list. -/
theorem Takes.slotsOk_idle {s s' s'' : GenieTime} {node node' : GenieTimer} (h : Takes s s' node)
    (hs : SlotsOk s) (hslot : node'.slot = node.slot) (hactive : s''.active = s'.active)
    (hidle : s''.idle = s'.idle ++ [node']) : SlotsOk s'' := by
  have hperm : (timerSlots s'').Perm (node.slot :: timerSlots s') := by
    simp only [timerSlots, hactive, hidle, List.map_append, List.map_cons, List.map_nil, hslot]
    rw [← List.append_assoc]
    exact List.perm_append_singleton _ _
  exact (hperm.trans h.slots).trans hs

/-- What a call does to the timers. -/
def SlotEffect (s s' : GenieTime) (keeps : Prop) : Prop :=
  TimersOk s → TimersOk s' ∧ (LowIndices s → keeps → LowIndices s')

/-- Nothing is done. -/
theorem SlotEffect.refl (s : GenieTime) (keeps : Prop) : SlotEffect s s keeps :=
  fun hs => ⟨hs, fun h _ => h⟩

/-- Two effects on the slots, one behind the other. -/
theorem SlotEffect.trans {s s₁ s₂ : GenieTime} {keeps : Prop} (h₁ : SlotEffect s s₁ keeps)
    (h₂ : SlotEffect s₁ s₂ keeps) : SlotEffect s s₂ keeps :=
  fun hs => ⟨(h₂ (h₁ hs).1).1, fun hlow hk => (h₂ (h₁ hs).1).2 ((h₁ hs).2 hlow hk) hk⟩

/-- A call that does not touch the lists. -/
theorem SlotEffect.of_lists {s s' : GenieTime} {keeps : Prop} (hactive : s'.active = s.active)
    (hidle : s'.idle = s.idle) (hinit : s'.init = s.init)
    (hupdate : s.update = true → s'.update = true)
    (htime : s.unixTime < 2 ^ 32 → s'.unixTime < 2 ^ 32)
    (hzone : -12 ≤ s.timezone ∧ s.timezone ≤ 12 → -12 ≤ s'.timezone ∧ s'.timezone ≤ 12) :
    SlotEffect s s' keeps := by
  intro hs
  refine ⟨⟨by rw [hinit]; exact hs.init, fun h => hupdate (hs.update (hactive ▸ h)),
    htime hs.unixTime, hzone hs.timezone, ?_, by rw [hactive]; exact hs.distinct⟩, fun hlow _ => ?_⟩
  · unfold SlotsOk timerSlots
    rw [hactive, hidle]
    exact hs.slots
  · unfold LowIndices
    rw [hactive]
    exact hlow

/-- The taken node, edited to carry `index`, becomes active. -/
theorem Takes.timersOk {s s' : GenieTime} {node node' : GenieTimer} {index : ℕ}
    (h : Takes s s' node) (hs : TimersOk s) (hupd : s.update = true)
    (hfresh : index < genieTimeMax → ∀ other ∈ s'.active, other.index ≠ index)
    (hslot : node'.slot = node.slot) (hindex : node'.index = index) :
    TimersOk { s' with active := s'.active ++ [node'] } where
  init := h.flags.1.trans hs.init
  update := fun _ => h.flags.2.trans hupd
  unixTime := h.clock.2.1 ▸ hs.unixTime
  timezone := h.clock.2.2 ▸ hs.timezone
  slots := h.slotsOk_active hs.slots hslot rfl rfl
  distinct := by
    rw [List.map_append, List.pairwise_append]
    refine ⟨hs.distinct.sublist (h.active.map _), by simp, ?_⟩
    intro i hi j hj heq
    obtain ⟨other, hother, rfl⟩ := List.mem_map.1 hi
    simp only [List.map_cons, List.map_nil, List.mem_singleton] at hj
    by_contra hlt
    exact hfresh (by omega) other hother (by omega)

/-- A start of either kind. -/
theorem SlotEffect.start {s : GenieTime} {index : ℕ} {keeps : Prop} {r : Option GtError × GenieTime}
    (edit : GenieTime → GenieTimer → GenieTimer) (hslot : ∀ s node, (edit s node).slot = node.slot)
    (hindex : ∀ s node, (edit s node).index = index) (hupd : s.update = true)
    (hkeeps : keeps → s.idle ≠ [] → index < genieTimeMax)
    (hr : r = match genieTimeTake s index with
      | none => (some .noresource, s)
      | some (node, s) => (none, { s with active := s.active ++ [edit s node] })) :
    SlotEffect s r.2 keeps := by
  cases htake : genieTimeTake s index with
  | none =>
    rw [htake] at hr
    rw [hr]
    exact .refl s keeps
  | some p =>
    obtain ⟨node, s'⟩ := p
    rw [htake] at hr
    rw [hr]
    intro hs
    obtain ⟨htakes, hfresh⟩ := genieTimeTake_spec hs htake
    refine ⟨htakes.timersOk hs hupd hfresh (hslot s' node) (hindex s' node), fun hlow hk => ?_⟩
    have hlt : index < genieTimeMax := by
      by_contra hge
      have hfind : genieTimeFind s index = none := if_pos (by omega)
      have hidle : s.idle ≠ [] := by
        intro hnil
        simp [genieTimeTake, hfind, hnil] at htake
      exact hge (hkeeps hk hidle)
    intro other hother
    rcases List.mem_append.1 hother with hin | hin
    · exact hlow other (htakes.active.subset hin)
    · rw [List.mem_singleton.1 hin, hindex]
      exact hlt

/-- What `genie_time_start` does to the slots. -/
theorem genieTimeStart_effect (s : GenieTime) (index unixTime : ℕ) (attrData : VendorAttrData) :
    SlotEffect s (genieTimeStart s index (unixTime % 2 ^ 32) attrData).2
      (KeepsIndex s (.start index unixTime attrData)) := by
  unfold genieTimeStart
  split
  · exact .refl s _
  · split
    · exact .refl s _
    · next hupd =>
      split
      · exact .refl s _
      · next hlate =>
        exact SlotEffect.start
          (fun _ node => { node with
            index := index, unixtimeMatch := unixTime % 2 ^ 32, state := .on
            attrData := attrData })
          (fun _ _ => rfl) (fun _ _ => rfl) (by simpa using hupd)
          (fun hk => hk (by simpa using hupd) (by omega)) rfl

/-- What `genie_time_periodic_start` does to them. -/
theorem genieTimePeriodicStart_effect (s : GenieTime) (index periodicTime schedule : ℕ)
    (attrData : VendorAttrData) :
    SlotEffect s (genieTimePeriodicStart s index periodicTime schedule attrData).2
      (KeepsIndex s (.periodicStart index periodicTime schedule attrData)) := by
  unfold genieTimePeriodicStart
  split
  · exact .refl s _
  · split
    · exact .refl s _
    · next hupd =>
      split
      · exact .refl s _
      · next hsched =>
        exact SlotEffect.start
          (fun s node => { node with
            index := index, periodic := true, periodicTime := periodicTime, schedule := schedule
            state := .on, attrData := attrData
            unixtimeMatch := toU32 (utc2Unix
              { s.localTime with
                hour := 0, minutes := 0, seconds := 0
                day := (s.localTime.day + nextWeekdayDiffGet s.localTime.weekday schedule) % 256 } +
                periodicTime - s.timezone * hourSecs) })
          (fun _ _ => rfl) (fun _ _ => rfl) (by simpa using hupd)
          (fun hk => hk (by simpa using hupd) hsched) rfl

/-- A stop that finds the node. -/
theorem genieTimeStop_effect (s : GenieTime) (index : ℤ) (keeps : Prop) :
    SlotEffect s (genieTimeStop s index).2 keeps := by
  unfold genieTimeStop
  split
  · exact .refl s _
  · split
    · exact .refl s _
    · split
      · exact .refl s _
      · split
        · exact .refl s _
        · next node hfind =>
          obtain ⟨-, hmem, -⟩ := genieTimeFind_some hfind
          intro hs
          have htakes := unlist_takes hs.slots hmem
          refine ⟨⟨hs.init, fun _ => hs.update (List.ne_nil_of_mem hmem), hs.unixTime, hs.timezone,
            ?_, hs.distinct.sublist (htakes.active.map _)⟩,
            fun hlow _ other hother => hlow other (htakes.active.subset hother)⟩
          refine htakes.slotsOk_idle hs.slots ?_ rfl rfl
          rfl

/-- The removal of all timers is a stop of each, so what a stop keeps a removal keeps. -/
theorem genieTimeRemove_of_stop {p : GenieTime → Prop}
    (hstop : ∀ s index, p s → p (genieTimeStop s index).2) {s : GenieTime} (hs : p s) (index : ℤ) :
    p (genieTimeRemove s index).2 := by
  have hfold : ∀ (is : List ℕ) (s : GenieTime), p s →
      p (is.foldl (fun s i => (genieTimeStop s i).2) s) := by
    intro is
    induction is with
    | nil => exact fun _ hs => hs
    | cons i is ih => exact fun s hs => ih _ (hstop s i hs)
  unfold genieTimeRemove
  split
  · dsimp only
    generalize List.range genieTimeMax = is
    exact hfold is s hs
  · exact hstop s index hs

/-- What `genie_time_remove` does to them. -/
theorem genieTimeRemove_effect (s : GenieTime) (index : ℤ) (keeps : Prop) :
    SlotEffect s (genieTimeRemove s index).2 keeps :=
  genieTimeRemove_of_stop (p := fun t => SlotEffect s t keeps)
    (fun t i h => h.trans (genieTimeStop_effect t i keeps)) (.refl s keeps) index

/-- The walk of the work item sorts the nodes into the two lists. -/
theorem genieTimeWalk_slots (s : GenieTime) (l : List GenieTimer) :
    ((genieTimeWalk s l).1.map GenieTimer.slot ++
        (genieTimeWalk s l).2.1.map GenieTimer.slot).Perm (l.map GenieTimer.slot) ∧
      List.Sublist ((genieTimeWalk s l).1.map GenieTimer.index) (l.map GenieTimer.index) := by
  induction l with
  | nil => exact ⟨List.Perm.refl _, List.Sublist.refl _⟩
  | cons node rest ih =>
    unfold genieTimeWalk
    dsimp only
    split
    · split
      · exact ⟨by simpa [genieTimeRearm] using ih.1, by simpa [genieTimeRearm] using ih.2⟩
      · refine ⟨?_, by simpa using ih.2.cons node.index⟩
        simp only [List.map_cons]
        exact List.perm_middle.trans (ih.1.cons node.slot)
    · exact ⟨by simpa using ih.1, by simpa using ih.2⟩

/-- What the synchronisation does to them. -/
theorem genieTimeSync_effect (s : GenieTime) (ret : ℤ) (keeps : Prop) :
    SlotEffect s (genieTimeSync s ret) keeps := by
  unfold genieTimeSync
  split
  · split <;> exact .of_lists rfl rfl rfl id id id
  · exact .refl s _

/-- Firings. -/
theorem genieTimeDoWork_effect (s : GenieTime) (ret : ℤ) (keeps : Prop) :
    SlotEffect s (genieTimeDoWork s ret) keeps := by
  refine SlotEffect.trans ?_ (genieTimeSync_effect _ ret keeps)
  obtain ⟨hperm, hsub⟩ := genieTimeWalk_slots s s.active
  intro hs
  refine ⟨⟨hs.init, fun h => hs.update (fun hnil => h ?_), hs.unixTime, hs.timezone, ?_,
    hs.distinct.sublist hsub⟩, fun hlow _ node hmem => ?_⟩
  · rw [hnil]
    rfl
  · unfold SlotsOk timerSlots
    refine List.Perm.trans ?_ hs.slots
    simp only [timerSlots, List.map_append]
    refine List.Perm.trans ?_ (hperm.append_right _)
    rw [List.append_assoc]
    exact List.perm_append_comm.append_left _
  · obtain ⟨other, hother, heq⟩ := List.mem_map.1 (hsub.subset (List.mem_map_of_mem hmem))
    rw [← heq]
    exact hlow other hother

/-- What one tick does to them. -/
theorem timerUpdate_effect (s : GenieTime) (keeps : Prop) : SlotEffect s (timerUpdate s) keeps := by
  unfold timerUpdate
  split
  · exact .of_lists rfl rfl rfl id (fun _ => Nat.mod_lt _ (by norm_num)) id
  · exact .refl s _

/-- Every call. -/
theorem genieTimeStep_effect {s s' : GenieTime} {a : GenieTimeAct}
    (h : genieTimeStep s a = some s') : SlotEffect s s' (KeepsIndex s a) := by
  cases a with
  | start index unixTime attrData =>
    cases h
    exact genieTimeStart_effect s index unixTime attrData
  | periodicStart index periodicTime schedule attrData =>
    cases h
    exact genieTimePeriodicStart_effect s index periodicTime schedule attrData
  | remove index =>
    cases h
    exact genieTimeRemove_effect s (toI8 index) _
  | timerUpdate =>
    cases h
    exact timerUpdate_effect s _
  | doWork ret =>
    cases h
    exact genieTimeDoWork_effect s ret _
  | localTimeUpdate unixTime =>
    cases h
    unfold genieTimeLocalTimeUpdate
    split
    · exact .refl s _
    · exact .of_lists rfl rfl rfl (fun _ => rfl) (fun _ => Nat.mod_lt _ (by norm_num)) id
  | timezoneUpdate timezone =>
    cases h
    unfold genieTimeTimezoneUpdate
    split_ifs with hrange
    · exact .refl s _
    · exact .refl s _
    · exact .of_lists rfl rfl rfl id id (fun _ => by dsimp only; omega)
  | timeSyncSet periodTime retryDelay retryTimes =>
    cases h
    unfold genieTimeTimeSyncSet
    split
    · exact .refl s _
    · exact .of_lists rfl rfl rfl id id id

/-- A timer with an index that can be found is removed by that index. -/
theorem genieTimeRemove_removes {s : GenieTime} {node : GenieTimer} (hs : TimersOk s)
    (hlow : LowIndices s) (hmem : node ∈ s.active) :
    (genieTimeRemove s (toI8 node.index)).1 = none ∧
      ∀ other ∈ (genieTimeRemove s (toI8 node.index)).2.active, other.index ≠ node.index := by
  have hlt : node.index < 40 := hlow node hmem
  have hi8 : toI8 node.index = node.index := if_pos (by omega)
  have hfind : ∃ found, genieTimeFind s node.index = some found := by
    cases hfind : genieTimeFind s node.index with
    | none => exact absurd rfl (genieTimeFind_none hfind hlt node hmem)
    | some found => exact ⟨found, rfl⟩
  obtain ⟨found, hfound⟩ := hfind
  have hstop : genieTimeStop s node.index =
      (none,
        { s.unlist found with
          idle := (s.unlist found).idle ++
            [{ found with index := 0xFF, state := .invalid, unixtimeMatch := 0 }] }) := by
    unfold genieTimeStop
    rw [if_neg (by simp [hs.init]), if_neg (by simp [hs.update (List.ne_nil_of_mem hmem)]),
      if_neg (by simp only [genieTimeMax]; omega),
      show (((node.index : ℤ) % 256).toNat) = node.index by omega, hfound]
  have htake : genieTimeTake s node.index = some (found, s.unlist found) := by
    simp [genieTimeTake, hfound]
  rw [hi8, genieTimeRemove, if_neg (by omega), hstop]
  exact ⟨rfl, (genieTimeTake_spec hs htake).2 hlt⟩

/-- At the start all slots are idle. -/
theorem slotsOk_init : SlotsOk genieTimeInit := by
  unfold SlotsOk timerSlots genieTimeInit
  simp [Function.comp_def]

/-- At the start no timer is active. -/
theorem timersOk_init : TimersOk genieTimeInit where
  init := rfl
  update := by simp [genieTimeInit]
  unixTime := by simp [genieTimeInit]
  timezone := by simp [genieTimeInit]
  slots := slotsOk_init
  distinct := by simp [genieTimeInit]

/-- The active timers are right in every run. -/
theorem timersOk_run {as : List GenieTimeAct} {s : GenieTime}
    (hrun : runSteps genieTimeStep genieTimeInit as = some s) : TimersOk s :=
  runSteps_inv (P := fun _ _ => True) (I := TimersOk)
    (fun _ _ _ hs _ h => (genieTimeStep_effect h hs).1) timersOk_init
    (stepsMeet_of_forall (fun _ _ _ => trivial) _) hrun

/-- **Timer slots.** In every run from the initialisation each timer node is in exactly one of the
two lists, once; and if every successful start has an index below `GENIE_TIME_MAX`, no two active
timers carry one index and each can be removed by its index. -/
theorem timer_slots_conserved (as : List GenieTimeAct) (s : GenieTime)
    (hrun : runSteps genieTimeStep genieTimeInit as = some s) :
    (timerSlots s).Perm (List.range genieTimeMax) ∧
      (StepsMeet genieTimeStep KeepsIndex genieTimeInit as →
        (s.active.map GenieTimer.index).Nodup ∧
        ∀ node ∈ s.active, (genieTimeRemove s (toI8 node.index)).1 = none ∧
          ∀ other ∈ (genieTimeRemove s (toI8 node.index)).2.active, other.index ≠ node.index) := by
  have hok : TimersOk s := timersOk_run hrun
  refine ⟨hok.slots, fun hmeet => ?_⟩
  have hlow : LowIndices s := by
    refine (runSteps_inv (I := fun s => TimersOk s ∧ LowIndices s) ?_ ⟨timersOk_init, ?_⟩ hmeet
      hrun).2
    · intro s a s' hs hk h
      obtain ⟨hok', hlow'⟩ := genieTimeStep_effect h hs.1
      exact ⟨hok', hlow' hs.2 hk⟩
    · simp [LowIndices, genieTimeInit]
  refine ⟨?_, fun node hmem => genieTimeRemove_removes hok hlow hmem⟩
  refine hok.distinct.imp_of_mem ?_
  intro i j hi _ hij heq
  obtain ⟨node, hmem, rfl⟩ := List.mem_map.1 hi
  have hlt := hlow node hmem
  have hge := hij heq
  omega

/-- The clock is set, timer 3 is started, fires and is started again. -/
def slotRun : List GenieTimeAct :=
  [.localTimeUpdate 1610668800, .start 3 1610668801 { type := 0x100, para := 1 }, .timerUpdate,
    .doWork 0, .start 3 1610668900 { type := 0x100, para := 0 }]

/-- A timer is started twice and fires: one is active, and all forty slots are there. -/
theorem timer_slots_conserved_restart :
    ∃ s, runSteps genieTimeStep genieTimeInit slotRun = some s ∧ s.active.length = 1 ∧
      s.idle.length = 39 ∧ s.log.length = 1 ∧ (timerSlots s).Perm (List.range genieTimeMax) ∧
      (s.active.map GenieTimer.index).Nodup := by
  refine ⟨_, rfl, by decide, by decide, by decide, ?_, ?_⟩
  · exact (timer_slots_conserved slotRun _ rfl).1
  · exact ((timer_slots_conserved slotRun _ rfl).2 (by decide)).1

/-- Timer 40 is started twice: two active nodes carry it and it cannot be removed. -/
theorem timer_slots_index_forty :
    ¬ ∀ (as : List GenieTimeAct) (s : GenieTime),
      runSteps genieTimeStep genieTimeInit as = some s →
        (s.active.map GenieTimer.index).Nodup ∧
        ∀ node ∈ s.active, (genieTimeRemove s (toI8 node.index)).1 = none := by
  intro hall
  have h := hall
    [.localTimeUpdate 1610668800, .start 40 1610668900 { type := 0x100, para := 1 },
      .start 40 1610668900 { type := 0x100, para := 1 }] _ rfl
  revert h
  decide

end GenieSdk.Analysis
