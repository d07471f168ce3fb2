import GenieSdk.Analysis.CalendarRoundTrip
import GenieSdk.Analysis.TimerSlots

/-!
# Periodic timers

Seconds are counted in local time: a periodic timer is due at the seconds whose time of day is
its `periodic_time` and whose weekday is in its schedule. Every later match is computed from the
weekday alone and is right, so a timer keeps its schedule exactly when its first match is the
next due second. `genie_time_periodic_start` computes the first match from the date: it may lie in
the past, and from 2101 on it is a day late.
-/

set_option autoImplicit false

namespace GenieSdk.Analysis

open GenieSdk.Lib
open GenieSdk.Model

/-- The timer is due at local second `x`. -/
def DueAt (schedule periodicTime x : ℕ) : Prop :=
  x % daySecs = periodicTime ∧ isWeekdayMatch ((x / daySecs + 4) % 7) schedule = true

instance (schedule periodicTime x : ℕ) : Decidable (DueAt schedule periodicTime x) :=
  inferInstanceAs (Decidable (_ ∧ _))

/-- `m` is the first second after `x` with `p`. -/
structure IsNext (p : ℕ → Prop) (x m : ℕ) : Prop where
  lt : x < m
  due : p m
  first : ∀ y, x < y → y < m → ¬ p y

/-- The number of days to the next scheduled weekday. -/
theorem nextWeekdayDiffGet_spec {w schedule : ℕ} (hw : w < 7) (hpos : schedule ≠ 0)
    (hle : schedule < 128) :
    nextWeekdayDiffGet w schedule < 7 ∧
      isWeekdayMatch ((w + nextWeekdayDiffGet w schedule) % 7) schedule = true ∧
      ∀ d < nextWeekdayDiffGet w schedule, isWeekdayMatch ((w + d) % 7) schedule = false := by
  have hall : ∀ w < 7, ∀ schedule < 128, schedule ≠ 0 →
      nextWeekdayDiffGet w schedule < 7 ∧
        isWeekdayMatch ((w + nextWeekdayDiffGet w schedule) % 7) schedule = true ∧
        ∀ d < nextWeekdayDiffGet w schedule, isWeekdayMatch ((w + d) % 7) schedule = false := by
    decide +kernel
  exact hall w hw schedule hle hpos

/-- The timers of a message: a schedule of weekdays and a time of day. -/
structure Periodic (schedule periodicTime : ℕ) : Prop where
  pos : schedule ≠ 0
  lt : schedule < 128
  time : periodicTime < daySecs

section Due

variable {schedule periodicTime : ℕ} (hp : Periodic schedule periodicTime)
include hp

/-- A timer is due on the days of its schedule. -/
theorem dueAt_day (d : ℕ) :
    DueAt schedule periodicTime (d * daySecs + periodicTime) ↔
      isWeekdayMatch ((d + 4) % 7) schedule = true := by
  have htime := hp.time
  unfold daySecs at htime
  have hmod : (d * daySecs + periodicTime) % daySecs = periodicTime := by
    unfold daySecs
    omega
  have hdiv : (d * daySecs + periodicTime) / daySecs = d := by
    unfold daySecs
    omega
  simp [DueAt, hmod, hdiv]

/-- The first due second from day `d` on. -/
def firstFrom (schedule periodicTime d : ℕ) : ℕ :=
  (d + nextWeekdayDiffGet ((d + 4) % 7) schedule) * daySecs + periodicTime

omit hp in
/-- A due second is the time of day on its day. -/
theorem DueAt.eq {x : ℕ} (h : DueAt schedule periodicTime x) :
    x = x / daySecs * daySecs + periodicTime := by
  have := Nat.div_add_mod' x daySecs
  rw [h.1] at this
  exact this.symm

/-- The first day that matches is one. -/
theorem dueAt_firstFrom (d : ℕ) :
    DueAt schedule periodicTime (firstFrom schedule periodicTime d) := by
  obtain ⟨-, hmatch, -⟩ := nextWeekdayDiffGet_spec (Nat.mod_lt (d + 4) (by norm_num : 7 > 0))
    hp.pos hp.lt
  refine (dueAt_day hp _).2 ?_
  rw [show d + nextWeekdayDiffGet ((d + 4) % 7) schedule + 4 =
    d + 4 + nextWeekdayDiffGet ((d + 4) % 7) schedule by omega, ← Nat.mod_add_mod]
  exact hmatch

/-- No day before it is due. -/
theorem not_dueAt_before_firstFrom {d x : ℕ} (hday : d ≤ x / daySecs)
    (hlt : x < firstFrom schedule periodicTime d) : ¬ DueAt schedule periodicTime x := by
  intro hdue
  obtain ⟨-, -, hnone⟩ := nextWeekdayDiffGet_spec (Nat.mod_lt (d + 4) (by norm_num : 7 > 0))
    hp.pos hp.lt
  have hx := hdue.eq
  have hday' : x / daySecs - d < nextWeekdayDiffGet ((d + 4) % 7) schedule := by
    unfold firstFrom at hlt
    rw [hx] at hlt
    have : x / daySecs < d + nextWeekdayDiffGet ((d + 4) % 7) schedule :=
      Nat.lt_of_mul_lt_mul_right (Nat.lt_of_add_lt_add_right hlt)
    omega
  have hno := hnone _ hday'
  rw [Nat.mod_add_mod, show d + 4 + (x / daySecs - d) = x / daySecs + 4 by omega] at hno
  rw [hdue.2] at hno
  cases hno

/-- Counted from a day that has begun or whose predecessor's time of day has passed,
the first due second is the next one. -/
theorem isNext_firstFrom {x d : ℕ} (hlt : x < firstFrom schedule periodicTime d)
    (hday : ∀ y, x < y → DueAt schedule periodicTime y → d ≤ y / daySecs) :
    IsNext (DueAt schedule periodicTime) x (firstFrom schedule periodicTime d) where
  lt := hlt
  due := dueAt_firstFrom hp d
  first := fun y hxy hy hdue => not_dueAt_before_firstFrom hp (hday y hxy hdue) hy hdue

/-- It comes within a week. -/
theorem firstFrom_le (d : ℕ) :
    firstFrom schedule periodicTime d < (d + 7) * daySecs := by
  obtain ⟨hlt, -, -⟩ := nextWeekdayDiffGet_spec (Nat.mod_lt (d + 4) (by norm_num : 7 > 0))
    hp.pos hp.lt
  have htime := hp.time
  unfold firstFrom
  unfold daySecs at htime ⊢
  omega

/-- The match computed when the timer fires is the next due second. -/
theorem isNext_rearm {x : ℕ} (hdue : DueAt schedule periodicTime x) :
    IsNext (DueAt schedule periodicTime) x
      (x + (1 + nextWeekdayDiffGet (nextWeekday ((x / daySecs + 4) % 7)) schedule) * daySecs) := by
  have hx := hdue.eq
  have hweek : nextWeekday ((x / daySecs + 4) % 7) = (x / daySecs + 1 + 4) % 7 := by
    unfold nextWeekday
    omega
  have heq : x + (1 + nextWeekdayDiffGet (nextWeekday ((x / daySecs + 4) % 7)) schedule) * daySecs =
      firstFrom schedule periodicTime (x / daySecs + 1) := by
    rw [hweek, firstFrom]
    unfold daySecs at hx ⊢
    omega
  rw [heq]
  refine isNext_firstFrom hp ?_ (fun y hxy hy => ?_)
  · unfold firstFrom
    unfold daySecs at hx ⊢
    omega
  · have hyeq := hy.eq
    unfold daySecs at hx hyeq ⊢
    omega

/-- There is always a next due second, within eight days. -/
theorem exists_isNext (x : ℕ) :
    ∃ m, IsNext (DueAt schedule periodicTime) x m ∧ m < x + 8 * daySecs := by
  have htime := hp.time
  by_cases hlate : x % daySecs < periodicTime
  · refine ⟨_, isNext_firstFrom hp (d := x / daySecs) ?_ (fun y hxy _ => ?_), ?_⟩
    · unfold firstFrom
      unfold daySecs at hlate ⊢
      omega
    · exact Nat.div_le_div_right hxy.le
    · have := firstFrom_le hp (x / daySecs)
      unfold daySecs at this ⊢
      omega
  · refine ⟨_, isNext_firstFrom hp (d := x / daySecs + 1) ?_ (fun y hxy hy => ?_), ?_⟩
    · unfold firstFrom
      unfold daySecs at hlate ⊢
      omega
    · have hyeq := hy.eq
      unfold daySecs at hlate hyeq ⊢
      omega
    · have := firstFrom_le hp (x / daySecs + 1)
      unfold daySecs at this ⊢
      omega

end Due

/-- One second: the tick and the work item it submits. -/
def second (s : GenieTime) (ret : ℤ) : GenieTime := genieTimeDoWork (timerUpdate s) ret

/-- The state after `n` seconds; `rets` are the results of the callback for the time sync. -/
def seconds (rets : ℕ → ℤ) (s : GenieTime) : ℕ → GenieTime
  | 0 => s
  | n + 1 => second (seconds rets s n) (rets n)

/-- The calls of the timeout callback in the second after the first `n`. -/
def timeoutsAt (rets : ℕ → ℤ) (s : GenieTime) (n : ℕ) : List GtTimeout :=
  (seconds rets s (n + 1)).log.drop (seconds rets s n).log.length

/-- The number of times the callback is called for a timer in that second. -/
def firings (rets : ℕ → ℤ) (s : GenieTime) (index n : ℕ) : ℕ :=
  (timeoutsAt rets s n).countP fun timeout => timeout.index = index

/-- Two seconds less than 2^32 apart have different 32-bit times. -/
theorem toU32_sub_inj {a b : ℕ} {c : ℤ} (h₁ : a < b + 2 ^ 32) (h₂ : b < a + 2 ^ 32) :
    toU32 (a - c) = toU32 (b - c) ↔ a = b := by
  unfold toU32
  refine ⟨fun h => ?_, fun h => by rw [h]⟩
  omega

/-- Adding and then wrapping is adding to the wrapped number. -/
theorem toU32_add (x : ℤ) (k : ℕ) : (toU32 x + k) % 2 ^ 32 = toU32 (x + k) := by
  unfold toU32
  omega

/-- A number is wrapped once. -/
theorem toU32_toU32 (x y : ℤ) : toU32 (toU32 x + y) = toU32 (x + y) := by
  unfold toU32
  omega

/-- The state at local second `x`: a timer is armed for local second `m`. -/
structure ArmedAt (index schedule : ℕ) (zone : ℤ) (x m : ℕ) (s : GenieTime) : Prop where
  ok : TimersOk s
  update : s.update = true
  clock : ClockAt s.localTime x
  month : s.localTime.month < 12
  unixTime : s.unixTime = toU32 (x - zone)
  armed : ∃ node ∈ s.active, node.index = index ∧ node.state ≠ .invalid ∧ node.periodic = true ∧
    node.schedule = schedule ∧ node.unixtimeMatch = toU32 (m - zone)

/-- The walk over two lists. -/
theorem genieTimeWalk_append (s : GenieTime) (l₁ l₂ : List GenieTimer) :
    genieTimeWalk s (l₁ ++ l₂) =
      ((genieTimeWalk s l₁).1 ++ (genieTimeWalk s l₂).1,
        (genieTimeWalk s l₁).2.1 ++ (genieTimeWalk s l₂).2.1,
        (genieTimeWalk s l₁).2.2 ++ (genieTimeWalk s l₂).2.2) := by
  induction l₁ with
  | nil => rfl
  | cons node rest ih =>
    simp only [List.cons_append, genieTimeWalk, ih]
    split_ifs <;> rfl

/-- The callback is called with the indices of the nodes. -/
theorem genieTimeWalk_index (s : GenieTime) (l : List GenieTimer) :
    ∀ timeout ∈ (genieTimeWalk s l).2.2, ∃ node ∈ l, timeout.index = node.index := by
  induction l with
  | nil => simp [genieTimeWalk]
  | cons node rest ih =>
    intro timeout hmem
    unfold genieTimeWalk at hmem
    dsimp only at hmem
    have hrest : timeout ∈ (genieTimeWalk s rest).2.2 →
        ∃ n ∈ node :: rest, timeout.index = n.index := by
      intro h
      obtain ⟨n, hn, heq⟩ := ih timeout h
      exact ⟨n, List.mem_cons_of_mem _ hn, heq⟩
    split at hmem
    · split at hmem
      · rcases List.mem_cons.1 hmem with rfl | h
        · exact ⟨node, List.mem_cons_self, rfl⟩
        · exact hrest h
      · rcases List.mem_cons.1 hmem with rfl | h
        · exact ⟨node, List.mem_cons_self, rfl⟩
        · exact hrest h
    · exact hrest hmem

/-- A timer that is not in the list does not fire. -/
theorem genieTimeWalk_countP_zero {s : GenieTime} {l : List GenieTimer} {index : ℕ}
    (h : ∀ node ∈ l, node.index ≠ index) :
    (genieTimeWalk s l).2.2.countP (fun timeout => timeout.index = index) = 0 := by
  refine List.countP_eq_zero.2 (fun timeout hmem => ?_)
  obtain ⟨node, hnode, heq⟩ := genieTimeWalk_index s l timeout hmem
  simpa [heq] using h node hnode

/-- The walk as one periodic node sees it. -/
theorem genieTimeWalk_node {s : GenieTime} {node : GenieTimer} (hs : TimersOk s)
    (hmem : node ∈ s.active) (hlt : node.index < genieTimeMax) (hstate : node.state ≠ .invalid)
    (hper : node.periodic = true) :
    (genieTimeWalk s s.active).2.2.countP (fun timeout => timeout.index = node.index) =
        (if node.unixtimeMatch = s.unixTime then 1 else 0) ∧
      (if node.unixtimeMatch = s.unixTime then genieTimeRearm s node else node) ∈
        (genieTimeWalk s s.active).1 := by
  obtain ⟨l₁, l₂, hsplit⟩ := List.append_of_mem hmem
  have hne := hs.index_ne hsplit hlt
  have hzero₁ : (genieTimeWalk s l₁).2.2.countP (fun timeout => timeout.index = node.index) = 0 :=
    genieTimeWalk_countP_zero (fun n hn => hne n (by simp [hn]))
  have hzero₂ : (genieTimeWalk s l₂).2.2.countP (fun timeout => timeout.index = node.index) = 0 :=
    genieTimeWalk_countP_zero (fun n hn => hne n (by simp [hn]))
  rw [hsplit, genieTimeWalk_append]
  by_cases hfire : node.unixtimeMatch = s.unixTime
  · have htimeout : isGenieTimeTimeout s node = true := by
      simp [isGenieTimeTimeout, hstate, hfire]
    simp [genieTimeWalk, htimeout, hper, hfire, hzero₁, hzero₂]
  · have htimeout : isGenieTimeTimeout s node = false := by
      simp [isGenieTimeTimeout, hfire]
    simp [genieTimeWalk, htimeout, hfire, hzero₁, hzero₂]

/-- The synchronisation leaves the timers and the time. -/
theorem genieTimeSync_fields (s : GenieTime) (ret : ℤ) :
    (genieTimeSync s ret).active = s.active ∧ (genieTimeSync s ret).log = s.log ∧
      (genieTimeSync s ret).update = s.update ∧ (genieTimeSync s ret).localTime = s.localTime ∧
      (genieTimeSync s ret).unixTime = s.unixTime := by
  unfold genieTimeSync
  split
  · split <;> exact ⟨rfl, rfl, rfl, rfl, rfl⟩
  · exact ⟨rfl, rfl, rfl, rfl, rfl⟩

/-- One second of an armed timer. It fires if its match is that second, and is then
armed for the day the weekdays give; otherwise nothing changes for it. -/
theorem ArmedAt.step {index schedule x m : ℕ} {zone : ℤ} {s : GenieTime}
    (h : ArmedAt index schedule zone x m s) (hlt : index < genieTimeMax)
    (hnear : m < x + 1 + 2 ^ 32 ∧ x + 1 < m + 2 ^ 32) (ret : ℤ) :
    ((second s ret).log.drop s.log.length).countP (fun timeout => timeout.index = index) =
        (if m = x + 1 then 1 else 0) ∧
      ArmedAt index schedule zone (x + 1)
        (if m = x + 1 then
          m + (1 + nextWeekdayDiffGet (nextWeekday (((x + 1) / daySecs + 4) % 7)) schedule) * daySecs
        else m) (second s ret) := by
  obtain ⟨node, hmem, hindex, hstate, hper, hsched, hmatch⟩ := h.armed
  have htick : timerUpdate s =
      { s with unixTime := (s.unixTime + 1) % 2 ^ 32, localTime := secondsUpdate s.localTime } :=
    timerUpdate_eq h.update
  have hok : TimersOk (timerUpdate s) := (timerUpdate_effect s True h.ok).1
  obtain ⟨hclock, hdate⟩ := secondsUpdate_spec h.clock h.month
  have hunix : (timerUpdate s).unixTime = toU32 ((x + 1 : ℕ) - zone) := by
    rw [htick]
    dsimp only
    rw [h.unixTime]
    unfold toU32
    push_cast
    omega
  have hfires : node.unixtimeMatch = (timerUpdate s).unixTime ↔ m = x + 1 := by
    rw [hmatch, hunix]
    exact toU32_sub_inj hnear.1 hnear.2
  have hmem' : node ∈ (timerUpdate s).active := by
    rw [htick]
    exact hmem
  obtain ⟨hcount, hnode⟩ := genieTimeWalk_node hok hmem' (hindex ▸ hlt) hstate hper
  rw [hindex] at hcount
  simp only [hfires] at hcount hnode
  obtain ⟨hactive, hlog, hupd, hlocal, hunix'⟩ := genieTimeSync_fields
    { timerUpdate s with
      active := (genieTimeWalk (timerUpdate s) (timerUpdate s).active).1
      idle := (timerUpdate s).idle ++ (genieTimeWalk (timerUpdate s) (timerUpdate s).active).2.1
      log := (timerUpdate s).log ++ (genieTimeWalk (timerUpdate s) (timerUpdate s).active).2.2 } ret
  refine ⟨?_, ⟨?_, ?_, ?_, ?_, ?_, ?_⟩⟩
  · have hdrop : (second s ret).log.drop s.log.length =
        (genieTimeWalk (timerUpdate s) (timerUpdate s).active).2.2 := by
      have hsame : (timerUpdate s).log = s.log := by rw [htick]
      unfold second genieTimeDoWork
      rw [hlog, hsame, List.drop_left]
    rw [hdrop]
    exact hcount
  · exact (genieTimeDoWork_effect (timerUpdate s) ret True hok).1
  · exact hupd.trans (by rw [htick]; exact h.update)
  · have hl : (second s ret).localTime = secondsUpdate s.localTime :=
      hlocal.trans (by rw [htick])
    rw [hl]
    exact hclock
  · have hl : (second s ret).localTime = secondsUpdate s.localTime :=
      hlocal.trans (by rw [htick])
    have hmonth : (dateOf (secondsUpdate s.localTime)).month < 12 := by
      rw [hdate]
      split
      · exact dayTick_month h.month
      · exact h.month
    rw [hl]
    exact hmonth
  · exact hunix'.trans hunix
  · by_cases hm : m = x + 1
    · rw [if_pos hm] at hnode ⊢
      refine ⟨genieTimeRearm (timerUpdate s) node, hactive.symm ▸ hnode, hindex, hstate, hper,
        hsched, ?_⟩
      have hweek : (timerUpdate s).localTime.weekday = ((x + 1) / daySecs + 4) % 7 := by
        rw [htick]
        exact hclock.weekday
      simp only [genieTimeRearm, hmatch, hsched, hweek]
      rw [toU32_add]
      congr 1
      push_cast
      ring
    · rw [if_neg hm] at hnode ⊢
      exact ⟨node, hactive.symm ▸ hnode, hindex, hstate, hper, hsched, hmatch⟩

/-- The state at local second `x`: a timer is armed for its next due second. -/
def OnSchedule (index schedule periodicTime : ℕ) (zone : ℤ) (x : ℕ) (s : GenieTime) : Prop :=
  ∃ m, ArmedAt index schedule zone x m s ∧ IsNext (DueAt schedule periodicTime) x m ∧
    m ≤ x + 9 * daySecs

/-- Such a timer fires in the next second exactly if it is due then, and is armed again
for its next due second. -/
theorem OnSchedule.step {index schedule periodicTime x : ℕ} {zone : ℤ} {s : GenieTime}
    (hp : Periodic schedule periodicTime) (hlt : index < genieTimeMax)
    (h : OnSchedule index schedule periodicTime zone x s) (ret : ℤ) :
    ((second s ret).log.drop s.log.length).countP (fun timeout => timeout.index = index) =
        (if DueAt schedule periodicTime (x + 1) then 1 else 0) ∧
      OnSchedule index schedule periodicTime zone (x + 1) (second s ret) := by
  obtain ⟨m, harm, hnext, hnear⟩ := h
  have hafter := hnext.lt
  have hrange : m < x + 1 + 2 ^ 32 ∧ x + 1 < m + 2 ^ 32 := by
    unfold daySecs at hnear
    omega
  have hdue : m = x + 1 ↔ DueAt schedule periodicTime (x + 1) := by
    refine ⟨fun hm => hm ▸ hnext.due, fun hd => ?_⟩
    by_contra hm
    exact hnext.first _ (by omega) (by omega) hd
  obtain ⟨hcount, hstep⟩ := harm.step hlt hrange ret
  simp only [hdue] at hcount
  refine ⟨hcount, ?_⟩
  by_cases hm : m = x + 1
  · rw [if_pos hm, hm] at hstep
    refine ⟨_, hstep, isNext_rearm hp (hdue.1 hm), ?_⟩
    obtain ⟨hdiff, -, -⟩ := nextWeekdayDiffGet_spec
      (w := nextWeekday (((x + 1) / daySecs + 4) % 7)) (Nat.mod_lt _ (by norm_num)) hp.pos hp.lt
    unfold daySecs
    unfold daySecs at hdiff
    omega
  · rw [if_neg hm] at hstep
    exact ⟨m, hstep, ⟨by omega, hnext.due, fun y hy => hnext.first y (by omega)⟩, by omega⟩

/-- So it goes on for ever. -/
theorem OnSchedule.firings {index schedule periodicTime x : ℕ} {zone : ℤ} {s : GenieTime}
    (hp : Periodic schedule periodicTime) (hlt : index < genieTimeMax)
    (h : OnSchedule index schedule periodicTime zone x s) (rets : ℕ → ℤ) (n : ℕ) :
    firings rets s index n = if DueAt schedule periodicTime (x + n + 1) then 1 else 0 := by
  have hnow : OnSchedule index schedule periodicTime zone (x + n) (seconds rets s n) := by
    induction n with
    | zero => exact h
    | succ n ih => exact (ih.step hp hlt (rets n)).2
  exact (hnow.step hp hlt (rets n)).1

/-- A timer stays armed for its match until then. -/
theorem ArmedAt.wait {index schedule x m : ℕ} {zone : ℤ} {s : GenieTime}
    (h : ArmedAt index schedule zone x m s) (hlt : index < genieTimeMax) (rets : ℕ → ℤ) (n : ℕ)
    (hnear : m < x + 2 ^ 32 ∧ x + n < m + 2 ^ 32) (hno : ∀ j, j < n → m ≠ x + j + 1) :
    ArmedAt index schedule zone (x + n) m (seconds rets s n) := by
  induction n with
  | zero => exact h
  | succ n ih =>
    have hnow := ih (by omega) (fun j hj => hno j (by omega))
    have hstep := (hnow.step hlt (by omega) (rets n)).2
    rwa [if_neg (hno n (by omega))] at hstep

/-- **The first match decides.** -/
theorem ArmedAt.firings_iff {index schedule periodicTime x m : ℕ} {zone : ℤ} {s : GenieTime}
    (hp : Periodic schedule periodicTime) (hlt : index < genieTimeMax)
    (h : ArmedAt index schedule zone x m s) (hlo : x < m + daySecs) (hhi : m ≤ x + 9 * daySecs)
    (rets : ℕ → ℤ) :
    (∀ n, firings rets s index n = if DueAt schedule periodicTime (x + n + 1) then 1 else 0) ↔
      IsNext (DueAt schedule periodicTime) x m := by
  refine ⟨fun hall => ?_, fun hnext => OnSchedule.firings hp hlt ⟨m, h, hnext, hhi⟩ rets⟩
  obtain ⟨next, hnext, hsoon⟩ := exists_isNext hp x
  have hafter := hnext.lt
  have hcount : ∀ n, x + n + 1 < x + 9 * daySecs → (∀ j, j < n → m ≠ x + j + 1) →
      firings rets s index n = if m = x + n + 1 then 1 else 0 := by
    intro n hn hno
    unfold daySecs at hn hlo hhi
    have hwait := h.wait hlt rets n (by omega) hno
    exact (hwait.step hlt (by omega) (rets n)).1
  unfold daySecs at hlo hhi hsoon hcount
  rcases Nat.lt_trichotomy m next with hearly | heq | hlate
  · by_cases hpast : m ≤ x
    · -- the match has passed: nothing happens at the next due second
      have hfire := hcount (next - x - 1) (by omega) (fun j _ => by omega)
      rw [hall, if_pos (by rw [show x + (next - x - 1) + 1 = next by omega]; exact hnext.due),
        if_neg (by omega)] at hfire
      cases hfire
    · -- it fires before the next due second
      have hfire := hcount (m - x - 1) (by omega) (fun j _ => by omega)
      have hnot : ¬ DueAt schedule periodicTime (x + (m - x - 1) + 1) := by
        rw [show x + (m - x - 1) + 1 = m by omega]
        exact hnext.first m (by omega) hearly
      rw [hall, if_neg hnot, if_pos (by omega)] at hfire
      cases hfire
  · rw [heq]
    exact hnext
  · -- it does not fire at the next due second
    have hfire := hcount (next - x - 1) (by omega) (fun j _ => by omega)
    rw [hall, if_pos (by rw [show x + (next - x - 1) + 1 = next by omega]; exact hnext.due),
      if_neg (by omega)] at hfire
    cases hfire

/-- Midnight of a day of the month `u` lies in, which may be past the month's end. -/
theorem utc2Unix_midnight {u : UtcTime} {t day : ℕ} (h : CalendarAt u t) (ht : t < 2 ^ 32 + 2 ^ 16)
    (hday : u.day ≤ day) :
    utc2Unix { u with hour := 0, minutes := 0, seconds := 0, day := day } =
      toU32 (((t / 86400 + (day - u.day) + if 2100 < u.year then 1 else 0) * daySecs : ℕ)) := by
  rw [utc2Unix_date h ht hday 0 0 0]
  simp only [Nat.zero_mul, Nat.add_zero]

/-- The state a periodic start leaves: the timer is armed for the first scheduled day from today
on, a day later from 2101 on. -/
theorem periodicStart_armed {s s₁ : GenieTime} {index periodicTime schedule t : ℕ}
    {attrData : VendorAttrData} (hs : TimersOk s) (hp : Periodic schedule periodicTime)
    (ht : (t : ℤ) = s.unixTime + s.timezone * hourSecs) (hcal : CalendarAt s.localTime t)
    (hstart : genieTimePeriodicStart s index periodicTime schedule attrData = (none, s₁)) :
    ArmedAt index schedule (s.timezone * hourSecs) t
      (firstFrom schedule periodicTime (t / daySecs) +
        if 2100 < s.localTime.year then daySecs else 0) s₁ := by
  have hok : TimersOk s₁ := by
    have := (genieTimePeriodicStart_effect s index periodicTime schedule attrData hs).1
    rwa [hstart] at this
  obtain ⟨hclock, hdate⟩ := hcal
  have hrange : t < 2 ^ 32 + 2 ^ 16 := by
    have := hs.unixTime
    have := hs.timezone
    unfold hourSecs at ht
    omega
  have hday : s.localTime.day ≤ 31 := hdate.1.day_le.trans (monthDays_le _ _)
  obtain ⟨hdiff, -, -⟩ := nextWeekdayDiffGet_spec (Nat.mod_lt (t / 86400 + 4) (by norm_num : 7 > 0))
    hp.pos hp.lt
  unfold genieTimePeriodicStart at hstart
  split at hstart
  · cases hstart
  · split at hstart
    · cases hstart
    · next hupd =>
      split at hstart
      · cases hstart
      · cases htake : genieTimeTake s index with
        | none =>
          rw [htake] at hstart
          cases hstart
        | some p =>
          obtain ⟨node, s'⟩ := p
          obtain ⟨htakes, -⟩ := genieTimeTake_spec hs htake
          obtain ⟨hlocal, hunix, hzone⟩ := htakes.clock
          rw [htake] at hstart
          cases hstart
          refine ⟨hok, htakes.flags.2.trans (by simpa using hupd), hlocal ▸ hclock,
            hlocal ▸ hdate.1.month, ?_, ?_⟩
          · dsimp only
            rw [hunix, ht]
            exact (toU32_eq (by ring) hs.unixTime).symm
          · refine ⟨_, List.mem_append_right _ List.mem_cons_self, rfl, by simp, rfl, rfl, ?_⟩
            have hsum : (s.localTime.day + nextWeekdayDiffGet s.localTime.weekday schedule) % 256 =
                s.localTime.day + nextWeekdayDiffGet s.localTime.weekday schedule := by
              rw [hclock.weekday]
              omega
            dsimp only
            rw [hlocal, hzone, hsum,
              utc2Unix_midnight ⟨hclock, hdate⟩ hrange (Nat.le_add_right _ _), hclock.weekday,
              add_sub_assoc, toU32_toU32, Nat.add_sub_cancel_left]
            refine congrArg toU32 ?_
            unfold firstFrom daySecs
            split_ifs <;> push_cast <;> ring

/-- **When the first match is the next due second.** Until 2100: unless today is scheduled and
its time has come. After that: if today is scheduled, its time has come, and tomorrow is scheduled
too. -/
def FirstMatchNext (u : UtcTime) (schedule periodicTime : ℕ) : Prop :=
  if u.year ≤ 2100 then
    ¬ (isWeekdayMatch u.weekday schedule = true ∧ periodicTime ≤ timeOfDay u)
  else
    isWeekdayMatch u.weekday schedule = true ∧ periodicTime ≤ timeOfDay u ∧
      isWeekdayMatch (nextWeekday u.weekday) schedule = true

instance (u : UtcTime) (schedule periodicTime : ℕ) :
    Decidable (FirstMatchNext u schedule periodicTime) := by
  unfold FirstMatchNext
  infer_instance

/-- The first scheduled day from today on counts unless it is today and too late. -/
theorem lt_firstFrom_iff {schedule periodicTime t : ℕ} (hp : Periodic schedule periodicTime) :
    t < firstFrom schedule periodicTime (t / daySecs) ↔
      ¬ (isWeekdayMatch ((t / daySecs + 4) % 7) schedule = true ∧ periodicTime ≤ t % daySecs) := by
  obtain ⟨-, hmatch, hnone⟩ := nextWeekdayDiffGet_spec
    (Nat.mod_lt (t / daySecs + 4) (by norm_num : 7 > 0)) hp.pos hp.lt
  have hsplit := Nat.div_add_mod' t daySecs
  have hmod := Nat.mod_lt t (show daySecs > 0 by decide)
  unfold firstFrom
  rcases Nat.eq_zero_or_pos (nextWeekdayDiffGet ((t / daySecs + 4) % 7) schedule) with hzero | hpos
  · rw [hzero, Nat.add_zero, Nat.mod_mod] at hmatch
    rw [hzero, Nat.add_zero]
    simp only [hmatch, true_and]
    omega
  · have htoday : isWeekdayMatch ((t / daySecs + 4) % 7) schedule = false := by
      have := hnone 0 hpos
      rwa [Nat.add_zero, Nat.mod_mod] at this
    refine iff_of_true ?_ (by simp [htoday])
    unfold daySecs at hsplit hmod hpos ⊢
    omega

/-- A day after the first scheduled day is the next due second only if the first one is
past and it is scheduled itself. -/
theorem isNext_dayLate_iff {schedule periodicTime t : ℕ} (hp : Periodic schedule periodicTime) :
    IsNext (DueAt schedule periodicTime) t
        (firstFrom schedule periodicTime (t / daySecs) + daySecs) ↔
      isWeekdayMatch ((t / daySecs + 4) % 7) schedule = true ∧ periodicTime ≤ t % daySecs ∧
        isWeekdayMatch ((t / daySecs + 1 + 4) % 7) schedule = true := by
  have hpast := lt_firstFrom_iff (t := t) hp
  have htomorrow : firstFrom schedule periodicTime (t / daySecs) ≤ t →
      firstFrom schedule periodicTime (t / daySecs) + daySecs =
        (t / daySecs + 1) * daySecs + periodicTime := by
    intro hle
    unfold firstFrom at hle ⊢
    unfold daySecs at hle ⊢
    omega
  constructor
  · intro hnext
    have hle : firstFrom schedule periodicTime (t / daySecs) ≤ t := by
      by_contra hlt
      refine hnext.first _ (Nat.lt_of_not_le hlt) ?_ (dueAt_firstFrom hp _)
      exact Nat.lt_add_of_pos_right (by decide)
    obtain ⟨htoday, htime⟩ := not_not.1 (mt hpast.2 (Nat.not_lt.2 hle))
    have hdue := hnext.due
    rw [htomorrow hle, dueAt_day hp] at hdue
    exact ⟨htoday, htime, hdue⟩
  · rintro ⟨htoday, htime, htom⟩
    have hle : firstFrom schedule periodicTime (t / daySecs) ≤ t :=
      Nat.not_lt.1 (fun hlt => hpast.1 hlt ⟨htoday, htime⟩)
    have hsplit := Nat.div_add_mod' t daySecs
    have hmod := Nat.mod_lt t (show daySecs > 0 by decide)
    rw [htomorrow hle]
    refine ⟨?_, (dueAt_day hp _).2 htom, fun y hy hlt hdue => ?_⟩
    · unfold daySecs at hsplit hmod ⊢
      omega
    · have hyeq := hdue.eq
      unfold daySecs at hsplit hmod hyeq htime hlt
      omega

/-- The second that is computed is the next due one if and only if `FirstMatchNext` holds. -/
theorem isNext_iff_firstMatchNext {schedule periodicTime t : ℕ} {u : UtcTime}
    (hp : Periodic schedule periodicTime) (hclock : ClockAt u t) :
    IsNext (DueAt schedule periodicTime) t
        (firstFrom schedule periodicTime (t / daySecs) + if 2100 < u.year then daySecs else 0) ↔
      FirstMatchNext u schedule periodicTime := by
  have hweek : u.weekday = (t / daySecs + 4) % 7 := hclock.weekday
  have hnextWeek : nextWeekday u.weekday = (t / daySecs + 1 + 4) % 7 := by
    rw [hweek]
    unfold nextWeekday
    omega
  unfold FirstMatchNext
  rw [hclock.timeOfDay, hnextWeek, hweek]
  by_cases hyear : 2100 < u.year
  · rw [if_pos hyear, if_neg (by omega)]
    exact isNext_dayLate_iff hp
  · rw [if_neg hyear, if_pos (by omega), Nat.add_zero, ← lt_firstFrom_iff hp]
    refine ⟨fun h => h.lt, fun h => isNext_firstFrom hp h (fun y hy _ => ?_)⟩
    exact Nat.div_le_div_right hy.le

/-- A timer keeps its schedule exactly if its first match is the next due second. -/
theorem periodicStart_firings_iff {s s₁ : GenieTime} {index periodicTime schedule t : ℕ}
    {attrData : VendorAttrData} (hs : TimersOk s) (hp : Periodic schedule periodicTime)
    (ht : (t : ℤ) = s.unixTime + s.timezone * hourSecs) (hcal : CalendarAt s.localTime t)
    (hindex : index < genieTimeMax)
    (hstart : genieTimePeriodicStart s index periodicTime schedule attrData = (none, s₁))
    (rets : ℕ → ℤ) :
    (∀ n, firings rets s₁ index n =
        if DueAt schedule periodicTime (t + n + 1) then 1 else 0) ↔
      FirstMatchNext s.localTime schedule periodicTime := by
  have harmed := periodicStart_armed hs hp ht hcal hstart
  rw [← isNext_iff_firstMatchNext hp hcal.1]
  refine harmed.firings_iff hp hindex ?_ ?_ rets
  · have hsplit := Nat.div_add_mod' t daySecs
    have hmod := Nat.mod_lt t (show daySecs > 0 by decide)
    unfold firstFrom
    unfold daySecs at hsplit hmod ⊢
    split_ifs <;> omega
  · have hle := firstFrom_le hp (t / daySecs)
    have hsplit := Nat.div_add_mod' t daySecs
    unfold daySecs at hle hsplit ⊢
    split_ifs <;> omega

/-- **Periodic timers.** In every state reached by any calls, a periodic start that succeeds while
the local time is right leads to one call of the callback at each due second and none at any
other, if and only if the local time, the schedule and the time of day satisfy `FirstMatchNext`. -/
theorem periodic_timer_on_schedule (as : List GenieTimeAct) (s s₁ : GenieTime)
    (index periodicTime schedule t : ℕ) (attrData : VendorAttrData) (rets : ℕ → ℤ)
    (hrun : runSteps genieTimeStep genieTimeInit as = some s)
    (ht : (t : ℤ) = s.unixTime + s.timezone * hourSecs) (hcal : CalendarAt s.localTime t)
    (hindex : index < genieTimeMax) (hsched : 1 ≤ schedule ∧ schedule ≤ 0x7F)
    (htime : periodicTime < daySecs)
    (hstart : genieTimePeriodicStart s index periodicTime schedule attrData = (none, s₁)) :
    (∀ n, firings rets s₁ index n =
        if DueAt schedule periodicTime (t + n + 1) then 1 else 0) ↔
      FirstMatchNext s.localTime schedule periodicTime :=
  periodicStart_firings_iff (timersOk_run hrun) ⟨by omega, by omega, htime⟩ ht hcal hindex hstart
    rets

/-- The clock set to Friday, 15 January 2021, 8:00 in timezone 8. -/
def fridayMorning : GenieTime := (genieTimeLocalTimeUpdate genieTimeInit 1610668800).2

/-- That clock shows the time it stands for. -/
theorem fridayMorning_calendarAt : CalendarAt fridayMorning.localTime 1610697600 := by
  have hlocal : fridayMorning.localTime = _ :=
    (localTimeUpdate_spec (show genieTimeInit.init = true from rfl) 1610668800).2
  rw [hlocal, toU32_eq (show _ = ((1610697600 : ℕ) : ℤ) by decide) (by norm_num)]
  exact unix2Utc_calendarAt (by decide)

/-- Fridays at 9:00, started on a Friday at 8:00. -/
theorem periodic_timer_on_schedule_nine :
    FirstMatchNext fridayMorning.localTime 0x10 32400 ∧
      ∀ n, firings (fun _ => 0)
          (genieTimePeriodicStart fridayMorning 3 32400 0x10 { type := 0x100, para := 1 }).2 3 n =
        if DueAt 0x10 32400 (1610697600 + n + 1) then 1 else 0 := by
  have hnext : FirstMatchNext fridayMorning.localTime 0x10 32400 := by decide
  exact ⟨hnext, (periodic_timer_on_schedule [.localTimeUpdate 1610668800] fridayMorning _ 3 32400
    0x10 1610697600 { type := 0x100, para := 1 } (fun _ => 0) rfl (by decide)
    fridayMorning_calendarAt (by decide) (by decide) (by decide) rfl).2 hnext⟩

/-- Fridays at 7:00, started on a Friday at 8:00: the first match is an hour ago. -/
theorem periodic_timer_late_start :
    ¬ ∀ (as : List GenieTimeAct) (s s₁ : GenieTime) (index periodicTime schedule t : ℕ)
      (attrData : VendorAttrData) (rets : ℕ → ℤ),
      runSteps genieTimeStep genieTimeInit as = some s →
      (t : ℤ) = s.unixTime + s.timezone * hourSecs → CalendarAt s.localTime t →
      index < genieTimeMax → 1 ≤ schedule ∧ schedule ≤ 0x7F → periodicTime < daySecs →
      genieTimePeriodicStart s index periodicTime schedule attrData = (none, s₁) →
      ∀ n, firings rets s₁ index n =
        if DueAt schedule periodicTime (t + n + 1) then 1 else 0 := by
  intro hall
  have hrun : runSteps genieTimeStep genieTimeInit [.localTimeUpdate 1610668800] =
      some fridayMorning := rfl
  have hfires := hall _ fridayMorning _ 3 25200 0x10 1610697600 { type := 0x100, para := 1 }
    (fun _ => 0) hrun (by decide) fridayMorning_calendarAt (by decide) (by decide) (by decide) rfl
  rw [periodicStart_firings_iff (timersOk_run hrun) ⟨by decide, by decide, by decide⟩ (by decide)
    fridayMorning_calendarAt (by decide) rfl] at hfires
  revert hfires
  decide

end GenieSdk.Analysis
