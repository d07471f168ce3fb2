import GenieSdk.Lib.Runs

/-!
# Local clock and vendor timers

`genie_time.c`: the local calendar clock, advanced once a second, and `GENIE_TIME_MAX` timer
nodes that move between an active and an idle list. The store of the timers is compiled out
(`GT_STORE`). `log` records the calls of the timeout callback.
-/

set_option autoImplicit false

namespace GenieSdk.Model

/-- `GENIE_TIME_MAX` -/
def genieTimeMax : ℕ := 40

/-- `HOUR`, in seconds -/
def hourSecs : ℕ := 3600

/-- `DAY`, in seconds -/
def daySecs : ℕ := 86400

/-- `utc_time_t`: months count from 0, days from 1, and weekday 0 is Sunday. -/
structure UtcTime where
  year : ℕ
  month : ℕ
  day : ℕ
  seconds : ℕ
  minutes : ℕ
  hour : ℕ
  weekday : ℕ
  deriving DecidableEq, Repr

/-- A value converted to `uint32_t`. -/
def toU32 (x : ℤ) : ℕ := (x % 2 ^ 32).toNat

/-- SRCLINE: genie_time.c:886-900 -/
def isLeapYear (year : ℕ) : Bool :=
  if year % 4 = 0 ∧ year % 100 ≠ 0 then true
  else if year % 400 = 0 then true
  else false

/-- `g_noleap_daysbeforemonth` -/
def noleapDaysBeforeMonth : List ℕ := [0, 31, 59, 90, 120, 151, 181, 212, 243, 273, 304, 334, 365]

/-- The days of a year before a month, the leap day counted from March on. -/
def daysBeforeMonth (leap : Bool) (month : ℕ) : ℕ :=
  noleapDaysBeforeMonth.getD month 0 + if 2 ≤ month ∧ leap then 1 else 0

/-- SRCLINE: genie_time.c:52-70 -/
def utc2Unix (utc : UtcTime) : ℕ :=
  let days : ℤ := ((utc.year : ℤ) - 1970) * 365 + ((utc.year : ℤ) - 1969) / 4 +
    daysBeforeMonth (isLeapYear utc.year) utc.month + ((utc.day : ℤ) - 1)
  toU32 (((days * 24 + utc.hour) * 60 + utc.minutes) * 60 + utc.seconds)

/-- The `for (;;)` loop of `unix2UTC`: whole years are taken off the day number. A round takes off
a year of days, so a fuel of the day number is enough. SRCLINE: genie_time.c:764-788 -/
def unix2UtcYear : ℕ → ℕ → ℕ → ℕ × ℕ
  | 0, year, jdn => (year, jdn)
  | fuel + 1, year, jdn =>
    let days := if isLeapYear (year + 1970) then 366 else 365
    if days ≤ jdn then unix2UtcYear fuel (year + 1) (jdn - days) else (year, jdn)

/-- The search for the month. SRCLINE: genie_time.c:794-848 -/
def unix2UtcMonth (leap : Bool) (jdn : ℕ) : ℕ → ℕ → ℕ → ℕ
  | 0, min, _ => min
  | fuel + 1, min, max =>
    let value := (min + max) / 2
    if jdn < daysBeforeMonth leap (value + 1) then
      if jdn < daysBeforeMonth leap value then
        let max := value - 1
        if min < max then unix2UtcMonth leap jdn fuel min max else min
      else value
    else
      let min := value + 1
      if min < max then unix2UtcMonth leap jdn fuel min max else min

/-- SRCLINE: genie_time.c:720-870 -/
def unix2Utc (unixTime : ℕ) : UtcTime :=
  let jdn := unixTime / daySecs
  let epoch := unixTime % daySecs
  let period := jdn / (4 * 365 + 1)
  let rest := jdn - period * (4 * 365 + 1)
  let (years, days) := unix2UtcYear rest (4 * period) rest
  let leap := isLeapYear (years + 1970)
  let month := unix2UtcMonth leap days 12 0 11
  { year := years + 1970
    month := month
    day := days - daysBeforeMonth leap month + 1
    seconds := epoch % 60
    minutes := epoch % hourSecs / 60
    hour := epoch / hourSecs
    weekday := (jdn + 4) % 7 }

/-- SRCLINE: genie_time.c:902-911 -/
def monthUpdate (t : UtcTime) : UtcTime :=
  let t := { t with month := t.month + 1 }
  if 12 ≤ t.month then { t with month := 0, year := t.year + 1 } else t

/-- `month_days_list` -/
def monthDaysList : List ℕ := [31, 28, 31, 30, 31, 30, 31, 31, 30, 31, 30, 31]

/-- SRCLINE: genie_time.c:913-946 -/
def daysUpdate (t : UtcTime) : UtcTime :=
  let t := { t with day := t.day + 1 }
  let list := if isLeapYear t.year then monthDaysList.set 1 29 else monthDaysList
  let t := if list.getD t.month 0 < t.day then monthUpdate { t with day := 0 } else t
  { t with weekday := (t.weekday + 1) % 7 }

/-- SRCLINE: genie_time.c:948-957 -/
def hoursUpdate (t : UtcTime) : UtcTime :=
  let t := { t with hour := t.hour + 1 }
  if t.hour = 24 then daysUpdate { t with hour := 0 } else t

/-- SRCLINE: genie_time.c:959-968 -/
def minutesUpdate (t : UtcTime) : UtcTime :=
  let t := { t with minutes := t.minutes + 1 }
  if t.minutes = 60 then hoursUpdate { t with minutes := 0 } else t

/-- SRCLINE: genie_time.c:970-979 -/
def secondsUpdate (t : UtcTime) : UtcTime :=
  let t := { t with seconds := t.seconds + 1 }
  if t.seconds = 60 then minutesUpdate { t with seconds := 0 } else t

/-- SRCLINE: genie_time.c:981-985 -/
def isWeekdayMatch (weekdayNow schedule : ℕ) : Bool :=
  schedule.testBit (if weekdayNow ≠ 0 then weekdayNow - 1 else 6)

/-- SRCLINE: genie_time.c:987-990 -/
def nextWeekday (weekdayNow : ℕ) : ℕ := (weekdayNow + 1) % 7

/-- The `while` loop of `next_weekday_diff_get`. -/
def nextWeekdayLoop (scheduleTmp : ℕ) : ℕ → ℕ → ℕ
  | 0, dayDiff => dayDiff
  | fuel + 1, dayDiff =>
    if (scheduleTmp >>> dayDiff).testBit 0 then dayDiff else nextWeekdayLoop scheduleTmp fuel (dayDiff + 1)

/-- SRCLINE: genie_time.c:72-96 -/
def nextWeekdayDiffGet (weekdayNow schedule : ℕ) : ℕ :=
  let weekdayNow := if weekdayNow = 0 then 7 else weekdayNow
  nextWeekdayLoop (((schedule ||| schedule <<< 7) >>> (weekdayNow - 1)) &&& 0x7F) 7 0

/-- `vt_state` -/
inductive VtState
  | off
  | on
  | invalid
  deriving DecidableEq, Repr

/-- `vendor_attr_data_t` -/
structure VendorAttrData where
  type : ℕ
  para : ℕ
  deriving DecidableEq, Repr

/-- `genie_time_t`; `slot` is its place in `timer_data`. -/
structure GenieTimer where
  slot : ℕ
  index : ℕ
  state : VtState
  periodic : Bool
  periodicTime : ℕ
  schedule : ℕ
  unixtimeMatch : ℕ
  attrData : VendorAttrData
  deriving DecidableEq, Repr

/-- The negated error codes of `genie_time_errno`. -/
inductive GtError
  | init
  | localtimeNotset
  | index
  | param
  | noresource
  deriving DecidableEq, Repr

/-- A call of the event callback with `GT_TIMEOUT`. -/
structure GtTimeout where
  slot : ℕ
  index : ℕ
  unixTime : ℕ
  attrData : VendorAttrData
  deriving DecidableEq, Repr

/-- `genie_time_timer`, `genie_time_data` and `local_time`. -/
structure GenieTime where
  init : Bool
  update : Bool
  active : List GenieTimer
  idle : List GenieTimer
  unixTime : ℕ
  unixTimeSyncMatch : ℕ
  unixTimeSyncRetryTimes : ℕ
  timezone : ℤ
  periodTime : ℕ
  retryDelay : ℕ
  retryTimes : ℕ
  localTime : UtcTime
  log : List GtTimeout
  deriving DecidableEq, Repr

/-- SRCLINE: genie_time.c:1383-1432 -/
def genieTimeInit : GenieTime where
  init := true
  update := false
  active := []
  idle := (List.range genieTimeMax).map fun slot =>
    { slot := slot, index := 0xFF, state := .invalid, periodic := false, periodicTime := 0
      schedule := 0, unixtimeMatch := 0xFFFFFFFF, attrData := { type := 0, para := 0 } }
  unixTime := 0
  unixTimeSyncMatch := 0
  unixTimeSyncRetryTimes := 0
  timezone := 8
  periodTime := 0
  retryDelay := 0
  retryTimes := 0
  localTime := { year := 0, month := 0, day := 0, seconds := 0, minutes := 0, hour := 0, weekday := 0 }
  log := []

/-- SRCLINE: genie_time.c:98-121 -/
def genieTimeFind (s : GenieTime) (index : ℕ) : Option GenieTimer :=
  if genieTimeMax ≤ index then none else s.active.find? fun node => node.index = index

/-- `sys_slist_find_and_remove` of a node of the active list. -/
def GenieTime.unlist (s : GenieTime) (node : GenieTimer) : GenieTime :=
  { s with active := s.active.eraseP fun other => other.slot = node.slot }

/-- The node a start uses: the one that carries the index, off the active list, or an idle one.
SRCLINE: genie_time.c:320-336, 160-176 -/
def genieTimeTake (s : GenieTime) (index : ℕ) : Option (GenieTimer × GenieTime) :=
  match genieTimeFind s index with
  | some node => some (node, s.unlist node)
  | none =>
    match s.idle with
    | [] => none
    | node :: idle => some (node, { s with idle := idle })

/-- SRCLINE: genie_time.c:133-203 -/
def genieTimePeriodicStart (s : GenieTime) (index periodicTime schedule : ℕ)
    (attrData : VendorAttrData) : Option GtError × GenieTime :=
  if s.init = false then (some .init, s)
  else if s.update = false then (some .localtimeNotset, s)
  else if schedule = 0 then (some .param, s)
  else
    match genieTimeTake s index with
    | none => (some .noresource, s)
    | some (node, s) =>
      let utc := { s.localTime with
        hour := 0, minutes := 0, seconds := 0
        day := (s.localTime.day + nextWeekdayDiffGet s.localTime.weekday schedule) % 256 }
      let node := { node with
        index := index, periodic := true, periodicTime := periodicTime, schedule := schedule
        state := .on, attrData := attrData
        unixtimeMatch := toU32 (utc2Unix utc + periodicTime - s.timezone * hourSecs) }
      (none, { s with active := s.active ++ [node] })

/-- The node keeps its `periodic` flag. SRCLINE: genie_time.c:293-356 -/
def genieTimeStart (s : GenieTime) (index unixTime : ℕ) (attrData : VendorAttrData) :
    Option GtError × GenieTime :=
  if s.init = false then (some .init, s)
  else if s.update = false then (some .localtimeNotset, s)
  else if unixTime ≤ s.unixTime then (some .param, s)
  else
    match genieTimeTake s index with
    | none => (some .noresource, s)
    | some (node, s) =>
      let node := { node with
        index := index, unixtimeMatch := unixTime, state := .on, attrData := attrData }
      (none, { s with active := s.active ++ [node] })

/-- `index` is an `int8_t`. SRCLINE: genie_time.c:592-624 -/
def genieTimeStop (s : GenieTime) (index : ℤ) : Option GtError × GenieTime :=
  if s.init = false then (some .init, s)
  else if s.update = false then (some .localtimeNotset, s)
  else if (genieTimeMax : ℤ) ≤ index then (some .index, s)
  else
    match genieTimeFind s (index % 256).toNat with
    | none => (some .index, s)
    | some node =>
      let s := s.unlist node
      let node := { node with index := 0xFF, state := .invalid, unixtimeMatch := 0 }
      (none, { s with idle := s.idle ++ [node] })

/-- A byte converted to `int8_t`. -/
def toI8 (b : ℕ) : ℤ := if b < 128 then b else (b : ℤ) - 256

/-- An `int8_t` is never `0xFF`, so the first branch is never taken. SRCLINE: genie_time.c:630-653 -/
def genieTimeRemove (s : GenieTime) (index : ℤ) : Option GtError × GenieTime :=
  if index = 0xFF then
    (none, (List.range genieTimeMax).foldl (fun s i => (genieTimeStop s i).2) s)
  else genieTimeStop s index

/-- `VENDOR_OP_ATTR_SET_ACK` -/
def timingSetAck : UInt8 := 0xD1

/-- `TIMING_DELETE_T` -/
def timingDeleteT : ℕ := 0xF012

/-- The loop over the index bytes of the message. SRCLINE: genie_time.c:677-688 -/
def genieTimeRemoveLoop (s : GenieTime) (indices : List UInt8) : GenieTime :=
  indices.foldl (fun s index => (genieTimeRemove s (toI8 index.toNat)).2) s

/-- Whether a status is sent. A message without an attribute type is read past its end, which is not
modelled. SRCLINE: genie_time.c:655-699 -/
def genieTimeTimingRemoveEvent (s : GenieTime) (op : UInt8) : List UInt8 → Option (Bool × GenieTime)
  | low :: high :: indices =>
    if low.toNat + high.toNat * 256 ≠ timingDeleteT then some (false, s)
    else if op ≠ timingSetAck then some (false, s)
    else some (true, genieTimeRemoveLoop s indices)
  | _ => none

/-- SRCLINE: genie_time.c:1055-1063 -/
def isGenieTimeTimeout (s : GenieTime) (node : GenieTimer) : Bool :=
  node.state ≠ .invalid ∧ node.unixtimeMatch = s.unixTime

/-- What a timeout makes of a node that stays active. -/
def genieTimeRearm (s : GenieTime) (node : GenieTimer) : GenieTimer :=
  { node with
    unixtimeMatch := (node.unixtimeMatch +
      (1 + nextWeekdayDiffGet (nextWeekday s.localTime.weekday) node.schedule) * daySecs) % 2 ^ 32 }

/-- The walk of `genie_time_do_work`: the nodes that stay active, those that become idle, and the
calls of the callback. SRCLINE: genie_time.c:1069-1095 -/
def genieTimeWalk (s : GenieTime) :
    List GenieTimer → List GenieTimer × List GenieTimer × List GtTimeout
  | [] => ([], [], [])
  | node :: rest =>
    let (active, idle, log) := genieTimeWalk s rest
    if isGenieTimeTimeout s node then
      let timeout : GtTimeout :=
        { slot := node.slot, index := node.index, unixTime := s.unixTime, attrData := node.attrData }
      if node.periodic then (genieTimeRearm s node :: active, idle, timeout :: log)
      else
        (active, { node with unixtimeMatch := 0xFFFFFFFF, state := .invalid } :: idle, timeout :: log)
    else (node :: active, idle, log)

/-- The end of `genie_time_do_work`; `ret` is the result of the callback for `GT_TIMING_SYNC`.
SRCLINE: genie_time.c:1097-1116 -/
def genieTimeSync (s : GenieTime) (ret : ℤ) : GenieTime :=
  if s.unixTimeSyncMatch ≠ 0 ∧ s.unixTimeSyncMatch ≤ s.unixTime then
    if ret ≠ 0 ∧ 0 < s.unixTimeSyncRetryTimes then
      { s with
        unixTimeSyncMatch := (s.unixTimeSyncMatch + s.retryDelay * 60) % 2 ^ 32
        unixTimeSyncRetryTimes := s.unixTimeSyncRetryTimes - 1 }
    else
      { s with
        unixTimeSyncRetryTimes := s.retryTimes
        unixTimeSyncMatch := (s.unixTime + s.periodTime * 60) % 2 ^ 32 }
  else s

/-- SRCLINE: genie_time.c:1065-1117 -/
def genieTimeDoWork (s : GenieTime) (ret : ℤ) : GenieTime :=
  let (active, idle, log) := genieTimeWalk s s.active
  genieTimeSync { s with active := active, idle := s.idle ++ idle, log := s.log ++ log } ret

/-- SRCLINE: genie_time.c:1119-1135 -/
def timerUpdate (s : GenieTime) : GenieTime :=
  if s.update then
    { s with unixTime := (s.unixTime + 1) % 2 ^ 32, localTime := secondsUpdate s.localTime }
  else s

/-- SRCLINE: genie_time.c:1156-1173 -/
def genieTimeTimezoneUpdate (s : GenieTime) (timezone : ℤ) : Option GtError × GenieTime :=
  if timezone < -12 ∨ 12 < timezone then (some .param, s)
  else if s.init = false then (some .init, s)
  else (none, { s with timezone := timezone })

/-- SRCLINE: genie_time.c:1175-1193 -/
def genieTimeTimeSyncSet (s : GenieTime) (periodTime retryDelay retryTimes : ℕ) :
    Option GtError × GenieTime :=
  if periodTime = 0 ∨ retryDelay = 0 ∨ retryTimes = 0 then (some .param, s)
  else
    (none,
      { s with
        periodTime := periodTime, retryDelay := retryDelay, retryTimes := retryTimes
        unixTimeSyncMatch := (s.unixTime + periodTime * 60) % 2 ^ 32
        unixTimeSyncRetryTimes := retryTimes })

/-- SRCLINE: genie_time.c:1195-1217 -/
def genieTimeLocalTimeUpdate (s : GenieTime) (unixTime : ℕ) : Option GtError × GenieTime :=
  if s.init = false then (some .init, s)
  else
    let s := { s with
      update := true, unixTime := unixTime
      localTime := unix2Utc (toU32 (unixTime + s.timezone * hourSecs)) }
    (none, (genieTimeTimeSyncSet s 180 10 10).2)

end GenieSdk.Model
