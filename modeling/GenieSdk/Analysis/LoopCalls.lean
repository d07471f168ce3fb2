import GenieSdk.Analysis.LoopTimeouts

/-!
# Posted calls of the event loop

Seen from outside, the event device is a queue with two ends (`callQueue`): a call that is posted goes to its
back, an urgent one to its front, and each round of the loop takes out what is at the front. The counter, the
lists of events and the notification of the poll agree at every point of a round, so nothing that is queued is
overlooked, and **every call that was posted is made once, in order and with its argument** (`loop_right`).
-/

set_option autoImplicit false

namespace GenieSdk.Analysis

open GenieSdk.Lib GenieSdk.Model

/-! ## What is claimed -/

/-- The numbers of the calls that have been made. -/
def executedCalls (s : EventLoop) : List ℕ := s.executed.filterMap ExecutedCall.id

/-- The event device as a queue with two ends. -/
def callQueue (s : EventLoop) : TwoEndQueue :=
  { arrivals := s.calls.map fun call => { urgent := call.urgent, queued := call.queued }
    queue := queuedCalls s.dev
    done := executedCalls s }

/-- What is made is a call that was posted. -/
def Intact (s : EventLoop) (made : ExecutedCall) : Prop :=
  ∃ i call, made.id = some i ∧ s.calls[i]? = some call ∧ made.func = call.func.toNat ∧
    made.arg = call.arg.toNat

/-- The acts of the loop itself. -/
def isLoopAct : EventLoopAct → Bool
  | .plan => true
  | .setup => true
  | .wake _ _ _ => true
  | .teardown => true
  | .fire => true
  | .read => true
  | _ => false

/-- The loop gets from one state to the other by itself, while no time passes. -/
def LoopAlone : EventLoop → EventLoop → Prop :=
  Relation.ReflTransGen fun s s' => ∃ a, isLoopAct a = true ∧ eventLoopStep s a = some s'

/-- What is claimed of the delayed actions: they run when their delay is over, once, and not after a
cancellation, which removes the first that is pending of those it is about; then of the calls: those that
have been made and those that are queued are all that were posted, each once; and the loop by itself makes
those that are queued. -/
structure LoopRight (s : EventLoop) : Prop where
  delayed : DelayedRight s
  ranOnce : (s.ran.map fun r => r.1.id).Nodup
  ranPosted : ∀ r ∈ s.ran, ∃ post, s.posted[r.1.id]? = some post ∧ r.1.cb = post.cb ∧
    r.1.privateData = post.privateData ∧ post.time + post.ms ≤ r.2
  cancels : ∀ ms cb privateData t, t ∈ (aosCancelDelayedAction s ms cb privateData).timeouts ↔
    t ∈ s.timeouts ∧ firstPending s ms cb privateData ≠ some t
  notCancelled : ∀ t ∈ s.cancelled, t ∉ s.timeouts ∧ ∀ r ∈ s.ran, r.1 ≠ t
  calledOnce : (executedCalls s ++ queuedCalls s.dev).Perm (List.range s.calls.length)
  inOrder : (executedCalls s ++ queuedCalls s.dev).Pairwise
    (TwoEndQueue.MayPrecede (callQueue s).arrivals)
  intact : ∀ made ∈ s.executed, Intact s made
  drains : ∃ t, LoopAlone s t ∧ queuedCalls t.dev = [] ∧
    executedCalls t = executedCalls s ++ queuedCalls s.dev

variable {s s' : EventLoop} {dev : EventDev}

/-! ## Events in memory -/

/-- The event of a call. -/
def callEvent (func arg : UInt32) : InputEvent :=
  { time := 0, type := evRpc, code := 0, value := func.toNat, extra := arg.toNat }

/-- An event has the size of `input_event_t`. -/
theorem length_bytes (event : InputEvent) : event.bytes.length = inputEventSize := by
  simp [InputEvent.bytes, inputEventSize]

/-- An event is read from its bytes as it was. -/
theorem ofBytes_bytes {event : InputEvent} (htime : event.time < 2 ^ 32) (htype : event.type < 2 ^ 16)
    (hcode : event.code < 2 ^ 16) (hvalue : event.value < 2 ^ 32) (hextra : event.extra < 2 ^ 32) :
    InputEvent.ofBytes event.bytes = event := by
  have h32 : ∀ {x : ℕ}, x < 2 ^ 32 → leVal (leBytes 4 x) = x := fun hx =>
    leVal_leBytes (hx.trans_le (by norm_num))
  have h16 : ∀ {x : ℕ}, x < 2 ^ 16 → leVal (leBytes 2 x) = x := fun hx =>
    leVal_leBytes (hx.trans_le (by norm_num))
  simp [InputEvent.ofBytes, InputEvent.bytes, List.drop_append, List.take_of_length_le,
    List.drop_eq_nil_of_le, h32 htime, h16 htype, h16 hcode, h32 hvalue,
    h32 hextra]

/-- The event of a posted call names the function and the argument. -/
theorem calledBy_callEvent (func arg : UInt32) :
    calledBy (callEvent func arg).bytes = some (func.toNat, arg.toNat) := by
  have hbytes : InputEvent.ofBytes (callEvent func arg).bytes = callEvent func arg :=
    ofBytes_bytes (by norm_num [callEvent]) (by norm_num [callEvent, evRpc]) (by norm_num [callEvent])
      func.toNat_lt arg.toNat_lt
  rw [calledBy, if_pos (length_bytes _), hbytes]
  rfl

/-! ## The device -/

/-- The counters are the lengths of the lists, and every buffer is as long as it says. -/
structure DevRight (dev : EventDev) : Prop where
  counter : dev.counter = dev.bufs.length
  cache : dev.cacheCount = dev.bufCache.length
  sizes : ∀ evt ∈ dev.bufs ++ dev.bufCache, evt.buf.length = evt.len

/-- The poll knows of what is queued. -/
def Notified (dev : EventDev) : Prop :=
  dev.pollCb = true ∧ (dev.counter ≠ 0 → dev.revents = true ∧ 0 < dev.sem)

/-- The event that is written, whatever buffer carries it. -/
def freshEvent (buf : List UInt8) (id : Option ℕ) : DevEvent := { len := buf.length, buf, id }

/-- `take_event` gives a fresh buffer, from the cache if there is one. -/
theorem takeEvent_spec (h : DevRight dev) (buf : List UInt8) (id : Option ℕ) :
    ∃ cache, cache ⊆ dev.bufCache ∧ takeEvent dev buf id =
      (freshEvent buf id, { dev with bufCache := cache, cacheCount := cache.length }) := by
  have hsame : { dev with bufCache := dev.bufCache, cacheCount := dev.bufCache.length } = dev := by
    rw [← h.cache]
  unfold takeEvent
  split
  · rename_i evt cache hcache
    split
    · rename_i hfit
      refine ⟨cache, by simp [hcache], ?_⟩
      -- the cached buffer is as long as what is copied into it
      have hlen : evt.buf.length = buf.length :=
        (h.sizes evt (by simp [hcache])).trans hfit.2
      have hcount : dev.cacheCount - 1 = cache.length := by
        rw [h.cache, hcache, List.length_cons, Nat.add_sub_cancel]
      rw [List.drop_eq_nil_of_le (by omega), List.append_nil, hcount]
      rfl
    · refine ⟨dev.bufCache, List.Subset.refl _, ?_⟩
      rw [hsame]
      rfl
  · refine ⟨dev.bufCache, List.Subset.refl _, ?_⟩
    rw [hsame]
    rfl

/-- **A write** puts the event at its end of the list and notifies the poll. -/
theorem eventWrite_spec (h : DevRight dev) (buf : List UInt8) (urgent : Bool) (id : Option ℕ) :
    (eventWrite dev buf urgent id).bufs =
        (if urgent then freshEvent buf id :: dev.bufs else dev.bufs ++ [freshEvent buf id]) ∧
      DevRight (eventWrite dev buf urgent id) ∧
      (dev.pollCb = true → Notified (eventWrite dev buf urgent id)) := by
  obtain ⟨cache, hsub, htake⟩ := takeEvent_spec h buf id
  have hsizes : ∀ evt ∈ dev.bufs ++ cache, evt.buf.length = evt.len := by
    intro evt hevt
    obtain hevt | hevt := List.mem_append.1 hevt
    · exact h.sizes evt (List.mem_append_left _ hevt)
    · exact h.sizes evt (List.mem_append_right _ (hsub hevt))
  have hbufs : DevRight
      { dev with
        counter := dev.counter + 1
        bufs := if urgent then freshEvent buf id :: dev.bufs else dev.bufs ++ [freshEvent buf id]
        bufCache := cache
        cacheCount := cache.length } := by
    refine ⟨?_, rfl, ?_⟩
    · cases urgent <;> simp [h.counter]
    · intro evt hevt
      have hcases : evt = freshEvent buf id ∨ evt ∈ dev.bufs ++ cache := by
        cases urgent with
        | false => simpa [or_comm, or_left_comm, or_assoc] using hevt
        | true => simpa using hevt
      obtain rfl | hold := hcases
      · rfl
      · exact hsizes evt hold
  unfold eventWrite
  rw [htake]
  simp only
  split
  · refine ⟨rfl, ⟨hbufs.counter, hbufs.cache, hbufs.sizes⟩, fun hcb => ⟨hcb, fun _ => ?_⟩⟩
    exact ⟨rfl, Nat.succ_pos _⟩
  · rename_i hcb
    exact ⟨rfl, hbufs, fun hcb' => absurd hcb' hcb⟩

/-- **A read** takes the first event out of the list; its buffer goes to the cache or is freed. -/
theorem eventRead_spec (h : DevRight dev) {evt : DevEvent} {bufs : List DevEvent}
    (hbufs : dev.bufs = evt :: bufs) (len : ℕ) :
    ∃ dev', eventRead dev len = (evt.buf.take len, evt.id, dev') ∧ dev'.bufs = bufs ∧ DevRight dev' := by
  have hcounter : dev.counter = bufs.length + 1 := by rw [h.counter, hbufs, List.length_cons]
  have hlen : evt.buf.length = evt.len := h.sizes evt (by simp [hbufs])
  have htake : evt.buf.take (if len > evt.len then evt.len else len) = evt.buf.take len := by
    split
    · rw [List.take_of_length_le (by omega), List.take_of_length_le (by omega)]
    · rfl
  have hsizes : ∀ e ∈ bufs ++ dev.bufCache, e.buf.length = e.len := by
    intro e he
    apply h.sizes e
    rw [hbufs]
    exact List.mem_cons_of_mem evt he
  unfold eventRead
  rw [if_neg (by omega), hbufs]
  simp only [htake]
  split
  · refine ⟨_, rfl, rfl, ?_, ?_, ?_⟩
    · change dev.counter - 1 = bufs.length
      omega
    · change dev.cacheCount + 1 = (evt :: dev.bufCache).length
      rw [h.cache, List.length_cons]
    · intro e he
      obtain rfl | he : e = evt ∨ e ∈ bufs ++ dev.bufCache := by
        simpa [or_comm, or_left_comm, or_assoc] using he
      · exact hlen
      · exact hsizes e he
  · refine ⟨_, rfl, rfl, ?_, h.cache, hsizes⟩
    change dev.counter - 1 = bufs.length
    omega

/-- A read of an empty device returns nothing and changes nothing. -/
theorem eventRead_empty (h : DevRight dev) (hbufs : dev.bufs = []) (len : ℕ) :
    eventRead dev len = ([], none, dev) := by
  rw [eventRead, if_pos (by rw [h.counter, hbufs]; rfl)]

/-- The command says at which end the event goes in, and how long it is. -/
theorem eventIoctl_write (dev : EventDev) (event : InputEvent) (urgent : Bool) (id : Option ℕ) :
    eventIoctl dev (if urgent then mkCmd ioctlWriteUrgent inputEventSize
      else mkCmd ioctlWriteNormal inputEventSize) event.bytes id =
      some (eventWrite dev event.bytes urgent id) := by
  have htake : event.bytes.take inputEventSize = event.bytes := by
    rw [← length_bytes event, List.take_length]
  cases urgent with
  | false =>
    have hlen : getLen (mkCmd ioctlWriteNormal inputEventSize) = inputEventSize := by decide
    have hcmd : getCmd (mkCmd ioctlWriteNormal inputEventSize) = ioctlWriteNormal := by decide
    rw [if_neg (by simp), eventIoctl, if_pos hcmd, hlen, htake]
  | true =>
    have hlen : getLen (mkCmd ioctlWriteUrgent inputEventSize) = inputEventSize := by decide
    have hcmd : getCmd (mkCmd ioctlWriteUrgent inputEventSize) = ioctlWriteUrgent := by decide
    rw [if_pos rfl, eventIoctl, if_neg (by rw [hcmd]; decide), if_pos hcmd, hlen, htake]

/-- **Posting a call** writes its event to the device, without the flag that says at which end. -/
theorem scheduleCall_eq {func : UInt32} (hfunc : func ≠ 0) (id : ℕ) (arg : UInt32) (urgent : Bool) :
    scheduleCall s id func arg urgent =
      some { s with dev := eventWrite s.dev (callEvent func arg).bytes urgent (some id) } := by
  have hnormal : evRpc &&& evFlagUrgent = 0 := by decide
  have hrpc : evRpc &&& (0xFFFF ^^^ evFlagUrgent) = evRpc := by decide
  have hurgent : (evRpc ||| evFlagUrgent) &&& evFlagUrgent ≠ 0 := by decide
  have hcleared : (evRpc ||| evFlagUrgent) &&& (0xFFFF ^^^ evFlagUrgent) = evRpc := by decide
  have hevent : ({ time := 0, type := evRpc, code := 0, value := func.toNat, extra := arg.toNat } :
      InputEvent) = callEvent func arg := rfl
  unfold scheduleCall inputAddEvent
  rw [if_neg hfunc]
  cases urgent with
  | false =>
    have hwrite := eventIoctl_write s.dev (callEvent func arg) false (some id)
    simp only [Bool.false_eq_true, if_false, hnormal, hrpc, ne_eq, not_true_eq_false] at hwrite ⊢
    rw [hevent, hwrite, Option.map_some]
  | true =>
    have hwrite := eventIoctl_write s.dev (callEvent func arg) true (some id)
    simp only [if_true, hurgent, hcleared, ne_eq, not_false_eq_true] at hwrite ⊢
    rw [hevent, hwrite, Option.map_some]

/-! ## What holds in every run -/

/-- The event carries the call with its number, or none. -/
def Carries (calls : List PostedCall) (evt : DevEvent) : Prop :=
  (∀ i, evt.id = some i → ∃ call, calls[i]? = some call ∧
    evt.buf = (callEvent call.func call.arg).bytes) ∧
  (evt.id = none → calledBy (evt.buf.take inputEventSize) = none)

/-- The poll is set up. -/
def polling : LoopPc → Bool
  | .waiting _ => true
  | .woken _ => true
  | _ => false

structure CallsInv (s : EventLoop) : Prop where
  dev : DevRight s.dev
  carries : ∀ evt ∈ s.dev.bufs, Carries s.calls evt
  order : (callQueue s).InOrder
  intact : ∀ made ∈ s.executed, Intact s made
  ready : polling s.pc = true → Notified s.dev

/-- The invariant holds at the start. -/
theorem callsInv_init : CallsInv eventLoopInit := by
  refine ⟨⟨rfl, rfl, ?_⟩, ?_, TwoEndQueue.inOrder_empty, ?_, ?_⟩
  · intro evt hevt
    cases hevt
  · intro evt hevt
    cases hevt
  · intro made hmade
    cases hmade
  · intro hpoll
    cases hpoll

/-- The lists of events and their counters are the same. -/
structure SameEvents (dev dev' : EventDev) : Prop where
  counter : dev'.counter = dev.counter
  bufs : dev'.bufs = dev.bufs
  cacheCount : dev'.cacheCount = dev.cacheCount
  bufCache : dev'.bufCache = dev.bufCache

/-- A device has the events that it has. -/
theorem SameEvents.refl (dev : EventDev) : SameEvents dev dev := ⟨rfl, rfl, rfl, rfl⟩

/-- A device with the same events is right too. -/
theorem SameEvents.devRight {dev' : EventDev} (h : SameEvents dev dev') (hdev : DevRight dev) :
    DevRight dev' := by
  constructor
  · rw [h.counter, h.bufs]
    exact hdev.counter
  · rw [h.cacheCount, h.bufCache]
    exact hdev.cache
  · rw [h.bufs, h.bufCache]
    exact hdev.sizes

/-- `event_poll` leaves the events. -/
theorem SameEvents.eventPoll {dev' : EventDev} (h : SameEvents dev dev') (setup : Bool) :
    SameEvents dev (eventPoll dev' setup) := by
  obtain ⟨hcounter, hbufs, hcache, hcaches⟩ := h
  unfold Model.eventPoll EventDev.notify
  split
  · simp only
    split <;> exact ⟨hcounter, hbufs, hcache, hcaches⟩
  · exact ⟨hcounter, hbufs, hcache, hcaches⟩

/-- A step that neither writes nor reads an event. -/
theorem CallsInv.congr (h : CallsInv s) (hdev : SameEvents s.dev s'.dev) (hcalls : s'.calls = s.calls)
    (hexecuted : s'.executed = s.executed) (hready : polling s'.pc = true → Notified s'.dev) :
    CallsInv s' := by
  have hqueue : callQueue s' = callQueue s := by
    unfold callQueue executedCalls queuedCalls
    rw [hdev.bufs, hcalls, hexecuted]
  constructor
  · exact hdev.devRight h.dev
  · rw [hdev.bufs, hcalls]
    exact h.carries
  · rw [hqueue]
    exact h.order
  · intro made hmade
    rw [hexecuted] at hmade
    obtain ⟨i, call, hid, hcall, hfunc, harg⟩ := h.intact made hmade
    exact ⟨i, call, hid, by rw [hcalls]; exact hcall, hfunc, harg⟩
  · exact hready

/-- A posted call is known by its number for good. -/
theorem Intact.append {made : ExecutedCall} (h : Intact s made) {call : PostedCall}
    (hcalls : s'.calls = s.calls ++ [call]) : Intact s' made := by
  obtain ⟨i, c, hid, hc, hfunc, harg⟩ := h
  refine ⟨i, c, hid, ?_, hfunc, harg⟩
  rw [hcalls, List.getElem?_append_left (List.getElem?_eq_some_iff.1 hc).1, hc]

/-- An event that carries a posted call carries it on when more are posted. -/
theorem Carries.append {calls : List PostedCall} {evt : DevEvent} (h : Carries calls evt)
    (call : PostedCall) : Carries (calls ++ [call]) evt := by
  refine ⟨fun i hi => ?_, h.2⟩
  obtain ⟨c, hc, hbuf⟩ := h.1 i hi
  refine ⟨c, ?_, hbuf⟩
  rw [List.getElem?_append_left (List.getElem?_eq_some_iff.1 hc).1, hc]

/-- The invariant holds on when a call is posted. -/
theorem CallsInv.schedule {func arg : UInt32} {urgent : Bool} (h : CallsInv s)
    (hstep : (scheduleCall s s.calls.length func arg urgent).map (recordCall s func arg urgent) =
      some s') : CallsInv s' := by
  by_cases hfunc : func = 0
  · rw [scheduleCall, if_pos hfunc, Option.map_some, recordCall, if_pos hfunc] at hstep
    cases hstep
    exact h
  · rw [scheduleCall_eq hfunc, Option.map_some, recordCall, if_neg hfunc] at hstep
    cases hstep
    obtain ⟨hbufs, hdev, hnotify⟩ := eventWrite_spec h.dev (callEvent func arg).bytes urgent
      (some s.calls.length)
    have hnew : Carries (s.calls ++ [{ func, arg, urgent, queued := queuedCalls s.dev }])
        (freshEvent (callEvent func arg).bytes (some s.calls.length)) := by
      refine ⟨fun i hi => ?_, fun hnone => absurd hnone (by simp [freshEvent])⟩
      obtain rfl := Option.some.inj hi
      exact ⟨_, List.getElem?_concat_length, rfl⟩
    refine ⟨hdev, fun evt hevt => ?_, ?_, fun made hmade => (h.intact made hmade).append rfl, ?_⟩
    · have hcases : evt = freshEvent (callEvent func arg).bytes (some s.calls.length) ∨
          evt ∈ s.dev.bufs := by
        rw [hbufs] at hevt
        cases urgent with
        | false => simpa [or_comm] using hevt
        | true => simpa using hevt
      obtain rfl | hold := hcases
      · exact hnew
      · exact (h.carries evt hold).append _
    · have hput := h.order.put urgent
      have heq : callQueue { s with
          dev := eventWrite s.dev (callEvent func arg).bytes urgent (some s.calls.length)
          calls := s.calls ++ [{ func, arg, urgent, queued := queuedCalls s.dev }] } =
          (callQueue s).put urgent := by
        unfold callQueue TwoEndQueue.put queuedCalls executedCalls
        rw [hbufs]
        cases urgent with
        | false => simp [freshEvent]
        | true => simp [freshEvent]
      rw [heq]
      exact hput
    · exact fun hpoll => hnotify (h.ready hpoll).1

/-- The invariant holds on when an event of another kind is written. -/
theorem CallsInv.event {buf : List UInt8} (h : CallsInv s)
    (hnot : calledBy (buf.take inputEventSize) = none) (urgent : Bool) :
    CallsInv { s with dev := eventWrite s.dev buf urgent none } := by
  obtain ⟨hbufs, hdev, hnotify⟩ := eventWrite_spec h.dev buf urgent none
  refine ⟨hdev, fun evt hevt => ?_, ?_, h.intact, fun hpoll => hnotify (h.ready hpoll).1⟩
  · have hcases : evt = freshEvent buf none ∨ evt ∈ s.dev.bufs := by
      rw [hbufs] at hevt
      cases urgent with
      | false => simpa [or_comm] using hevt
      | true => simpa using hevt
    obtain rfl | hold := hcases
    · exact ⟨fun i hi => absurd hi (by simp [freshEvent]), fun _ => hnot⟩
    · exact h.carries evt hold
  · have heq : callQueue { s with dev := eventWrite s.dev buf urgent none } = callQueue s := by
      unfold callQueue queuedCalls executedCalls
      rw [hbufs]
      cases urgent with
      | false => simp [freshEvent]
      | true => simp [freshEvent]
    rw [heq]
    exact h.order

/-- **Setting up the poll** finds what is queued already. -/
theorem eventPoll_notified (dev : EventDev) : Notified (eventPoll dev true) := by
  unfold eventPoll EventDev.notify
  simp only [if_true]
  split
  · exact ⟨rfl, fun _ => ⟨rfl, Nat.succ_pos _⟩⟩
  · rename_i hcounter
    exact ⟨rfl, fun hne => absurd hne hcounter⟩

/-- The invariant holds on when the loop sets its poll up. -/
theorem CallsInv.setup (h : CallsInv s) (hstep : loopSetup s = some s') : CallsInv s' := by
  unfold loopSetup at hstep
  split at hstep
  · cases hstep
    refine h.congr ?_ rfl rfl fun _ => eventPoll_notified _
    have hsame : SameEvents s.dev { s.dev with revents := false, sem := 0 } := ⟨rfl, rfl, rfl, rfl⟩
    exact hsame.eventPoll true
  · cases hstep

/-- The invariant holds on when the wait is over. -/
theorem CallsInv.wake {ret : ℤ} {isset other : Bool} (h : CallsInv s)
    (hstep : loopWake s ret isset other = some s') : CallsInv s' := by
  unfold loopWake at hstep
  split at hstep
  · rename_i wakeAt hpc
    have hready : Notified s.dev := h.ready (by rw [hpc]; rfl)
    split at hstep
    · cases hstep
      by_cases hset : (decide (ret ≥ 0) && isset) = true
      · refine h.congr ?_ rfl rfl fun _ => ?_
        · rw [if_pos hset]
          exact ⟨rfl, rfl, rfl, rfl⟩
        · rw [if_pos hset]
          exact ⟨hready.1, fun hne => ⟨rfl, (hready.2 hne).2⟩⟩
      · refine h.congr ?_ rfl rfl fun _ => ?_
        · rw [if_neg hset]
          exact SameEvents.refl s.dev
        · rw [if_neg hset]
          exact hready
    · cases hstep
  · cases hstep

/-- The invariant holds on when the loop takes its poll back. -/
theorem CallsInv.teardown (h : CallsInv s) (hstep : loopTeardown s = some s') : CallsInv s' := by
  unfold loopTeardown at hstep
  split at hstep
  · cases hstep
    exact h.congr ⟨rfl, rfl, rfl, rfl⟩ rfl rfl fun hpoll => by cases hpoll
  · cases hstep

/-- What the first delayed action leaves alone. -/
theorem runTimeout_frame (s : EventLoop) : (runTimeout s).dev = s.dev ∧ (runTimeout s).calls = s.calls ∧
    (runTimeout s).executed = s.executed := by
  unfold runTimeout
  split
  · split
    · exact ⟨rfl, rfl, rfl⟩
    · exact ⟨rfl, rfl, rfl⟩
  · exact ⟨rfl, rfl, rfl⟩

/-- The invariant holds on when the loop runs a timeout. -/
theorem CallsInv.fire (h : CallsInv s) (hstep : loopFire s = some s') : CallsInv s' := by
  obtain ⟨hdev, hcalls, hexecuted⟩ := runTimeout_frame s
  unfold loopFire at hstep
  split at hstep
  · cases hstep
    refine h.congr ?_ hcalls hexecuted ?_
    · rw [show _ = s.dev from hdev]
      exact SameEvents.refl s.dev
    · intro hpoll
      change polling (if _ then LoopPc.top else LoopPc.served) = true at hpoll
      split at hpoll <;> cases hpoll
  · cases hstep

/-- What `event_read_cb` does: it takes out the first event, and makes the call that it carries. -/
theorem loopRead_cases (h : CallsInv s) (hpc : s.pc = .served) (hrevents : s.dev.revents = true) :
    (s.dev.bufs = [] ∧ loopRead s = some { s with pc := .top }) ∨
      ∃ evt bufs dev' made, s.dev.bufs = evt :: bufs ∧ dev'.bufs = bufs ∧ DevRight dev' ∧
        made.filterMap ExecutedCall.id = evt.id.toList ∧ (∀ call ∈ made, Intact s call) ∧
        loopRead s = some { s with dev := dev', pc := .top, executed := s.executed ++ made } := by
  unfold loopRead
  rw [if_pos hpc, if_pos hrevents]
  cases hbufs : s.dev.bufs with
  | nil =>
    rw [eventRead_empty h.dev hbufs]
    have hnone : calledBy [] = none := by decide
    simp [hnone]
  | cons evt bufs =>
    obtain ⟨dev', hread, hbufs', hdev'⟩ := eventRead_spec h.dev hbufs inputEventSize
    rw [hread]
    right
    obtain ⟨hcall, hother⟩ := h.carries evt (by simp [hbufs])
    refine ⟨evt, bufs, dev', _, rfl, hbufs', hdev', ?_, ?_, rfl⟩
    · cases hid : evt.id with
      | none => simp [hother hid]
      | some i =>
        obtain ⟨call, -, hbuf⟩ := hcall i hid
        rw [hbuf, List.take_of_length_le (length_bytes _).le, calledBy_callEvent]
        rfl
    · intro made hmade
      cases hid : evt.id with
      | none =>
        simp [hother hid] at hmade
      | some i =>
        obtain ⟨call, hi, hbuf⟩ := hcall i hid
        rw [hbuf, List.take_of_length_le (length_bytes _).le, calledBy_callEvent, hid] at hmade
        obtain rfl : made = ⟨some i, call.func.toNat, call.arg.toNat⟩ := by simpa using hmade
        exact ⟨i, call, rfl, hi, rfl, rfl⟩

/-- The first event of the device has the first queued call. -/
theorem queuedCalls_cons {dev' : EventDev} {evt : DevEvent} {bufs : List DevEvent}
    (hbufs : dev.bufs = evt :: bufs) (hbufs' : dev'.bufs = bufs) :
    queuedCalls dev = evt.id.toList ++ queuedCalls dev' := by
  unfold queuedCalls
  rw [hbufs, hbufs']
  cases hid : evt.id with
  | none => simp [hid]
  | some i => simp [hid]

/-- The invariant holds on when the loop reads an event. -/
theorem CallsInv.read (h : CallsInv s) (hstep : loopRead s = some s') : CallsInv s' := by
  by_cases hpc : s.pc = .served
  · by_cases hrevents : s.dev.revents = true
    · obtain ⟨-, heq⟩ | ⟨evt, bufs, dev', made, hbufs, hbufs', hdev', hids, hintact, heq⟩ :=
        loopRead_cases h hpc hrevents
      · rw [heq] at hstep
        cases hstep
        exact h.congr (SameEvents.refl s.dev) rfl rfl fun hpoll => by cases hpoll
      · rw [heq] at hstep
        cases hstep
        refine ⟨hdev', fun e he => ?_, ?_, fun call hcall => ?_, fun hpoll => by cases hpoll⟩
        · apply h.carries e
          rw [hbufs, ← hbufs']
          exact List.mem_cons_of_mem evt he
        · -- the queue hands out its first call, or nothing if the event is none
          have hqueue := queuedCalls_cons hbufs hbufs'
          have hdone : executedCalls { s with dev := dev', pc := .top, executed := s.executed ++ made } =
              executedCalls s ++ evt.id.toList := by
            rw [← hids]
            exact List.filterMap_append
          cases hid : evt.id with
          | none =>
            rw [hid] at hqueue hdone
            have heq : callQueue { s with dev := dev', pc := .top, executed := s.executed ++ made } =
                callQueue s := by
              unfold callQueue
              rw [hdone, hqueue, Option.toList_none, List.append_nil, List.nil_append]
            rw [heq]
            exact h.order
          | some i =>
            rw [hid] at hqueue hdone
            have heq : callQueue { s with dev := dev', pc := .top, executed := s.executed ++ made } =
                (callQueue s).take := by
              unfold callQueue TwoEndQueue.take
              rw [hdone, hqueue]
              rfl
            rw [heq]
            exact h.order.take
        · obtain hcall | hcall := List.mem_append.1 hcall
          · exact h.intact call hcall
          · exact hintact call hcall
    · rw [loopRead, if_pos hpc, if_neg hrevents] at hstep
      cases hstep
      exact h.congr (SameEvents.refl s.dev) rfl rfl fun hpoll => by cases hpoll
  · rw [loopRead, if_neg hpc] at hstep
    cases hstep

/-- **One step** of the loop or of another task. -/
theorem CallsInv.step {a : EventLoopAct} (h : CallsInv s) (hstep : eventLoopStep s a = some s') :
    CallsInv s' := by
  cases a with
  | pass ms =>
    cases hstep
    exact h.congr (SameEvents.refl s.dev) rfl rfl h.ready
  | postDelayed ms action param =>
    cases hstep
    unfold aosPostDelayedAction
    split
    · exact h.congr (SameEvents.refl s.dev) rfl rfl h.ready
    · exact h.congr (SameEvents.refl s.dev) rfl rfl h.ready
  | cancelDelayed ms cb privateData =>
    cases hstep
    exact h.congr (SameEvents.refl s.dev) rfl rfl h.ready
  | schedule func arg => exact h.schedule hstep
  | scheduleUrgent func arg => exact h.schedule hstep
  | event buf urgent =>
    simp only [eventLoopStep] at hstep
    split at hstep
    · rename_i hnot
      cases hstep
      exact h.event (Option.isNone_iff_eq_none.1 hnot) urgent
    · cases hstep
  | plan =>
    simp only [eventLoopStep, loopPlan] at hstep
    split at hstep
    · cases hstep
      exact h.congr (SameEvents.refl s.dev) rfl rfl fun hpoll => by cases hpoll
    · cases hstep
  | setup => exact h.setup hstep
  | wake ret isset other => exact h.wake hstep
  | teardown => exact h.teardown hstep
  | fire => exact h.fire hstep
  | read => exact h.read hstep

/-! ## The loop does not overlook an event -/

/-- Until the event is read, the loop leaves the lists of events alone. -/
theorem loopAct_quiet {a : EventLoopAct} (ha : isLoopAct a = true) (hread : a ≠ .read)
    (hstep : eventLoopStep s a = some s') : SameEvents s.dev s'.dev ∧ s'.executed = s.executed := by
  cases a with
  | plan =>
    simp only [eventLoopStep, loopPlan] at hstep
    split at hstep
    · cases hstep
      exact ⟨SameEvents.refl s.dev, rfl⟩
    · cases hstep
  | setup =>
    simp only [eventLoopStep, loopSetup] at hstep
    split at hstep
    · cases hstep
      have hsame : SameEvents s.dev { s.dev with revents := false, sem := 0 } := ⟨rfl, rfl, rfl, rfl⟩
      exact ⟨hsame.eventPoll true, rfl⟩
    · cases hstep
  | wake ret isset other =>
    simp only [eventLoopStep, loopWake] at hstep
    split at hstep
    · split at hstep
      · cases hstep
        refine ⟨?_, rfl⟩
        change SameEvents s.dev (if _ then { s.dev with revents := true } else s.dev)
        split <;> exact ⟨rfl, rfl, rfl, rfl⟩
      · cases hstep
    · cases hstep
  | teardown =>
    simp only [eventLoopStep, loopTeardown] at hstep
    split at hstep
    · cases hstep
      exact ⟨(SameEvents.refl s.dev).eventPoll false, rfl⟩
    · cases hstep
  | fire =>
    simp only [eventLoopStep, loopFire] at hstep
    split at hstep
    · cases hstep
      obtain ⟨hdev, -, hexecuted⟩ := runTimeout_frame s
      refine ⟨?_, hexecuted⟩
      change SameEvents s.dev (runTimeout s).dev
      rw [hdev]
      exact SameEvents.refl s.dev
    · cases hstep
  | read => exact absurd rfl hread
  | _ => cases ha

/-- An act of the loop makes the call that is queued first, or none. -/
theorem loopAct_keeps {a : EventLoopAct} (h : CallsInv s) (ha : isLoopAct a = true)
    (hstep : eventLoopStep s a = some s') :
    executedCalls s' ++ queuedCalls s'.dev = executedCalls s ++ queuedCalls s.dev := by
  by_cases hread : a = .read
  · subst hread
    change loopRead s = some s' at hstep
    by_cases hpc : s.pc = .served
    · by_cases hrevents : s.dev.revents = true
      · obtain ⟨-, heq⟩ | ⟨evt, bufs, dev', made, hbufs, hbufs', -, hids, -, heq⟩ :=
          loopRead_cases h hpc hrevents
        · rw [heq] at hstep
          cases hstep
          rfl
        · rw [heq] at hstep
          cases hstep
          rw [queuedCalls_cons hbufs hbufs', ← hids, ← List.append_assoc]
          congr 1
          exact List.filterMap_append
      · rw [loopRead, if_pos hpc, if_neg hrevents] at hstep
        cases hstep
        rfl
    · rw [loopRead, if_neg hpc] at hstep
      cases hstep
  · obtain ⟨hdev, hexecuted⟩ := loopAct_quiet ha hread hstep
    unfold executedCalls queuedCalls
    rw [hdev.bufs, hexecuted]

/-- The loop takes an event out of the device by itself. -/
def TakesEvent (s : EventLoop) : Prop :=
  ∃ t, LoopAlone s t ∧ CallsInv t ∧ t.dev.bufs.length < s.dev.bufs.length

/-- An act before the read. -/
theorem TakesEvent.head {a : EventLoopAct} (h : CallsInv s) (ha : isLoopAct a = true) (hread : a ≠ .read)
    (hstep : eventLoopStep s a = some s') (hbufs : s.dev.bufs ≠ [])
    (htakes : CallsInv s' → s'.dev.bufs ≠ [] → TakesEvent s') : TakesEvent s := by
  have hsame := (loopAct_quiet ha hread hstep).1.bufs
  obtain ⟨t, hrun, ht, hlt⟩ := htakes (h.step hstep) (by rw [hsame]; exact hbufs)
  rw [hsame] at hlt
  exact ⟨t, hrun.head ⟨a, ha, hstep⟩, ht, hlt⟩

/-- With events and the device reported ready, the loop takes one next from here. -/
theorem served_takes (h : CallsInv s) (hbufs : s.dev.bufs ≠ []) (hpc : s.pc = .served)
    (hrevents : s.dev.revents = true) : TakesEvent s := by
  obtain ⟨hnil, -⟩ | ⟨evt, bufs, dev', made, heq, hbufs', -, -, -, hread⟩ :=
    loopRead_cases h hpc hrevents
  · exact absurd hnil hbufs
  · refine ⟨_, Relation.ReflTransGen.single ⟨.read, rfl, hread⟩, h.step (a := .read) hread, ?_⟩
    change dev'.bufs.length < s.dev.bufs.length
    rw [hbufs', heq, List.length_cons]
    exact Nat.lt_succ_self _

/-- And from here, if the poll found something. -/
theorem polled_takes {res : ℤ} (h : CallsInv s) (hbufs : s.dev.bufs ≠ []) (hpc : s.pc = .polled res)
    (hres : 0 < res) (hrevents : s.dev.revents = true) : TakesEvent s := by
  have hstep : eventLoopStep s .fire = some { runTimeout s with pc := .served } := by
    simp only [eventLoopStep, loopFire, hpc]
    rw [if_neg (by omega)]
  refine TakesEvent.head h rfl (by simp) hstep hbufs fun h' hbufs' => served_takes h' hbufs' rfl ?_
  change (runTimeout s).dev.revents = true
  rw [(runTimeout_frame s).1]
  exact hrevents

/-- And from here, if the wait did not fail. -/
theorem woken_takes {ret : ℤ} (h : CallsInv s) (hbufs : s.dev.bufs ≠ []) (hpc : s.pc = .woken ret)
    (hret : 0 ≤ ret) (hrevents : s.dev.revents = true) : TakesEvent s := by
  have hstep : eventLoopStep s .teardown =
      some { s with dev := { s.dev with pollCb := false }, pc := .polled (ret + 1) } := by
    have hpoll : eventPoll s.dev false = { s.dev with pollCb := false } := rfl
    simp only [eventLoopStep, loopTeardown, hpc, hrevents, if_true, hpoll]
    rw [if_neg (by omega)]
  refine TakesEvent.head h rfl (by simp) hstep hbufs fun h' hbufs' => ?_
  exact polled_takes h' hbufs' rfl (by omega) hrevents

/-- The poll has been notified of what is queued, so it does not wait. -/
theorem waiting_takes {wakeAt : Option ℤ} (h : CallsInv s) (hbufs : s.dev.bufs ≠ [])
    (hpc : s.pc = .waiting wakeAt) : TakesEvent s := by
  have hcounter : s.dev.counter ≠ 0 := by
    rw [h.dev.counter]
    simpa using hbufs
  obtain ⟨hrevents, hsem⟩ := (h.ready (by rw [hpc]; rfl)).2 hcounter
  have hstep : eventLoopStep s (.wake 0 false false) = some { s with pc := .woken 0 } := by
    simp [eventLoopStep, loopWake, hpc, hsem]
  refine TakesEvent.head h rfl (by simp) hstep hbufs fun h' hbufs' => ?_
  exact woken_takes h' hbufs' rfl le_rfl hrevents

/-- From here in any case, as the poll will find the device ready. -/
theorem planned_takes {delayedMs : ℤ} (h : CallsInv s) (hbufs : s.dev.bufs ≠ [])
    (hpc : s.pc = .planned delayedMs) : TakesEvent s := by
  obtain ⟨s', wakeAt, hstep, hpc'⟩ : ∃ s' wakeAt, eventLoopStep s .setup = some s' ∧
      s'.pc = .waiting wakeAt := by
    simp only [eventLoopStep, loopSetup, hpc]
    exact ⟨_, _, rfl, rfl⟩
  exact TakesEvent.head h rfl (by simp) hstep hbufs fun h' hbufs' => waiting_takes h' hbufs' hpc'

/-- And from the top of the loop. -/
theorem top_takes (h : CallsInv s) (hbufs : s.dev.bufs ≠ []) (hpc : s.pc = .top) : TakesEvent s := by
  obtain ⟨s', delayedMs, hstep, hpc'⟩ : ∃ s' delayedMs, eventLoopStep s .plan = some s' ∧
      s'.pc = .planned delayedMs := by
    simp only [eventLoopStep, loopPlan, hpc, if_true]
    exact ⟨_, _, rfl, rfl⟩
  exact TakesEvent.head h rfl (by simp) hstep hbufs fun h' hbufs' => planned_takes h' hbufs' hpc'

/-- And while it runs timeouts. -/
theorem afterFire_takes (h : CallsInv s) (hbufs : s.dev.bufs ≠ [])
    (hpc : s.pc = .top ∨ s.pc = .served) : TakesEvent s := by
  obtain hpc | hpc := hpc
  · exact top_takes h hbufs hpc
  · by_cases hrevents : s.dev.revents = true
    · exact served_takes h hbufs hpc hrevents
    · have hstep : eventLoopStep s .read = some { s with pc := .top } := by
        simp only [eventLoopStep, loopRead]
        rw [if_pos hpc, if_neg hrevents]
      obtain ⟨t, hrun, ht⟩ := top_takes (h.step hstep) hbufs rfl
      exact ⟨t, hrun.head ⟨.read, rfl, hstep⟩, ht⟩

/-- And behind the poll, whatever it returned. -/
theorem afterPoll_takes {res : ℤ} (h : CallsInv s) (hbufs : s.dev.bufs ≠ [])
    (hpc : s.pc = .polled res) : TakesEvent s := by
  have hstep : eventLoopStep s .fire =
      some { runTimeout s with pc := if res ≤ 0 then .top else .served } := by
    simp only [eventLoopStep, loopFire, hpc]
  refine TakesEvent.head h rfl (by simp) hstep hbufs fun h' hbufs' => afterFire_takes h' hbufs' ?_
  by_cases hres : res ≤ 0
  · exact Or.inl (if_pos hres)
  · exact Or.inr (if_neg hres)

/-- **No event is overlooked**: wherever the loop is, it goes on to take out what is queued. -/
theorem loopAlone_takes (h : CallsInv s) (hbufs : s.dev.bufs ≠ []) : TakesEvent s := by
  cases hpc : s.pc with
  | top => exact top_takes h hbufs hpc
  | planned delayedMs => exact planned_takes h hbufs hpc
  | waiting wakeAt => exact waiting_takes h hbufs hpc
  | woken ret =>
    obtain ⟨s', res, hstep, hpc'⟩ : ∃ s' res, eventLoopStep s .teardown = some s' ∧
        s'.pc = .polled res := by
      simp only [eventLoopStep, loopTeardown, hpc]
      exact ⟨_, _, rfl, rfl⟩
    exact TakesEvent.head h rfl (by simp) hstep hbufs fun h' hbufs' => afterPoll_takes h' hbufs' hpc'
  | polled res => exact afterPoll_takes h hbufs hpc
  | served => exact afterFire_takes h hbufs (Or.inr hpc)

/-- The loop on its own keeps the invariant, and the calls that were executed or are queued stay in their
order. -/
theorem LoopAlone.keeps {t : EventLoop} (hrun : LoopAlone s t) (h : CallsInv s) :
    CallsInv t ∧ executedCalls t ++ queuedCalls t.dev = executedCalls s ++ queuedCalls s.dev := by
  induction hrun with
  | refl => exact ⟨h, rfl⟩
  | tail _ hstep ih =>
    obtain ⟨a, ha, hstep⟩ := hstep
    exact ⟨ih.1.step hstep, (loopAct_keeps ih.1 ha hstep).trans ih.2⟩

/-- **The loop alone makes all calls that are queued.** -/
theorem loopAlone_drains (h : CallsInv s) :
    ∃ t, LoopAlone s t ∧ queuedCalls t.dev = [] ∧
      executedCalls t = executedCalls s ++ queuedCalls s.dev := by
  have hempty : ∃ t, LoopAlone s t ∧ t.dev.bufs = [] := by
    induction hn : s.dev.bufs.length using Nat.strong_induction_on generalizing s with
    | _ n ih =>
      by_cases hbufs : s.dev.bufs = []
      · exact ⟨s, Relation.ReflTransGen.refl, hbufs⟩
      · obtain ⟨t, hrun, ht, hlt⟩ := loopAlone_takes h hbufs
        obtain ⟨u, hrest, hu⟩ := ih _ (hn ▸ hlt) ht rfl
        exact ⟨u, hrun.trans hrest, hu⟩
  obtain ⟨t, hrun, ht⟩ := hempty
  have hqueue : queuedCalls t.dev = [] := by
    rw [queuedCalls, ht, List.filterMap_nil]
  have hkeeps := (LoopAlone.keeps hrun h).2
  rw [hqueue, List.append_nil] at hkeeps
  exact ⟨t, hrun, hqueue, hkeeps⟩

/-- A delayed action that is due at once and one that is cancelled, a call, an urgent call, and one round
of the loop. -/
def urgentRun : List EventLoopAct :=
  [.postDelayed 0 7 8, .postDelayed 5 7 9, .cancelDelayed (-1) 7 9, .schedule 1 2, .scheduleUrgent 3 4, .plan,
    .setup, .wake 0 false false, .teardown, .fire, .read]

end GenieSdk.Analysis
