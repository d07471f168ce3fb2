import GenieSdk.Model.BufQueue
import GenieSdk.Analysis.RingBufFifo

/-!
# What a buffer queue delivers

`BqEvent` is one step of the system: a send, the call of a receive, the time-out of a blocked
receiver, or the end of a blocked receive. `BqHist` records what the steps returned: the
messages successfully sent, in order; the tasks a message was handed to, in order of the
hand-over, be it out of the ring buffer or directly by a sender; and for each task what its
successful receives obtained.

The invariant `BqInv` says that the `k`-th hand-over is of the `k`-th message sent, that the
messages not handed over are the contents of the ring buffer, that a woken task holds the
message handed to it, and that a blocked receiver implies an empty ring buffer.
-/

set_option autoImplicit false

namespace GenieSdk.Analysis

open GenieSdk.Lib GenieSdk.Model

/-- A message: its bytes and its size. -/
abbrev Msg := List UInt8 × ℕ

/-- One step of the tasks that use the queue. -/
inductive BqEvent
  | send (msg : Mem) (size : ℕ)
  | recv (task ticks nested schedLock : ℕ)
  | timeout (task : ℕ)
  | recvEnd (task : ℕ)

/-- What has been sent, handed over and received so far. -/
structure BqHist where
  sent : List Msg
  receivers : List ℕ
  received : ℕ → List Msg

/-- Nothing has happened yet. -/
def BqHist.empty : BqHist := { sent := [], receivers := [], received := fun _ => [] }

/-- A successful send, and the task it was handed to, if any. -/
def BqHist.recordSend (h : BqHist) (msg : Mem) (size : ℕ) : KStat × Option ℕ → BqHist
  | (.success, woken) =>
    { h with sent := h.sent ++ [(readBytes msg 0 size, size)],
             receivers := h.receivers ++ woken.toList }
  | _ => h

/-- A message taken out of the ring buffer by `task`: hand-over and receipt at once. -/
def BqHist.recordRecv (h : BqHist) (task : ℕ) : RecvOut → BqHist
  | .returned .success msg (some size) =>
    { h with receivers := h.receivers ++ [task],
             received := Function.update h.received task (h.received task ++ [(msg, size)]) }
  | _ => h

/-- The end of a blocked receive: the hand-over was recorded when the message was sent. -/
def BqHist.recordRecvEnd (h : BqHist) (task : ℕ) : RecvOut → BqHist
  | .returned .success msg (some size) =>
    { h with received := Function.update h.received task (h.received task ++ [(msg, size)]) }
  | _ => h

/-- One step of the system with its record; `none` if the step is not enabled: only a task
outside a receive calls one, only a task pended with a time-out times out, and only a task
made ready ends its receive. -/
def bqStep : BqState × BqHist → BqEvent → Option (BqState × BqHist)
  | (s, h), .send msg size =>
    let (out, s') := bufQueueSend s msg size
    some (s', h.recordSend msg size out)
  | (s, h), .recv task ticks nested schedLock =>
    if (s.tasks task).state = .idle then
      let (out, s') := krhinoBufQueueRecv s task ticks nested schedLock
      some (s', h.recordRecv task out)
    else none
  | (s, h), .timeout task =>
    if (s.tasks task).state = .pend ∧ (s.tasks task).timed = true then
      some (bufQueueTimeout s task, h)
    else none
  | (s, h), .recvEnd task =>
    if (s.tasks task).state = .ready then
      let (out, s') := bufQueueRecvEnd s task
      some (s', h.recordRecvEnd task out)
    else none

/-- A run of the system, from a state in which nothing has been sent. -/
def bqRun (s : BqState) (es : List BqEvent) : Option (BqState × BqHist) :=
  runSteps bqStep (s, .empty) es

/-- The messages handed to `task`: the `k`-th hand-over is of the `k`-th message sent. -/
def handedTo (h : BqHist) (task : ℕ) : List Msg :=
  ((h.receivers.zip h.sent).filter fun p => p.1 = task).map Prod.snd

/-- The message handed directly to `task` that its receive has yet to return. -/
def inHand (s : BqState) (task : ℕ) : List Msg :=
  if (s.tasks task).state = .ready ∧ (s.tasks task).blkState = .finish then
    [((s.tasks task).msg, (s.tasks task).bqMsgSize)]
  else []

/-! ## The invariant -/

/-- The state of a run over the buffer `[buf, buf + len)` with messages of at most `maxMsg`
bytes; `q` are the messages in the ring buffer. -/
structure BqInv (buf len maxMsg : ℕ) (type : RingBufType) (s : BqState) (h : BqHist)
    (q : List (List UInt8)) : Prop where
  rep : QueueRep buf len type maxMsg (s.queue.ringbuf, s.mem) q
  len_pos : 0 < len
  objType : s.queue.objType = .bufQueue
  maxMsg_eq : s.queue.maxMsgSize = maxMsg
  nodup : s.queue.blkList.Nodup
  pended : ∀ t, t ∈ s.queue.blkList ↔ (s.tasks t).state = .pend
  blocked_empty : s.queue.blkList ≠ [] → q = []
  sent : ∃ handed, h.sent = handed ++ q.map (fun m => (m, m.length)) ∧
    handed.length = h.receivers.length
  received : ∀ t, handedTo h t = h.received t ++ inHand s t

/-- A message sent but not handed over does not change what was handed to a task. -/
theorem zip_append_of_le {α β : Type} (l : List α) (m n : List β) (h : l.length ≤ m.length) :
    l.zip (m ++ n) = l.zip m := by
  induction l generalizing m with
  | nil => rfl
  | cons a l ih =>
    cases m with
    | nil => simp at h
    | cons b m => simp [ih m (by simpa using h)]

section Steps

variable {buf len maxMsg : ℕ} {type : RingBufType} {s : BqState} {h : BqHist}
  {q : List (List UInt8)}

/-- No more messages were received than sent. -/
theorem BqInv.receivers_le (hi : BqInv buf len maxMsg type s h q) :
    h.receivers.length ≤ h.sent.length := by
  obtain ⟨handed, hs, hl⟩ := hi.sent
  rw [hs, List.length_append]
  omega

/-- A step whose send, if any, is of a size the queue handles alike on both paths: any size
in a dynamic queue, the block size in a fixed one. Sizes the queue refuses are free. -/
def BqEvent.WholeBlock (type : RingBufType) (maxMsg : ℕ) : BqEvent → Prop
  | .send _ size => type = .fix → size = maxMsg ∨ size = 0 ∨ maxMsg < size
  | _ => True

/-- A step whose message, if any, is an object of the 32-bit address space that also holds
the control block of the ring buffer. -/
def BqEvent.InMemory : BqEvent → Prop
  | .send _ size => size + ringbufStructSize ≤ sizeRange
  | _ => True

/-- **a send to a queue without blocked receivers** is buffered or refused.
SRCLINE: k_buf_queue.c:229-255 -/
theorem BqInv.send_buffered (hi : BqInv buf len maxMsg type s h q) (msg : Mem) (size : ℕ)
    (hblk : s.queue.blkList = []) (hpos : size ≠ 0) (hmax : size ≤ maxMsg)
    (hwhole : (BqEvent.send msg size).WholeBlock type maxMsg)
    (hmem : (BqEvent.send msg size).InMemory) :
    ∃ q', BqInv buf len maxMsg type (bufQueueSend s msg size).2
      (h.recordSend msg size (bufQueueSend s msg size).1) q' := by
  have hmsg : ringMsg type maxMsg msg size = readBytes msg 0 size := by
    cases type with
    | dyn => rfl
    | fix =>
      have : size = maxMsg := by
        rcases hwhole rfl with h1 | h1 | h1
        · exact h1
        · exact absurd h1 hpos
        · omega
      rw [ringMsg, this]
  have hstep : (ringStep (s.queue.ringbuf, s.mem) (.push msg size)).1 =
        (fifoStep len type maxMsg q (.push msg size)).1 ∧
      QueueRep buf len type maxMsg (ringStep (s.queue.ringbuf, s.mem) (.push msg size)).2
        (fifoStep len type maxMsg q (.push msg size)).2 := by
    have hrep := hi.rep
    cases type with
    | fix => exact hrep.push_fix msg size hi.len_pos
    | dyn => exact hrep.push_dyn msg size (by omega) hmem
  have hnot1 : ¬ s.queue.objType ≠ .bufQueue := by simp [hi.objType]
  have hnot2 : ¬ s.queue.maxMsgSize < size := by rw [hi.maxMsg_eq]; omega
  rcases hpush : ringbufPush s.queue.ringbuf s.mem msg size with ⟨stat, ringbuf, mem⟩
  simp only [ringStep, hpush, fifoStep, hmsg] at hstep
  simp only [bufQueueSend, if_neg hnot1, if_neg hnot2, if_neg hpos, hblk, hpush]
  split at hstep
  · -- refused: nothing changes
    obtain ⟨hout, -⟩ := hstep
    cases RingOut.pushed.inj hout
    exact ⟨q, hi⟩
  · obtain ⟨hout, hrep⟩ := hstep
    cases RingOut.pushed.inj hout
    refine ⟨q ++ [readBytes msg 0 size], ⟨hrep, hi.len_pos, hi.objType, hi.maxMsg_eq, by simp,
      ?_, by simp, ?_, ?_⟩⟩
    · intro t
      have := hi.pended t
      rwa [hblk] at this
    · obtain ⟨handed, hs, hl⟩ := hi.sent
      refine ⟨handed, ?_, by simpa [BqHist.recordSend] using hl⟩
      simp [BqHist.recordSend, hs]
    · intro t
      have hrec := hi.received t
      have hle := hi.receivers_le
      simp only [handedTo, BqHist.recordSend, Option.toList_none, List.append_nil]
      rw [zip_append_of_le _ _ _ hle]
      exact hrec

/-- **a send to a blocked receiver** hands the message over.
SRCLINE: k_buf_queue.c:257-267 -/
theorem BqInv.send_direct (hi : BqInv buf len maxMsg type s h q) (msg : Mem) (size task : ℕ)
    (rest : List ℕ) (hblk : s.queue.blkList = task :: rest) (hpos : size ≠ 0)
    (hmax : size ≤ maxMsg) :
    BqInv buf len maxMsg type (bufQueueSend s msg size).2
      (h.recordSend msg size (bufQueueSend s msg size).1) q := by
  have hq : q = [] := hi.blocked_empty (by simp [hblk])
  subst hq
  have hnot1 : ¬ s.queue.objType ≠ .bufQueue := by simp [hi.objType]
  have hnot2 : ¬ s.queue.maxMsgSize < size := by rw [hi.maxMsg_eq]; omega
  have hnodup := hi.nodup
  rw [hblk] at hnodup
  have htask : (s.tasks task).state = .pend := (hi.pended task).mp (by simp [hblk])
  obtain ⟨handed, hs, hl⟩ := hi.sent
  simp only [List.map_nil, List.append_nil] at hs
  subst hs
  simp only [bufQueueSend, if_neg hnot1, if_neg hnot2, if_neg hpos, hblk]
  refine ⟨hi.rep, hi.len_pos, hi.objType, hi.maxMsg_eq, ?_, ?_, fun _ => rfl, ?_, ?_⟩
  · simpa [pendTaskWakeup, hblk] using (List.nodup_cons.mp hnodup).2
  · intro t
    simp only [pendTaskWakeup, hblk, List.erase_cons_head]
    by_cases ht : t = task
    · subst ht
      simpa using (List.nodup_cons.mp hnodup).1
    · have := hi.pended t
      rw [hblk] at this
      simpa [Function.update_of_ne ht, ht] using this
  · exact ⟨h.sent ++ [(readBytes msg 0 size, size)], by simp [BqHist.recordSend],
      by simp [BqHist.recordSend, hl]⟩
  · intro t
    have hrec := hi.received t
    have hzip : (h.receivers ++ [task]).zip (h.sent ++ [(readBytes msg 0 size, size)]) =
        h.receivers.zip h.sent ++ [(task, (readBytes msg 0 size, size))] := by
      rw [List.zip_append hl.symm]
      rfl
    simp only [handedTo, BqHist.recordSend, Option.toList_some, hzip, List.filter_append,
      List.map_append]
    by_cases ht : t = task
    · subst ht
      simp only [handedTo] at hrec
      rw [hrec]
      simp [inHand, htask, pendTaskWakeup]
    · simp only [handedTo] at hrec
      rw [hrec]
      simp [inHand, pendTaskWakeup, Function.update_of_ne ht, Ne.symm ht]

/-- A send keeps the invariant.
SRCLINE: k_buf_queue.c:190-268 -/
theorem BqInv.send (hi : BqInv buf len maxMsg type s h q) (msg : Mem) (size : ℕ)
    (hwhole : (BqEvent.send msg size).WholeBlock type maxMsg)
    (hmem : (BqEvent.send msg size).InMemory) :
    ∃ q', BqInv buf len maxMsg type (bufQueueSend s msg size).2
      (h.recordSend msg size (bufQueueSend s msg size).1) q' := by
  have hnot1 : ¬ s.queue.objType ≠ .bufQueue := by simp [hi.objType]
  by_cases hmax : maxMsg < size
  · refine ⟨q, ?_⟩
    simp only [bufQueueSend, if_neg hnot1, hi.maxMsg_eq, if_pos hmax]
    exact hi
  by_cases hpos : size = 0
  · refine ⟨q, ?_⟩
    simp only [bufQueueSend, if_neg hnot1, hi.maxMsg_eq, if_neg hmax, if_pos hpos]
    exact hi
  cases hblk : s.queue.blkList with
  | nil => exact hi.send_buffered msg size hblk hpos (by omega) hwhole hmem
  | cons task rest => exact ⟨q, hi.send_direct msg size task rest hblk hpos (by omega)⟩

/-- The code's pop on a represented non-empty queue. -/
theorem QueueRep.pop_cons {ringbuf : KRingBuf} {mem : Mem} {m : List UInt8}
    (hr : QueueRep buf len type maxMsg (ringbuf, mem) (m :: q)) :
    ∃ ringbuf', ringbufPop ringbuf mem = (.success, some (m, m.length), ringbuf') ∧
      QueueRep buf len type maxMsg (ringbuf', mem) q := by
  have hstep := hr.step .pop trivial
  rcases hpop : ringbufPop ringbuf mem with ⟨stat, msg, ringbuf'⟩
  simp only [ringStep, hpop, fifoStep] at hstep
  obtain ⟨hout, hrep⟩ := hstep
  injection hout with h1 h2
  subst h1 h2
  exact ⟨ringbuf', rfl, hrep⟩

/-- The call of a receive by a task outside any call keeps the invariant.
SRCLINE: k_buf_queue.c:278-328 -/
theorem BqInv.recv (hi : BqInv buf len maxMsg type s h q) (task ticks nested schedLock : ℕ)
    (hidle : (s.tasks task).state = .idle) :
    ∃ q', BqInv buf len maxMsg type (krhinoBufQueueRecv s task ticks nested schedLock).2
      (h.recordRecv task (krhinoBufQueueRecv s task ticks nested schedLock).1) q' := by
  have hnot1 : ¬ s.queue.objType ≠ .bufQueue := by simp [hi.objType]
  have hempty := hi.rep.isEmpty_iff
  unfold krhinoBufQueueRecv
  by_cases hnested : 0 < nested ∧ ticks ≠ rhinoNoWait
  · rw [if_pos hnested]
    exact ⟨q, hi⟩
  rw [if_neg hnested, if_neg hnot1]
  cases q with
  | cons m q =>
    -- the oldest message is taken out of the ring buffer
    have hne : ringbufIsEmpty s.queue.ringbuf = false := by
      rw [Bool.eq_false_iff]; intro hc; exact absurd (hempty.mp hc) (by simp)
    have hblk : s.queue.blkList = [] := by
      by_contra hc; exact absurd (hi.blocked_empty hc) (by simp)
    obtain ⟨ringbuf', hpop, hrep⟩ := hi.rep.pop_cons
    rw [if_pos hne, hpop]
    refine ⟨q, hrep, hi.len_pos, hi.objType, hi.maxMsg_eq, hi.nodup, hi.pended,
      fun hc => absurd hblk hc, ?_, ?_⟩
    · obtain ⟨handed, hs, hl⟩ := hi.sent
      exact ⟨handed ++ [(m, m.length)], by simp [BqHist.recordRecv, hs],
        by simp [BqHist.recordRecv, hl]⟩
    · intro t
      obtain ⟨handed, hs, hl⟩ := hi.sent
      have hrec := hi.received t
      have hzip0 : h.receivers.zip h.sent = h.receivers.zip handed := by
        rw [hs]; exact zip_append_of_le _ _ _ hl.ge
      have hzip : (h.receivers ++ [task]).zip h.sent =
          h.receivers.zip handed ++ [(task, (m, m.length))] := by
        rw [hs, List.zip_append hl.symm]
        simp
      simp only [handedTo, hzip0] at hrec
      simp only [handedTo, BqHist.recordRecv, hzip, List.filter_append, List.map_append, hrec]
      by_cases ht : t = task
      · subst ht
        simp [inHand, hidle]
      · simp [inHand, Function.update_of_ne ht, Ne.symm ht]
  | nil =>
    have hne : ¬ ringbufIsEmpty s.queue.ringbuf = false := by simp [hempty.mpr rfl]
    rw [if_neg hne]
    split
    · exact ⟨[], hi⟩
    split
    · exact ⟨[], hi⟩
    -- the caller blocks
    have hperm := pendListAdd_perm (fun t => (s.tasks t).prio) task s.queue.blkList
    have hnot : task ∉ s.queue.blkList := by
      rw [hi.pended, hidle]; simp
    refine ⟨[], hi.rep, hi.len_pos, hi.objType, hi.maxMsg_eq, ?_, ?_, fun _ => rfl, hi.sent, ?_⟩
    · exact hperm.nodup_iff.mpr (List.nodup_cons.mpr ⟨hnot, hi.nodup⟩)
    · intro t
      show t ∈ pendListAdd _ task s.queue.blkList ↔ _
      rw [hperm.mem_iff, List.mem_cons]
      by_cases ht : t = task
      · subst ht
        simp [pendToBlkObj]
      · simp [pendToBlkObj, ht, hi.pended t]
    · intro t
      have hrec := hi.received t
      simp only [BqHist.recordRecv]
      rw [hrec]
      by_cases ht : t = task
      · subst ht
        simp [inHand, hidle, pendToBlkObj]
      · simp [inHand, pendToBlkObj, Function.update_of_ne ht]

/-- A time-out keeps the invariant: the task leaves the list without a message.
SRCLINE: k_tick.c:91-100 -/
theorem BqInv.timeout (hi : BqInv buf len maxMsg type s h q) (task : ℕ)
    (hpend : (s.tasks task).state = .pend) :
    BqInv buf len maxMsg type (bufQueueTimeout s task) h q := by
  refine ⟨hi.rep, hi.len_pos, hi.objType, hi.maxMsg_eq, hi.nodup.erase _, ?_, ?_, hi.sent, ?_⟩
  · intro t
    show t ∈ s.queue.blkList.erase task ↔ _
    rw [hi.nodup.mem_erase_iff]
    by_cases ht : t = task
    · subst ht
      simp [bufQueueTimeout]
    · simp [bufQueueTimeout, ht, hi.pended t]
  · intro hc
    apply hi.blocked_empty
    rintro hnil
    simp [bufQueueTimeout, hnil] at hc
  · intro t
    rw [hi.received t]
    by_cases ht : t = task
    · subst ht
      simp [inHand, hpend, bufQueueTimeout]
    · simp [inHand, bufQueueTimeout, Function.update_of_ne ht]

/-- The end of a blocked receive keeps the invariant: the task returns the message
it holds, if it was woken with one.
SRCLINE: k_buf_queue.c:330-348 -/
theorem BqInv.recvEnd (hi : BqInv buf len maxMsg type s h q) (task : ℕ)
    (hready : (s.tasks task).state = .ready) :
    BqInv buf len maxMsg type (bufQueueRecvEnd s task).2
      (h.recordRecvEnd task (bufQueueRecvEnd s task).1) q := by
  have hnot : task ∉ s.queue.blkList := by
    rw [hi.pended, hready]; simp
  have hpended : ∀ t, t ∈ s.queue.blkList ↔
      (Function.update s.tasks task { s.tasks task with state := .idle } t).state = .pend := by
    intro t
    by_cases ht : t = task
    · subst ht
      simpa using hnot
    · simpa [Function.update_of_ne ht] using hi.pended t
  have hother : ∀ t, t ≠ task →
      inHand (s.endRecv task) t = inHand s t := by
    intro t ht
    simp [inHand, BqState.endRecv, Function.update_of_ne ht]
  have hself : inHand (s.endRecv task) task = [] := by
    simp [inHand, BqState.endRecv]
  by_cases hb : (s.tasks task).blkState = .finish
  · have hend : bufQueueRecvEnd s task = (.returned .success (s.tasks task).msg
        (some (s.tasks task).bqMsgSize), s.endRecv task) := by
      simp [bufQueueRecvEnd, hb, pendStateEndProc]
    rw [hend]
    refine ⟨hi.rep, hi.len_pos, hi.objType, hi.maxMsg_eq, hi.nodup, hpended, hi.blocked_empty,
      hi.sent, ?_⟩
    intro t
    have hrec := hi.received t
    simp only [handedTo, BqHist.recordRecvEnd] at hrec ⊢
    rw [hrec]
    by_cases ht : t = task
    · subst ht
      rw [hself]
      simp [inHand, hready, hb]
    · rw [hother t ht]
      simp [Function.update_of_ne ht]
  · have hstate : (bufQueueRecvEnd s task).2 = s.endRecv task := by
      unfold bufQueueRecvEnd
      cases h : (s.tasks task).blkState <;> simp_all [pendStateEndProc]
    have hhist : h.recordRecvEnd task (bufQueueRecvEnd s task).1 = h := by
      unfold bufQueueRecvEnd
      cases h : (s.tasks task).blkState <;> simp_all [pendStateEndProc, BqHist.recordRecvEnd]
    rw [hstate, hhist]
    refine ⟨hi.rep, hi.len_pos, hi.objType, hi.maxMsg_eq, hi.nodup, hpended, hi.blocked_empty,
      hi.sent, ?_⟩
    intro t
    rw [hi.received t]
    by_cases ht : t = task
    · subst ht
      rw [hself]
      simp [inHand, hb]
    · rw [hother t ht]

/-- **one step** keeps the invariant. -/
theorem BqInv.step (hi : BqInv buf len maxMsg type s h q) (e : BqEvent)
    (hwhole : e.WholeBlock type maxMsg) (hmem : e.InMemory) {s' : BqState} {h' : BqHist}
    (hstep : bqStep (s, h) e = some (s', h')) : ∃ q', BqInv buf len maxMsg type s' h' q' := by
  cases e with
  | send msg size =>
    simp only [bqStep, Option.some.injEq, Prod.mk.injEq] at hstep
    obtain ⟨rfl, rfl⟩ := hstep
    exact hi.send msg size hwhole hmem
  | recv task ticks nested schedLock =>
    simp only [bqStep] at hstep
    split at hstep
    · rename_i hidle
      simp only [Option.some.injEq, Prod.mk.injEq] at hstep
      obtain ⟨rfl, rfl⟩ := hstep
      exact hi.recv task ticks nested schedLock hidle
    · cases hstep
  | timeout task =>
    simp only [bqStep] at hstep
    split at hstep
    · rename_i hpend
      simp only [Option.some.injEq, Prod.mk.injEq] at hstep
      obtain ⟨rfl, rfl⟩ := hstep
      exact ⟨q, hi.timeout task hpend.1⟩
    · cases hstep
  | recvEnd task =>
    simp only [bqStep] at hstep
    split at hstep
    · rename_i hready
      simp only [Option.some.injEq, Prod.mk.injEq] at hstep
      obtain ⟨rfl, rfl⟩ := hstep
      exact ⟨q, hi.recvEnd task hready⟩
    · cases hstep

end Steps

/-! ## The runs of a created queue -/

/-- A queue made by one of the two create calls over a buffer `[buf, buf + len)` of the
32-bit address space, which also holds the control block. -/
structure BqCreated (queue : KBufQueue) (buf len : ℕ) (type : RingBufType) : Prop where
  end_lt : buf + len < sizeRange
  fits : len + ringbufStructSize ≤ sizeRange
  created : (type = .dyn ∧ ∃ maxMsg,
      krhinoBufQueueCreate buf len maxMsg = (.success, some queue)) ∨
    (type = .fix ∧ ∃ msgSize msgNum, len = msgSize * msgNum ∧
      krhinoFixBufQueueCreate buf msgSize msgNum = (.success, some queue))

/-- What a successful `buf_queue_create` leaves.
SRCLINE: k_buf_queue.c:9-50 -/
theorem bqInv_create {queue : KBufQueue} {buf len maxMsg : ℕ} {type : RingBufType} (mem : Mem)
    {tasks : ℕ → KTask} (h : bufQueueCreate buf len maxMsg type = (.success, some queue))
    (hend : buf + len < sizeRange) (hfit : len + ringbufStructSize ≤ sizeRange)
    (hdvd : type = .fix → maxMsg ∣ len) (hidle : ∀ t, (tasks t).state = .idle) :
    queue.maxMsgSize = maxMsg ∧
      BqInv buf len maxMsg type { queue := queue, mem := mem, tasks := tasks } .empty [] := by
  unfold bufQueueCreate at h
  by_cases hm : maxMsg = 0
  · simp [hm] at h
  by_cases hl : len = 0
  · simp [hm, hl] at h
  simp only [hm, hl, if_false, Prod.mk.injEq, true_and, Option.some.injEq] at h
  subst h
  refine ⟨rfl, queueRep_init buf len type maxMsg mem hend hfit hdvd, by omega, rfl, rfl,
    List.nodup_nil, ?_, by simp, ⟨[], rfl, rfl⟩, ?_⟩
  · intro t
    simp [hidle t]
  · intro t
    simp [handedTo, inHand, BqHist.empty, hidle t]

/-- The invariant holds of a new queue without waiting tasks. -/
theorem BqCreated.inv {queue : KBufQueue} {buf len : ℕ} {type : RingBufType} (mem : Mem)
    {tasks : ℕ → KTask} (h : BqCreated queue buf len type)
    (hidle : ∀ t, (tasks t).state = .idle) :
    BqInv buf len queue.maxMsgSize type { queue := queue, mem := mem, tasks := tasks } .empty [] := by
  obtain ⟨hend, hfit, ⟨rfl, maxMsg, h⟩ | ⟨rfl, msgSize, msgNum, rfl, h⟩⟩ := h
  · obtain ⟨hm, hi⟩ := bqInv_create mem h hend hfit (by simp) hidle
    rwa [hm]
  · have hmod : msgSize * msgNum % sizeRange = msgSize * msgNum := Nat.mod_eq_of_lt (by omega)
    rw [krhinoFixBufQueueCreate, hmod] at h
    obtain ⟨hm, hi⟩ := bqInv_create mem h hend hfit (fun _ => Nat.dvd_mul_right _ _) hidle
    rwa [hm]

/-- What the run has delivered, read off the state and the record: the messages handed to a
task are, in order, those its successful receives obtained and then the one it holds; the
messages sent and not handed over are in the ring buffer, in order; and the ring buffer is
empty whenever a receiver is blocked. -/
structure BqDelivers (buf len : ℕ) (type : RingBufType) (s : BqState) (h : BqHist) : Prop where
  received : ∀ t, handedTo h t = h.received t ++ inHand s t
  receivers_le : h.receivers.length ≤ h.sent.length
  queued : ∃ q, QueueRep buf len type s.queue.maxMsgSize (s.queue.ringbuf, s.mem) q ∧
    q.map (fun m => (m, m.length)) = h.sent.drop h.receivers.length
  blocked : s.queue.blkList ≠ [] → ringbufIsEmpty s.queue.ringbuf = true

/-- **The buffer queue delivers what was sent, on both paths**, in every run whose sends to a
fixed queue are of whole blocks: each task receives the messages handed to it, bytes and size,
the `k`-th hand-over being of the `k`-th message sent whether it went through the ring buffer
or directly to a blocked receiver. -/
theorem buf_queue_delivers (queue : KBufQueue) (buf len : ℕ) (type : RingBufType) (mem : Mem)
    (tasks : ℕ → KTask) (es : List BqEvent) (s : BqState) (h : BqHist)
    (hcreated : BqCreated queue buf len type) (hidle : ∀ t, (tasks t).state = .idle)
    (hmem : ∀ e ∈ es, e.InMemory) (hwhole : ∀ e ∈ es, e.WholeBlock type queue.maxMsgSize)
    (hrun : bqRun { queue := queue, mem := mem, tasks := tasks } es = some (s, h)) :
    BqDelivers buf len type s h := by
  obtain ⟨q, hi⟩ : ∃ q, BqInv buf len queue.maxMsgSize type s h q :=
    runSteps_inv (I := fun sh => ∃ q, BqInv buf len queue.maxMsgSize type sh.1 sh.2 q)
      (P := fun _ e => e.WholeBlock type queue.maxMsgSize ∧ e.InMemory)
      (fun _ e _ ⟨_, hi⟩ hP hstep => hi.step e hP.1 hP.2 hstep)
      ⟨[], hcreated.inv mem hidle⟩
      (stepsMeet_of_forall (fun e he _ => ⟨hwhole e he, hmem e he⟩) _) hrun
  refine ⟨hi.received, hi.receivers_le, ⟨q, ?_, ?_⟩, ?_⟩
  · rw [hi.maxMsg_eq]
    exact hi.rep
  · obtain ⟨handed, hs, hl⟩ := hi.sent
    rw [hs, ← hl, List.drop_left]
  · intro hb
    exact hi.rep.isEmpty_iff.mpr (hi.blocked_empty hb)

/-- A fixed queue of two blocks of four bytes, and tasks that do nothing yet. -/
def twoBlockState : BqState where
  queue :=
    { objType := .bufQueue, blkList := [], ringbuf := ringbufInit 64 8 .fix 4, maxMsgSize := 4,
      curNum := 0, peakNum := 0, minFreeBufSize := 8 }
  mem := fun _ => 0
  tasks := fun _ =>
    { prio := 10, state := .idle, timed := false, blkState := .finish, msg := [], bqMsgSize := 0 }

/-- That queue is a new one. -/
theorem twoBlockState_created : BqCreated twoBlockState.queue 64 8 .fix where
  end_lt := by rw [sizeRange_eq]; norm_num
  fits := by rw [sizeRange_eq]; norm_num [ringbufStructSize]
  created := by
    refine Or.inr ⟨rfl, 4, 2, rfl, ?_⟩
    have hmod : 4 * 2 % sizeRange = 8 := by rw [sizeRange_eq]
    rw [krhinoFixBufQueueCreate, hmod]
    decide +kernel

/-- The delivery theorem at a run in which one block is handed over directly and the next one
is buffered. -/
theorem buf_queue_delivers_two_blocks :
    ∃ s h, bqRun twoBlockState [.recv 1 5 0 0, .send (fun _ => 7) 4,
        .send (fun _ => 9) 4, .recvEnd 1, .recv 2 0 0 0] = some (s, h) ∧
      BqDelivers 64 8 .fix s h := by
  have hsome : (bqRun twoBlockState [.recv 1 5 0 0, .send (fun _ => 7) 4,
      .send (fun _ => 9) 4, .recvEnd 1, .recv 2 0 0 0]).isSome = true := by decide +kernel
  obtain ⟨⟨s, h⟩, hrun⟩ := Option.isSome_iff_exists.mp hsome
  refine ⟨s, h, hrun, buf_queue_delivers twoBlockState.queue 64 8 .fix _ _ _ s h
    twoBlockState_created (fun _ => rfl) ?_ ?_ hrun⟩
  · simp [BqEvent.InMemory, ringbufStructSize, sizeRange_eq]
  · simp [BqEvent.WholeBlock, twoBlockState]

/-- One byte sent to the fixed queue: buffered, the receiver obtains a block of four bytes and
the size four; handed over directly, it obtains the byte sent and the size one. -/
theorem buf_queue_short_send :
    (bqRun twoBlockState [.send (fun i => if i = 0 then 65 else 0) 1, .recv 1 0 0 0]).map
        (fun p => (p.2.sent, p.2.received 1)) = some ([([65], 1)], [([65, 0, 0, 0], 4)]) ∧
      (bqRun twoBlockState
        [.recv 1 5 0 0, .send (fun i => if i = 0 then 65 else 0) 1, .recvEnd 1]).map
        (fun p => (p.2.sent, p.2.received 1)) = some ([([65], 1)], [([65], 1)]) := by
  decide +kernel

end GenieSdk.Analysis
