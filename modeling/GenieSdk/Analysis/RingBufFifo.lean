import GenieSdk.Model.RingBuf
import GenieSdk.Lib.Runs

/-!
# The ring buffer is a bounded queue of messages

`RingRep mem r c` says that the bytes queued in `r` are exactly the list `c`: they are found
from `head` on, cut at most once at `end`, and `tail` rests where they stop. Every copy the
code makes appends to `c` at the tail (`RingRep.put`) or removes from its front
(`RingRep.get`) as soon as it does not run over `end`; the split tests of `ringbuf_push` and
`ringbuf_pop` ensure that (`ringbufPut_rep`, `popLen_rep`, `popData_rep`).

On top of the byte queue, `fifoStep` is the specification: a list of messages, each of which
takes its encoded size out of the capacity.
-/

set_option autoImplicit false

namespace GenieSdk.Analysis

open GenieSdk.Lib GenieSdk.Model

/-! ## The queued bytes -/

/-- The address of the `i`-th byte after `head`, wrapping once at `bufEnd`. -/
def circAddr (buf bufEnd head i : ℕ) : ℕ :=
  if head + i < bufEnd then head + i else head + i - (bufEnd - buf)

/-- The buffer `r` holds the bytes `c` in `mem`. -/
structure RingRep (mem : Mem) (r : KRingBuf) (c : List UInt8) : Prop where
  buf_le : r.buf ≤ r.bufEnd
  end_lt : r.bufEnd < sizeRange
  head_ge : r.buf ≤ r.head
  head_le : r.head ≤ r.bufEnd
  tail_ge : r.buf ≤ r.tail
  tail_le : r.tail ≤ r.bufEnd
  free : r.freesize + c.length = r.bufEnd - r.buf
  tail_eq : r.tail = r.head + c.length ∨
    r.tail + (r.bufEnd - r.buf) = r.head + c.length ∨
    r.tail + 2 * (r.bufEnd - r.buf) = r.head + c.length
  content : ∀ i < c.length, mem (circAddr r.buf r.bufEnd r.head i) = c.getD i 0

/-- A reset buffer holds nothing.
SRCLINE: k_ringbuf.c:202-209 -/
theorem RingRep.reset {mem : Mem} {r : KRingBuf} (h1 : r.buf ≤ r.bufEnd)
    (h2 : r.bufEnd < sizeRange) : RingRep mem (ringbufReset r) [] where
  buf_le := h1
  end_lt := h2
  head_ge := le_rfl
  head_le := h1
  tail_ge := le_rfl
  tail_le := h1
  free := by simp [ringbufReset, subSize_eq h1]
  tail_eq := by simp [ringbufReset]
  content := by simp

/-- The emptiness test looks at the free space only.
SRCLINE: k_ringbuf.c:192-199 -/
theorem RingRep.isEmpty_iff {mem : Mem} {r : KRingBuf} {c : List UInt8} (h : RingRep mem r c) :
    ringbufIsEmpty r = true ↔ c = [] := by
  have hfree := h.free
  rw [ringbufIsEmpty, beq_iff_eq, subSize_eq h.buf_le]
  constructor
  · intro he
    exact List.length_eq_zero_iff.mp (by omega)
  · rintro rfl
    simpa using hfree

/-- Moving the tail from `end` to `buf` does not change the contents. -/
theorem RingRep.wrapTail {mem : Mem} {r : KRingBuf} {c : List UInt8} (h : RingRep mem r c) :
    RingRep mem (wrapTail r) c := by
  unfold Model.wrapTail
  split
  · rename_i ht
    obtain ⟨h1, h2, h3, h4, h5, h6, h7, h8, h9⟩ := h
    exact ⟨h1, h2, h3, h4, le_rfl, h1, h7, by dsimp only; omega, h9⟩
  · exact h

/-- After the wrap the tail is strictly before `end`, unless the buffer has length
zero. -/
theorem wrapTail_lt {mem : Mem} {r : KRingBuf} {c : List UInt8} (h : RingRep mem r c)
    (hpos : r.buf < r.bufEnd) : (wrapTail r).tail < (wrapTail r).bufEnd := by
  have := h.tail_le
  unfold Model.wrapTail
  split
  · exact hpos
  · omega

@[simp] theorem wrapTail_buf (r : KRingBuf) : (wrapTail r).buf = r.buf := by
  unfold Model.wrapTail; split <;> rfl

@[simp] theorem wrapTail_bufEnd (r : KRingBuf) : (wrapTail r).bufEnd = r.bufEnd := by
  unfold Model.wrapTail; split <;> rfl

@[simp] theorem wrapTail_freesize (r : KRingBuf) : (wrapTail r).freesize = r.freesize := by
  unfold Model.wrapTail; split <;> rfl

@[simp] theorem wrapTail_type (r : KRingBuf) : (wrapTail r).type = r.type := by
  unfold Model.wrapTail; split <;> rfl

@[simp] theorem wrapTail_blkSize (r : KRingBuf) : (wrapTail r).blkSize = r.blkSize := by
  unfold Model.wrapTail; split <;> rfl

/-- Moving the head from `end` to `buf` does not change the contents of a
non-empty buffer. -/
theorem RingRep.wrapHead {mem : Mem} {r : KRingBuf} {c : List UInt8} (h : RingRep mem r c)
    (hc : 0 < c.length) : RingRep mem (wrapHead r) c := by
  unfold Model.wrapHead
  split
  · rename_i hh
    obtain ⟨h1, h2, h3, h4, h5, h6, h7, h8, h9⟩ := h
    refine ⟨h1, h2, le_rfl, h1, h5, h6, h7, by dsimp only; omega, ?_⟩
    intro i hi
    have haddr : circAddr r.buf r.bufEnd r.buf i = circAddr r.buf r.bufEnd r.head i := by
      unfold circAddr
      split <;> split <;> omega
    rw [haddr]
    exact h9 i hi
  · exact h

/-- A wrapped head is within the buffer. -/
theorem wrapHead_lt {mem : Mem} {r : KRingBuf} {c : List UInt8} (h : RingRep mem r c)
    (hpos : r.buf < r.bufEnd) : (wrapHead r).head < (wrapHead r).bufEnd := by
  have := h.head_le
  unfold Model.wrapHead
  split
  · exact hpos
  · omega

@[simp] theorem wrapHead_buf (r : KRingBuf) : (wrapHead r).buf = r.buf := by
  unfold Model.wrapHead; split <;> rfl

@[simp] theorem wrapHead_bufEnd (r : KRingBuf) : (wrapHead r).bufEnd = r.bufEnd := by
  unfold Model.wrapHead; split <;> rfl

@[simp] theorem wrapHead_freesize (r : KRingBuf) : (wrapHead r).freesize = r.freesize := by
  unfold Model.wrapHead; split <;> rfl

@[simp] theorem wrapHead_type (r : KRingBuf) : (wrapHead r).type = r.type := by
  unfold Model.wrapHead; split <;> rfl

@[simp] theorem wrapHead_blkSize (r : KRingBuf) : (wrapHead r).blkSize = r.blkSize := by
  unfold Model.wrapHead; split <;> rfl

/-- **a copy to the tail appends**, provided it fits the free space and does not
run over `end`. -/
theorem RingRep.put {mem : Mem} {r : KRingBuf} {c : List UInt8} (h : RingRep mem r c)
    (bs : List UInt8) (hfree : bs.length ≤ r.freesize) (hend : r.tail + bs.length ≤ r.bufEnd) :
    RingRep (putChunk r mem bs).2 (putChunk r mem bs).1 (c ++ bs) := by
  obtain ⟨h1, h2, h3, h4, h5, h6, h7, h8, h9⟩ := h
  have hsub : subSize r.freesize bs.length = r.freesize - bs.length :=
    subSize_eq hfree
  refine ⟨h1, h2, h3, h4, ?_, hend, ?_, ?_, ?_⟩
  · simp only [putChunk]; omega
  · simp only [putChunk, hsub, List.length_append]; omega
  · simp only [putChunk, List.length_append]; omega
  · intro i hi
    simp only [putChunk]
    simp only [List.length_append] at hi
    by_cases hic : i < c.length
    · -- an old byte: its address is outside the written range
      rw [List.getD_append _ _ _ _ hic, ← h9 i hic]
      apply writeBytes_outside
      unfold circAddr
      split <;> omega
    · have haddr : circAddr r.buf r.bufEnd r.head i = r.tail + (i - c.length) := by
        unfold circAddr
        split <;> omega
      rw [haddr, writeBytes_inside _ _ _ _ (by omega) (by omega), Nat.add_sub_cancel_left,
        List.getD_append_right _ _ _ _ (by omega)]

/-- **a copy from the head removes the front**, provided it does not run over
`end`. -/
theorem RingRep.get {mem : Mem} {r : KRingBuf} {a c : List UInt8} (h : RingRep mem r (a ++ c))
    (hend : r.head + a.length ≤ r.bufEnd) :
    (getChunk r mem a.length).1 = a ∧ RingRep mem (getChunk r mem a.length).2 c := by
  obtain ⟨h1, h2, h3, h4, h5, h6, h7, h8, h9⟩ := h
  simp only [List.length_append] at h7 h8 h9
  have hadd : addSize r.freesize a.length = r.freesize + a.length := addSize_eq (by omega)
  refine ⟨?_, ⟨h1, h2, ?_, hend, h5, h6, ?_, ?_, ?_⟩⟩
  · apply readBytes_eq_of_getD 0
    intro i hi
    have haddr : circAddr r.buf r.bufEnd r.head i = r.head + i := by
      unfold circAddr
      split <;> omega
    have := h9 i (by omega)
    rwa [haddr, List.getD_append _ _ _ _ hi] at this
  · simp only [getChunk]; omega
  · simp only [getChunk, hadd]; omega
  · simp only [getChunk]; omega
  · intro i hi
    have := h9 (a.length + i) (by omega)
    rw [List.getD_append_right _ _ _ _ (by omega), Nat.add_sub_cancel_left] at this
    simpa [getChunk, circAddr, Nat.add_assoc] using this

/-! ## The copies of `ringbuf_push` -/

/-- The split test of `ringbuf_push` puts the whole of `bs` into the buffer.
SRCLINE: k_ringbuf.c:56-96 -/
theorem ringbufPut_rep {mem : Mem} {r : KRingBuf} {c : List UInt8} (h : RingRep mem r c)
    (bs : List UInt8) (hpos : 0 < bs.length) (hfree : bs.length ≤ r.freesize) :
    RingRep (ringbufPut r mem bs).2 (ringbufPut r mem bs).1 (c ++ bs) := by
  have hw := h.wrapTail
  have hlen : r.buf < r.bufEnd := by
    have := h.free
    omega
  have htl := wrapTail_lt h hlen
  have hfree' : bs.length ≤ (wrapTail r).freesize := by simpa using hfree
  unfold ringbufPut
  generalize Model.wrapTail r = w at hw htl hfree' ⊢
  have hsplit : subSize w.bufEnd w.tail = w.bufEnd - w.tail :=
    subSize_eq hw.tail_le
  dsimp only
  rw [hsplit]
  split
  · rename_i hcond
    -- first piece up to `end`, the tail goes back to `buf`, then the rest
    have htake : (bs.take (w.bufEnd - w.tail)).length = w.bufEnd - w.tail := by
      rw [List.length_take]; omega
    have hp₁ := hw.put (bs.take (w.bufEnd - w.tail)) (by omega) (by omega)
    have hp₂ := hp₁.wrapTail
    have htail : (putChunk w mem (bs.take (w.bufEnd - w.tail))).1.tail = w.bufEnd := by
      simp only [putChunk, htake]; omega
    have hwrap : Model.wrapTail (putChunk w mem (bs.take (w.bufEnd - w.tail))).1 =
        { (putChunk w mem (bs.take (w.bufEnd - w.tail))).1 with tail := w.buf } := by
      exact if_pos htail
    rw [hwrap] at hp₂
    have hfree₁ : (putChunk w mem (bs.take (w.bufEnd - w.tail))).1.freesize =
        w.freesize - (w.bufEnd - w.tail) := by
      simp only [putChunk, htake]
      exact subSize_eq (by omega)
    have hfreew := hw.free
    have hp₃ := hp₂.put (bs.drop (w.bufEnd - w.tail))
      (by simp only [hfree₁, List.length_drop]; omega)
      (by simp only [List.length_drop, putChunk]; omega)
    rwa [List.append_assoc, List.take_append_drop] at hp₃
  · rename_i hcond
    have hte := hw.tail_eq
    have hfr := hw.free
    have hhl := hw.head_le
    exact hw.put bs hfree' (by omega)

@[simp] theorem ringbufPut_buf (r : KRingBuf) (mem : Mem) (bs : List UInt8) :
    (ringbufPut r mem bs).1.buf = r.buf := by
  simp only [ringbufPut, putChunk]; split <;> simp

@[simp] theorem ringbufPut_bufEnd (r : KRingBuf) (mem : Mem) (bs : List UInt8) :
    (ringbufPut r mem bs).1.bufEnd = r.bufEnd := by
  simp only [ringbufPut, putChunk]; split <;> simp

@[simp] theorem ringbufPut_type (r : KRingBuf) (mem : Mem) (bs : List UInt8) :
    (ringbufPut r mem bs).1.type = r.type := by
  simp only [ringbufPut, putChunk]; split <;> simp

@[simp] theorem ringbufPut_blkSize (r : KRingBuf) (mem : Mem) (bs : List UInt8) :
    (ringbufPut r mem bs).1.blkSize = r.blkSize := by
  simp only [ringbufPut, putChunk]; split <;> simp

/-! ## The copies of `ringbuf_pop` -/

/-- The two-piece copy from the head: `n` bytes up to `end`, the rest from `buf`. -/
theorem RingRep.getSplit {mem : Mem} {r : KRingBuf} {a c : List UInt8}
    (h : RingRep mem r (a ++ c)) (hlt : r.bufEnd - r.head < a.length) :
    (getChunk r mem (r.bufEnd - r.head)).1 ++
        (getChunk { (getChunk r mem (r.bufEnd - r.head)).2 with head := r.buf } mem
          (a.length - (r.bufEnd - r.head))).1 = a ∧
      RingRep mem (getChunk { (getChunk r mem (r.bufEnd - r.head)).2 with head := r.buf } mem
          (a.length - (r.bufEnd - r.head))).2 c := by
  have hhead := h.head_le
  have htake : (a.take (r.bufEnd - r.head)).length = r.bufEnd - r.head := by
    rw [List.length_take]; omega
  have hdrop : (a.drop (r.bufEnd - r.head)).length = a.length - (r.bufEnd - r.head) :=
    List.length_drop
  have h₁ : RingRep mem r (a.take (r.bufEnd - r.head) ++ (a.drop (r.bufEnd - r.head) ++ c)) := by
    rwa [← List.append_assoc, List.take_append_drop]
  have hg₁ := h₁.get (by omega)
  rw [htake] at hg₁
  have hw := hg₁.2.wrapHead (by rw [List.length_append]; omega)
  have hwrap : Model.wrapHead (getChunk r mem (r.bufEnd - r.head)).2 =
      { (getChunk r mem (r.bufEnd - r.head)).2 with head := r.buf } := by
    rw [Model.wrapHead, if_pos (by simp only [getChunk]; omega)]
    rfl
  rw [hwrap] at hw
  have hfree := h.free
  rw [List.length_append] at hfree
  have hg₂ := hw.get (by simp only [getChunk]; omega)
  rw [hdrop] at hg₂
  exact ⟨by rw [hg₁.1, hg₂.1, List.take_append_drop], hg₂.2⟩

/-- `ringbuf_pop` reads the four bytes at the front as the length word.
SRCLINE: k_ringbuf.c:130-153 -/
theorem popLen_rep {mem : Mem} {r : KRingBuf} {a c : List UInt8} (h : RingRep mem r (a ++ c))
    (ha : a.length = ringBufLen) :
    (popLen r mem).1 = a ∧ RingRep mem (popLen r mem).2 c := by
  have hlen := h.free
  rw [List.length_append, ha] at hlen
  have hpos : ringBufLen = 4 := rfl
  have hw := h.wrapHead (by rw [List.length_append, ha]; omega)
  have hhl := wrapHead_lt h (by omega)
  unfold popLen
  generalize Model.wrapHead r = w at hw hhl ⊢
  have hsplit : subSize w.bufEnd w.head = w.bufEnd - w.head :=
    subSize_eq hw.head_le
  dsimp only
  rw [hsplit, ← ha]
  split
  · rename_i hcond
    exact hw.getSplit hcond.1
  · rename_i hcond
    exact hw.get (by omega)

/-- `ringbuf_pop` reads the payload at the front. The test `head > tail` replaces
the missing `split_len > 0`; it is right because the length word before the payload has left
at least one byte free.
SRCLINE: k_ringbuf.c:156-171 -/
theorem popData_rep {mem : Mem} {r : KRingBuf} {a c : List UInt8} (h : RingRep mem r (a ++ c))
    (ha : 0 < a.length) (hfree : 0 < r.freesize) :
    (popData r mem a.length).1 = a ∧ RingRep mem (popData r mem a.length).2 c := by
  have hlen := h.free
  rw [List.length_append] at hlen
  have hw := h.wrapHead (by rw [List.length_append]; omega)
  have hhl := wrapHead_lt h (by omega)
  have hfree' : 0 < (Model.wrapHead r).freesize := by simpa using hfree
  unfold popData
  generalize Model.wrapHead r = w at hw hhl hfree' ⊢
  have hsplit : subSize w.bufEnd w.head = w.bufEnd - w.head :=
    subSize_eq hw.head_le
  dsimp only
  rw [hsplit]
  split
  · rename_i hcond
    exact hw.getSplit hcond.2
  · rename_i hcond
    have hte := hw.tail_eq
    have hfr := hw.free
    have htl := hw.tail_le
    rw [List.length_append] at hte hfr
    exact hw.get (by omega)

@[simp] theorem popLen_buf (r : KRingBuf) (mem : Mem) : (popLen r mem).2.buf = r.buf := by
  simp only [popLen, getChunk]; split <;> simp

@[simp] theorem popLen_bufEnd (r : KRingBuf) (mem : Mem) :
    (popLen r mem).2.bufEnd = r.bufEnd := by
  simp only [popLen, getChunk]; split <;> simp

@[simp] theorem popLen_type (r : KRingBuf) (mem : Mem) : (popLen r mem).2.type = r.type := by
  simp only [popLen, getChunk]; split <;> simp

@[simp] theorem popLen_blkSize (r : KRingBuf) (mem : Mem) :
    (popLen r mem).2.blkSize = r.blkSize := by
  simp only [popLen, getChunk]; split <;> simp

@[simp] theorem popData_buf (r : KRingBuf) (mem : Mem) (n : ℕ) :
    (popData r mem n).2.buf = r.buf := by
  simp only [popData, getChunk]; split <;> simp

@[simp] theorem popData_bufEnd (r : KRingBuf) (mem : Mem) (n : ℕ) :
    (popData r mem n).2.bufEnd = r.bufEnd := by
  simp only [popData, getChunk]; split <;> simp

@[simp] theorem popData_type (r : KRingBuf) (mem : Mem) (n : ℕ) :
    (popData r mem n).2.type = r.type := by
  simp only [popData, getChunk]; split <;> simp

@[simp] theorem popData_blkSize (r : KRingBuf) (mem : Mem) (n : ℕ) :
    (popData r mem n).2.blkSize = r.blkSize := by
  simp only [popData, getChunk]; split <;> simp

/-! ## The specification: a bounded queue of messages -/

/-- The message a push stores: the `len` bytes at `data` in a dynamic buffer, the
`blkSize` bytes at `data` in a fixed one, whatever `len` is. -/
def ringMsg (type : RingBufType) (blkSize : ℕ) (data : Mem) (len : ℕ) : List UInt8 :=
  match type with
  | .fix => readBytes data 0 blkSize
  | .dyn => readBytes data 0 len

/-- The encoded size of a message. -/
def encSize (type : RingBufType) (m : List UInt8) : ℕ :=
  match type with
  | .fix => m.length
  | .dyn => ringBufLen + m.length

/-- The space a queue of messages takes. -/
def usedSize (type : RingBufType) (q : List (List UInt8)) : ℕ := (q.map (encSize type)).sum

/-- A call on the ring buffer. -/
inductive RingOp
  | push (data : Mem) (len : ℕ)
  | pop
  | reset

/-- What a call returns. -/
inductive RingOut
  | pushed (stat : KStat)
  | popped (stat : KStat) (msg : Option (List UInt8 × ℕ))
  | reset
  deriving DecidableEq, Repr

/-- One call on the code's buffer. -/
def ringStep (s : KRingBuf × Mem) : RingOp → RingOut × (KRingBuf × Mem)
  | .push data len =>
    let (stat, s) := ringbufPush s.1 s.2 data len
    (.pushed stat, s)
  | .pop =>
    let (stat, msg, r) := ringbufPop s.1 s.2
    (.popped stat msg, (r, s.2))
  | .reset => (.reset, (ringbufReset s.1, s.2))

/-- One call on the abstract queue of capacity `cap`. -/
def fifoStep (cap : ℕ) (type : RingBufType) (blkSize : ℕ) (q : List (List UInt8)) :
    RingOp → RingOut × List (List UInt8)
  | .push data len =>
    let m := ringMsg type blkSize data len
    if cap < usedSize type q + encSize type m then (.pushed .ringbufFull, q)
    else (.pushed .success, q ++ [m])
  | .pop =>
    match q with
    | [] => (.popped .ringbufEmpty none, [])
    | m :: q => (.popped .success (some (m, m.length)), q)
  | .reset => (.reset, [])

/-! ## The refinement -/

/-- The bytes of one queued message. -/
def encMsg (type : RingBufType) (m : List UInt8) : List UInt8 :=
  match type with
  | .fix => m
  | .dyn => leBytes ringBufLen m.length ++ m

/-- A message in the buffer has the length that is counted. -/
theorem length_encMsg (type : RingBufType) (m : List UInt8) :
    (encMsg type m).length = encSize type m := by
  cases type <;> simp [encMsg, encSize]

/-- So have all messages. -/
theorem length_flatMap_encMsg (type : RingBufType) (q : List (List UInt8)) :
    (q.flatMap (encMsg type)).length = usedSize type q := by
  simp [usedSize, List.length_flatMap, length_encMsg]

/-- The buffer `s` represents the queue `q`. In a fixed buffer both pointers rest on block
boundaries, so that a block is never cut. -/
structure QueueRep (buf len : ℕ) (type : RingBufType) (blkSize : ℕ) (s : KRingBuf × Mem)
    (q : List (List UInt8)) : Prop where
  rep : RingRep s.2 s.1 (q.flatMap (encMsg type))
  buf_eq : s.1.buf = buf
  end_eq : s.1.bufEnd = buf + len
  type_eq : s.1.type = type
  blkSize_eq : s.1.blkSize = blkSize
  fits : len + ringbufStructSize ≤ sizeRange
  aligned : type = .fix → blkSize ∣ len ∧ blkSize ∣ s.1.tail - buf ∧ blkSize ∣ s.1.head - buf
  msgs : ∀ m ∈ q, 0 < m.length ∧ m.length < sizeRange ∧ (type = .fix → m.length = blkSize)

section Refinement

variable {buf len : ℕ} {type : RingBufType} {blkSize : ℕ} {s : KRingBuf × Mem}
  {q : List (List UInt8)}

/-- The free space is the capacity less the encoded size of the queue. -/
theorem QueueRep.freesize_add (h : QueueRep buf len type blkSize s q) :
    s.1.freesize + usedSize type q = len := by
  have := h.rep.free
  rw [length_flatMap_encMsg, h.buf_eq, h.end_eq] at this
  omega

/-- The emptiness test is right.
SRCLINE: k_ringbuf.c:192-199 -/
theorem QueueRep.isEmpty_iff (h : QueueRep buf len type blkSize s q) :
    ringbufIsEmpty s.1 = true ↔ q = [] := by
  rw [h.rep.isEmpty_iff]
  constructor
  · intro hnil
    cases q with
    | nil => rfl
    | cons m q =>
      have hm := (h.msgs m (by simp)).1
      have hlen := congrArg List.length hnil
      rw [length_flatMap_encMsg] at hlen
      have henc : 0 < encSize type m := by
        cases type <;> simp only [encSize] <;> omega
      simp only [usedSize, List.map_cons, List.sum_cons, List.length_nil] at hlen
      omega
  · rintro rfl
    rfl

/-- A block boundary strictly before the end leaves room for a block. -/
theorem add_le_of_dvd_of_lt {b t l : ℕ} (ht : b ∣ t) (hl : b ∣ l) (h : t < l) : t + b ≤ l := by
  have := Nat.le_of_dvd (by omega) (Nat.dvd_sub hl ht)
  omega

/-- **push on a fixed buffer** appends the block at `data`.
SRCLINE: k_ringbuf.c:29-41 -/
theorem QueueRep.push_fix (h : QueueRep buf len .fix blkSize s q) (data : Mem) (l : ℕ)
    (hlen : 0 < len) :
    (ringStep s (.push data l)).1 = (fifoStep len .fix blkSize q (.push data l)).1 ∧
      QueueRep buf len .fix blkSize (ringStep s (.push data l)).2
        (fifoStep len .fix blkSize q (.push data l)).2 := by
  obtain ⟨hdvd, htail, hhead⟩ := h.aligned rfl
  have hblk : 0 < blkSize := Nat.pos_of_dvd_of_pos hdvd hlen
  have hused := h.freesize_add
  have hfits := h.fits
  have hsize : encSize .fix (ringMsg .fix blkSize data l) = blkSize := by
    simp [encSize, ringMsg]
  simp only [ringStep, ringbufPush, fifoStep, h.type_eq, h.blkSize_eq, hsize]
  by_cases hfull : s.1.freesize < blkSize
  · rw [if_pos hfull, if_pos (by omega)]
    exact ⟨rfl, h⟩
  · rw [if_neg hfull, if_neg (by omega)]
    refine ⟨rfl, ?_⟩
    -- the wrapped tail is a block boundary before the end
    have hw := h.rep.wrapTail
    have htl := wrapTail_lt h.rep (by rw [h.buf_eq, h.end_eq]; omega)
    have htge := hw.tail_ge
    have hwt : blkSize ∣ (wrapTail s.1).tail - buf := by
      unfold Model.wrapTail
      split
      · simp [h.buf_eq]
      · exact htail
    have hwh : (wrapTail s.1).head = s.1.head := by
      unfold Model.wrapTail; split <;> rfl
    rw [wrapTail_bufEnd, h.end_eq] at htl
    rw [wrapTail_buf, h.buf_eq] at htge
    have hroom := add_le_of_dvd_of_lt hwt hdvd (by omega)
    have hput := hw.put (readBytes data 0 blkSize) (by simp; omega)
      (by simp [h.end_eq]; omega)
    refine ⟨?_, ?_, ?_, ?_, ?_, hfits, ?_, ?_⟩
    · simpa [List.flatMap_append, encMsg, ringMsg] using hput
    · simp [putChunk, h.buf_eq]
    · simp [putChunk, h.end_eq]
    · simp [putChunk, h.type_eq]
    · simp [putChunk, h.blkSize_eq]
    · intro _
      refine ⟨hdvd, ?_, ?_⟩
      · simp only [putChunk, length_readBytes]
        rw [show (wrapTail s.1).tail + blkSize - buf = (wrapTail s.1).tail - buf + blkSize by omega]
        exact Nat.dvd_add hwt (dvd_refl _)
      · simpa [putChunk, hwh] using hhead
    · intro m hm
      rcases List.mem_append.mp hm with hm | hm
      · exact h.msgs m hm
      · rw [List.mem_singleton.mp hm]
        have : blkSize ≤ len := Nat.le_of_dvd hlen hdvd
        have : ringbufStructSize = 28 := rfl
        refine ⟨?_, ?_, ?_⟩ <;> simp [ringMsg] <;> omega

/-- **push on a dynamic buffer** appends the length word and the payload.
SRCLINE: k_ringbuf.c:43-96 -/
theorem QueueRep.push_dyn (h : QueueRep buf len .dyn blkSize s q) (data : Mem) (l : ℕ)
    (hl : 1 ≤ l) (hfit : l + ringbufStructSize ≤ sizeRange) :
    (ringStep s (.push data l)).1 = (fifoStep len .dyn blkSize q (.push data l)).1 ∧
      QueueRep buf len .dyn blkSize (ringStep s (.push data l)).2
        (fifoStep len .dyn blkSize q (.push data l)).2 := by
  have hused := h.freesize_add
  have hfits := h.fits
  have hs28 : ringbufStructSize = 28 := rfl
  have hr4 : ringBufLen = 4 := rfl
  have hadd : addSize ringBufLen l = ringBufLen + l := addSize_eq (by omega)
  have hsize : encSize .dyn (ringMsg .dyn blkSize data l) = ringBufLen + l := by
    simp [encSize, ringMsg]
  simp only [ringStep, ringbufPush, fifoStep, h.type_eq, hsize, hadd]
  rw [if_neg (by omega)]
  by_cases hfull : s.1.freesize < ringBufLen + l
  · rw [if_pos hfull, if_pos (by omega)]
    exact ⟨rfl, h⟩
  · rw [if_neg hfull, if_neg (by omega)]
    refine ⟨rfl, ?_⟩
    have hp₁ := ringbufPut_rep h.rep (leBytes ringBufLen l) (by simp [hr4])
      (by simp; omega)
    have hfree₁ := hp₁.free
    have hfree₀ := h.rep.free
    rw [List.length_append, length_leBytes, ringbufPut_buf, ringbufPut_bufEnd] at hfree₁
    have hp₂ := ringbufPut_rep hp₁ (readBytes data 0 l) (by simp; omega) (by simp; omega)
    refine ⟨?_, by simp [h.buf_eq], by simp [h.end_eq], by simp [h.type_eq],
      by simp [h.blkSize_eq], hfits, by simp, ?_⟩
    · simpa [List.flatMap_append, encMsg, ringMsg] using hp₂
    · intro m hm
      rcases List.mem_append.mp hm with hm | hm
      · exact h.msgs m hm
      · rw [List.mem_singleton.mp hm]
        refine ⟨?_, ?_, ?_⟩ <;> simp [ringMsg] <;> omega

/-- **pop on a fixed buffer** returns the oldest block.
SRCLINE: k_ringbuf.c:110-127 -/
theorem QueueRep.pop_fix (h : QueueRep buf len .fix blkSize s q) :
    (ringStep s .pop).1 = (fifoStep len .fix blkSize q .pop).1 ∧
      QueueRep buf len .fix blkSize (ringStep s .pop).2 (fifoStep len .fix blkSize q .pop).2 := by
  have hempty := h.isEmpty_iff
  cases q with
  | nil =>
    have he : ringbufIsEmpty s.1 = true := hempty.mpr rfl
    simp only [ringStep, ringbufPop, he, if_true, fifoStep]
    exact ⟨trivial, h⟩
  | cons m q =>
    have he : ringbufIsEmpty s.1 = false := by
      rw [Bool.eq_false_iff]; intro hc; exact absurd (hempty.mp hc) (by simp)
    obtain ⟨hdvd, htail, hhead⟩ := h.aligned rfl
    obtain ⟨hm, -, hmb⟩ := h.msgs m (by simp)
    have hmb := hmb rfl
    have hrep : RingRep s.2 s.1 (m ++ q.flatMap (encMsg .fix)) := by
      simpa [encMsg] using h.rep
    have hfree := hrep.free
    rw [List.length_append, h.buf_eq, h.end_eq] at hfree
    have hw := hrep.wrapHead (by simp; omega)
    have hhl := wrapHead_lt hrep (by rw [h.buf_eq, h.end_eq]; omega)
    have hhge := hw.head_ge
    have hwh : blkSize ∣ (wrapHead s.1).head - buf := by
      unfold Model.wrapHead
      split
      · simp [h.buf_eq]
      · exact hhead
    have hwt : (wrapHead s.1).tail = s.1.tail := by
      unfold Model.wrapHead; split <;> rfl
    rw [wrapHead_bufEnd, h.end_eq] at hhl
    rw [wrapHead_buf, h.buf_eq] at hhge
    have hroom := add_le_of_dvd_of_lt hwh hdvd (by omega)
    have hget := hw.get (by simp [h.end_eq, hmb]; omega)
    rw [hmb] at hget
    simp only [ringStep, ringbufPop, he, Bool.false_eq_true, if_false, h.type_eq, h.blkSize_eq,
      fifoStep, hget.1]
    have hbs : (getChunk (wrapHead s.1) s.2 blkSize).2.blkSize = blkSize := by
      simp [getChunk, h.blkSize_eq]
    refine ⟨by rw [hbs, hmb], hget.2, ?_, ?_, ?_, hbs, h.fits, ?_, ?_⟩
    · simp [getChunk, h.buf_eq]
    · simp [getChunk, h.end_eq]
    · simp [getChunk, h.type_eq]
    · intro _
      refine ⟨hdvd, by simpa [getChunk, hwt] using htail, ?_⟩
      simp only [getChunk]
      rw [show (wrapHead s.1).head + blkSize - buf = (wrapHead s.1).head - buf + blkSize by omega]
      exact Nat.dvd_add hwh (dvd_refl _)
    · intro m' hm'
      exact h.msgs m' (List.mem_cons_of_mem _ hm')

/-- **pop on a dynamic buffer** returns the oldest message and its length.
SRCLINE: k_ringbuf.c:130-173 -/
theorem QueueRep.pop_dyn (h : QueueRep buf len .dyn blkSize s q) :
    (ringStep s .pop).1 = (fifoStep len .dyn blkSize q .pop).1 ∧
      QueueRep buf len .dyn blkSize (ringStep s .pop).2 (fifoStep len .dyn blkSize q .pop).2 := by
  have hempty := h.isEmpty_iff
  cases q with
  | nil =>
    have he : ringbufIsEmpty s.1 = true := hempty.mpr rfl
    simp only [ringStep, ringbufPop, he, if_true, fifoStep]
    exact ⟨trivial, h⟩
  | cons m q =>
    have he : ringbufIsEmpty s.1 = false := by
      rw [Bool.eq_false_iff]; intro hc; exact absurd (hempty.mp hc) (by simp)
    obtain ⟨hm, hml, -⟩ := h.msgs m (by simp)
    have hrep : RingRep s.2 s.1
        (leBytes ringBufLen m.length ++ (m ++ q.flatMap (encMsg .dyn))) := by
      simpa [encMsg] using h.rep
    obtain ⟨hlen, hrep₁⟩ := popLen_rep hrep (by simp)
    have hval : leVal (leBytes ringBufLen m.length) = m.length :=
      leVal_leBytes (by rw [sizeRange_eq] at hml; simpa [ringBufLen] using hml)
    have hfree₀ := hrep.free
    have hfree₁ := hrep₁.free
    simp only [List.length_append, length_leBytes, popLen_buf, popLen_bufEnd] at hfree₀ hfree₁
    have hr4 : ringBufLen = 4 := rfl
    obtain ⟨hdata, hrep₂⟩ := popData_rep hrep₁ hm (by omega)
    simp only [ringStep, ringbufPop, he, Bool.false_eq_true, if_false, h.type_eq, hlen, hval,
      fifoStep, hdata]
    refine ⟨trivial, hrep₂, by simp [h.buf_eq], by simp [h.end_eq], by simp [h.type_eq],
      by simp [h.blkSize_eq], h.fits, by simp, ?_⟩
    intro m' hm'
    exact h.msgs m' (List.mem_cons_of_mem _ hm')

/-- Reset empties the queue.
SRCLINE: k_ringbuf.c:202-209 -/
theorem QueueRep.reset (h : QueueRep buf len type blkSize s q) :
    QueueRep buf len type blkSize (ringbufReset s.1, s.2) [] where
  rep := RingRep.reset h.rep.buf_le h.rep.end_lt
  buf_eq := h.buf_eq
  end_eq := h.end_eq
  type_eq := h.type_eq
  blkSize_eq := h.blkSize_eq
  fits := h.fits
  aligned := by
    intro ht
    exact ⟨(h.aligned ht).1, by simp [ringbufReset, h.buf_eq], by simp [ringbufReset, h.buf_eq]⟩
  msgs := by simp

/-- A call whose push length is in the range of the buffer. -/
def RingOp.Valid (len : ℕ) : RingOp → Prop
  | .push _ l => 1 ≤ l ∧ l ≤ len
  | .pop => True
  | .reset => True

/-- **one step**: the code and the queue return the same and stay related. -/
theorem QueueRep.step (h : QueueRep buf len type blkSize s q) (op : RingOp)
    (hop : op.Valid len) :
    (ringStep s op).1 = (fifoStep len type blkSize q op).1 ∧
      QueueRep buf len type blkSize (ringStep s op).2 (fifoStep len type blkSize q op).2 := by
  have hfits := h.fits
  cases op with
  | push data l =>
    obtain ⟨h1, h2⟩ := hop
    cases type with
    | fix => exact h.push_fix data l (by omega)
    | dyn => exact h.push_dyn data l h1 (by omega)
  | pop =>
    cases type with
    | fix => exact h.pop_fix
    | dyn => exact h.pop_dyn
  | reset => exact ⟨rfl, h.reset⟩

/-- **a whole run** returns what the queue returns. -/
theorem QueueRep.run (h : QueueRep buf len type blkSize s q) (ops : List RingOp)
    (hops : ∀ op ∈ ops, op.Valid len) :
    (runCalls ringStep s ops).1 = (runCalls (fifoStep len type blkSize) q ops).1 ∧
      QueueRep buf len type blkSize (runCalls ringStep s ops).2
        (runCalls (fifoStep len type blkSize) q ops).2 :=
  runCalls_sim (R := QueueRep buf len type blkSize) (V := RingOp.Valid len)
    (fun _ _ op hr hop => hr.step op hop) h hops

end Refinement

/-- A freshly initialised buffer represents the empty queue.
SRCLINE: k_ringbuf.c:9-21 -/
theorem queueRep_init (buf len : ℕ) (type : RingBufType) (blkSize : ℕ) (mem : Mem)
    (hend : buf + len < sizeRange) (hfit : len + ringbufStructSize ≤ sizeRange)
    (hblk : type = .fix → blkSize ∣ len) :
    QueueRep buf len type blkSize (ringbufInit buf len type blkSize, mem) [] where
  rep := RingRep.reset (Nat.le_add_right _ _) hend
  buf_eq := rfl
  end_eq := rfl
  type_eq := rfl
  blkSize_eq := rfl
  fits := hfit
  aligned := by
    intro ht
    exact ⟨hblk ht, by simp [ringbufInit, ringbufReset], by simp [ringbufInit, ringbufReset]⟩
  msgs := by simp

/-- A refused push changes nothing.
SRCLINE: k_ringbuf.c:31-33, 50-52 -/
theorem ringbufPush_full {r : KRingBuf} {mem data : Mem} {l : ℕ}
    (h : (ringbufPush r mem data l).1 = .ringbufFull) :
    (ringbufPush r mem data l).2 = (r, mem) := by
  cases ht : r.type with
  | fix =>
    simp only [ringbufPush, ht] at h ⊢
    split
    · rfl
    · rename_i hfree
      rw [if_neg hfree] at h
      cases h
  | dyn =>
    simp only [ringbufPush, ht] at h ⊢
    split
    · rfl
    · rename_i hlen
      rw [if_neg hlen] at h
      split
      · rfl
      · rename_i hfree
        rw [if_neg hfree] at h
        cases h

/-- A run of the code from `ringbuf_init`. -/
def ringRun (buf len : ℕ) (type : RingBufType) (blkSize : ℕ) (mem : Mem) (ops : List RingOp) :
    List RingOut × (KRingBuf × Mem) :=
  runCalls ringStep (ringbufInit buf len type blkSize, mem) ops

/-- The same run of the abstract queue. -/
def fifoRun (len : ℕ) (type : RingBufType) (blkSize : ℕ) (ops : List RingOp) :
    List RingOut × List (List UInt8) :=
  runCalls (fifoStep len type blkSize) [] ops

/-- **The ring buffer refines a bounded queue.** Every sequence of pushes, pops and resets
returns what the queue of messages of capacity `len` returns; after it the free space is the
capacity less the encoded size of the queued messages, the buffer tests empty iff nothing is
queued, head and tail lie in `[buf, end]`, and the next push is refused iff its message does
not fit in the free space, and then changes nothing. The buffer and its control block are
objects of one 32-bit address space. -/
theorem ringbuf_refines_fifo (buf len : ℕ) (type : RingBufType) (blkSize : ℕ) (mem : Mem)
    (ops : List RingOp) (hend : buf + len < sizeRange)
    (hfit : len + ringbufStructSize ≤ sizeRange) (hblk : type = .fix → blkSize ∣ len)
    (hops : ∀ op ∈ ops, op.Valid len) :
    (ringRun buf len type blkSize mem ops).1 = (fifoRun len type blkSize ops).1 ∧
      (ringRun buf len type blkSize mem ops).2.1.freesize +
        usedSize type (fifoRun len type blkSize ops).2 = len ∧
      (ringbufIsEmpty (ringRun buf len type blkSize mem ops).2.1 = true ↔
        (fifoRun len type blkSize ops).2 = []) ∧
      (buf ≤ (ringRun buf len type blkSize mem ops).2.1.head ∧
        (ringRun buf len type blkSize mem ops).2.1.head ≤ buf + len) ∧
      (buf ≤ (ringRun buf len type blkSize mem ops).2.1.tail ∧
        (ringRun buf len type blkSize mem ops).2.1.tail ≤ buf + len) ∧
      ∀ data l, 1 ≤ l → l ≤ len →
        ((ringbufPush (ringRun buf len type blkSize mem ops).2.1
            (ringRun buf len type blkSize mem ops).2.2 data l).1 = .ringbufFull ↔
          (ringRun buf len type blkSize mem ops).2.1.freesize <
            encSize type (ringMsg type blkSize data l)) ∧
        ((ringbufPush (ringRun buf len type blkSize mem ops).2.1
            (ringRun buf len type blkSize mem ops).2.2 data l).1 = .ringbufFull →
          (ringbufPush (ringRun buf len type blkSize mem ops).2.1
            (ringRun buf len type blkSize mem ops).2.2 data l).2 =
              (ringRun buf len type blkSize mem ops).2) := by
  obtain ⟨hout, hrep⟩ := (queueRep_init buf len type blkSize mem hend hfit hblk).run ops hops
  have hfree := hrep.freesize_add
  have hb := hrep.buf_eq
  have he := hrep.end_eq
  refine ⟨hout, hfree, hrep.isEmpty_iff, ⟨?_, ?_⟩, ⟨?_, ?_⟩, ?_⟩
  · exact hb.symm.le.trans hrep.rep.head_ge
  · exact hrep.rep.head_le.trans he.le
  · exact hb.symm.le.trans hrep.rep.tail_ge
  · exact hrep.rep.tail_le.trans he.le
  · intro data l h1 h2
    refine ⟨?_, ringbufPush_full⟩
    have hstep := (hrep.step (.push data l) ⟨h1, h2⟩).1
    simp only [ringStep, fifoStep] at hstep
    change (ringbufPush (runCalls ringStep (ringbufInit buf len type blkSize, mem) ops).2.1
      (runCalls ringStep (ringbufInit buf len type blkSize, mem) ops).2.2 data l).1 = _ ↔ _
    split at hstep
    · rename_i hlt
      rw [RingOut.pushed.inj hstep]
      simp only [true_iff]
      change (runCalls ringStep (ringbufInit buf len type blkSize, mem) ops).2.1.freesize < _
      omega
    · rename_i hlt
      rw [RingOut.pushed.inj hstep]
      simp only [reduceCtorEq, false_iff, not_lt]
      change _ ≤ (runCalls ringStep (ringbufInit buf len type blkSize, mem) ops).2.1.freesize
      omega

/-- The refinement at a dynamic buffer of 16 bytes whose second message is cut by the end. -/
theorem ringbuf_refines_fifo_cut :
    (ringRun 64 16 .dyn 1 (fun _ => 0) [.push (fun _ => 7) 5, .pop, .push (fun _ => 9) 6, .pop]).1 =
      (fifoRun 16 .dyn 1 [.push (fun _ => 7) 5, .pop, .push (fun _ => 9) 6, .pop]).1 :=
  (ringbuf_refines_fifo 64 16 .dyn 1 (fun _ => 0)
    [.push (fun _ => 7) 5, .pop, .push (fun _ => 9) 6, .pop]
    (by rw [sizeRange_eq]; norm_num) (by rw [sizeRange_eq]; norm_num [ringbufStructSize])
    (by simp) (by simp [RingOp.Valid])).1

/-- A fixed buffer with blocks of four bytes returns a one-byte message as a block: the
popped length is four, the pushed one was one. -/
theorem ringbuf_fix_short_push :
    (ringRun 64 8 .fix 4 (fun _ => 0) [.push (fun i => if i = 0 then 65 else 0) 1, .pop]).1 =
        [.pushed .success, .popped .success (some ([65, 0, 0, 0], 4))] ∧
      (ringRun 64 8 .fix 4 (fun _ => 0) [.push (fun i => if i = 0 then 65 else 0) 1, .pop]).1 ≠
        [.pushed .success, .popped .success (some ([65], 1))] := by
  decide +kernel

end GenieSdk.Analysis
