import GenieSdk.Lib.Circular
import GenieSdk.Lib.Runs
import GenieSdk.Model.KFifo

/-!
# The byte FIFO across index wrap

The counters `in` and `out` run through the 32-bit range again and again; their difference is the
number of bytes queued, and because the size is a power of two their low bits are places in the
buffer. **Every run of calls returns what a queue of bytes of the same size returns**
(`fifo_refines_bytes`), and `free_bytes` is the size less that difference.
-/

set_option autoImplicit false

namespace GenieSdk.Analysis

open GenieSdk.Lib GenieSdk.Model

/-! ## What is claimed -/

/-- The calls. -/
inductive FifoOp
  | fifoIn (buf : Mem) (len : UInt32)
  | fifoOut (len : UInt32)
  | fifoOutPeek (len : UInt32)
  | fifoOutAll

/-- One call: the length it returns, and the bytes that go to the destination. -/
def kFifoStep (s : KFifo × Mem) : FifoOp → (ℕ × List UInt8) × (KFifo × Mem)
  | .fifoIn buf len => (((fifoIn s buf len).1.toNat, []), (fifoIn s buf len).2)
  | .fifoOut len => (((fifoOut s len).1.1.toNat, (fifoOut s len).1.2), (fifoOut s len).2)
  | .fifoOutPeek len => (((fifoOutPeek s len).1.toNat, (fifoOutPeek s len).2), s)
  | .fifoOutAll => (((fifoOutAll s).1.1.toNat, (fifoOutAll s).1.2), (fifoOutAll s).2)

/-- The same call on a queue of at most `size` bytes. -/
def byteQueueStep (size : ℕ) (q : List UInt8) : FifoOp → (ℕ × List UInt8) × List UInt8
  | .fifoIn buf len =>
    let n := min len.toNat (size - q.length)
    ((n, []), q ++ readBytes buf 0 n)
  | .fifoOut len => ((min len.toNat q.length, q.take len.toNat), q.drop len.toNat)
  | .fifoOutPeek len => ((min len.toNat q.length, q.take len.toNat), q)
  | .fifoOutAll => ((q.length, q), [])

/-! ## The representation -/

section Rep

variable {k : ℕ} {s : KFifo × Mem} {q : List UInt8}

/-- The FIFO of size `2 ^ k` holds the bytes `q`. -/
structure FifoRep (k : ℕ) (s : KFifo × Mem) (q : List UInt8) : Prop where
  mask : s.1.mask.toNat = 2 ^ k - 1
  size : s.1.size.toNat = 2 ^ k
  used : (s.1.inPos - s.1.outPos).toNat = q.length
  free : s.1.freeBytes.toNat + q.length = 2 ^ k
  bytes : ∀ i < q.length,
    circByte s.2 s.1.data (2 ^ k) (s.1.outPos.toNat % 2 ^ k) i = q.getD i 0

/-- A power of two with an exponent below 32 fits into 32 bits. -/
theorem two_pow_lt (hk : k < 32) : 2 ^ k < 2 ^ 32 := Nat.pow_lt_pow_right (by norm_num) hk

/-- The low bits of a counter that has moved on by `n`. -/
theorem toNat_add_mod (hk : k < 32) (x n : UInt32) :
    (x + n).toNat % 2 ^ k = (x.toNat % 2 ^ k + n.toNat) % 2 ^ k := by
  rw [UInt32.toNat_add, Nat.mod_mod_of_dvd _ (Nat.pow_dvd_pow 2 hk.le), Nat.mod_add_mod]

/-- Masking takes the remainder. -/
theorem toNat_and_mask (x m : UInt32) (hm : m.toNat = 2 ^ k - 1) : (x &&& m).toNat = x.toNat % 2 ^ k := by
  rw [UInt32.toNat_and, hm, Nat.and_two_pow_sub_one_eq_mod]

/-- The mask and one is the size. -/
theorem FifoRep.mask_succ (h : FifoRep k s q) (hk : k < 32) : (s.1.mask + 1).toNat = 2 ^ k := by
  have hpos := Nat.two_pow_pos k
  have hlt := two_pow_lt hk
  rw [UInt32.toNat_add, h.mask, UInt32.toNat_one]
  omega

/-- Bytes go in behind those that are queued. -/
theorem FifoRep.inPos_mod (h : FifoRep k s q) (hk : k < 32) :
    s.1.inPos.toNat % 2 ^ k = (s.1.outPos.toNat % 2 ^ k + q.length) % 2 ^ k := by
  have hin : s.1.outPos + (s.1.inPos - s.1.outPos) = s.1.inPos := by
    rw [UInt32.add_comm, UInt32.sub_add_cancel]
  rw [← hin, toNat_add_mod hk, h.used]

/-- The smaller of two numbers. -/
theorem toNat_min (x y : UInt32) : (if x > y then y else x).toNat = min x.toNat y.toNat := by
  split
  · next h => exact (Nat.min_eq_right (Nat.le_of_lt (UInt32.lt_iff_toNat_lt.1 h))).symm
  · next h => exact (Nat.min_eq_left (UInt32.le_iff_toNat_le.1 (UInt32.not_lt.1 h))).symm

/-- A difference without a wrap. -/
theorem toNat_sub_of_toNat_le {x y : UInt32} (h : y.toNat ≤ x.toNat) :
    (x - y).toNat = x.toNat - y.toNat :=
  UInt32.toNat_sub_of_le x y (UInt32.le_iff_toNat_le.2 h)

/-- The queue is at most as long as the buffer. -/
theorem FifoRep.length_le (h : FifoRep k s q) : q.length ≤ 2 ^ k := by
  have := h.free
  omega

/-- The unused space is the rest. -/
theorem FifoRep.unused (h : FifoRep k s q) (hk : k < 32) :
    (fifoUnused s.1).toNat = 2 ^ k - q.length := by
  have hmask := h.mask_succ hk
  have hused := h.used
  have hle := h.length_le
  unfold fifoUnused
  rw [toNat_sub_of_toNat_le (by omega), hmask, hused]

/-- How a copy is cut at the end of the buffer. -/
theorem FifoRep.cut (h : FifoRep k s q) (hk : k < 32) (len off : UInt32) :
    (fifoMin len (s.1.mask + 1 - (off &&& s.1.mask))).toNat =
      min len.toNat (2 ^ k - off.toNat % 2 ^ k) := by
  have hmod : off.toNat % 2 ^ k < 2 ^ k := Nat.mod_lt _ (Nat.two_pow_pos k)
  have hmask := h.mask_succ hk
  have hand := toNat_and_mask off s.1.mask h.mask
  unfold fifoMin
  rw [toNat_min, toNat_sub_of_toNat_le (by omega), hmask, hand]

/-- What is left after the smaller of two numbers is taken off. -/
theorem toNat_sub_min {x y : UInt32} {n : ℕ} (h : y.toNat = min x.toNat n) :
    (x - y).toNat = x.toNat - min x.toNat n := by
  rw [toNat_sub_of_toNat_le (by omega), h]

/-- The first bytes of a read are a shorter read. -/
theorem readBytes_take (m : Mem) (pos n l : ℕ) :
    (readBytes m pos n).take l = readBytes m pos (min n l) := by
  rw [readBytes, readBytes, ← List.map_take, List.take_range, Nat.min_comm]

/-- The others are a read further on. -/
theorem readBytes_drop (m : Mem) (n l : ℕ) :
    (readBytes m 0 n).drop l = readBytes m (min n l) (n - min n l) := by
  have hsplit : n = min n l + (n - min n l) := by omega
  conv_lhs => rw [hsplit, readBytes_add, Nat.zero_add]
  by_cases hl : l ≤ n
  · rw [Nat.min_eq_right hl, List.drop_left' (by simp)]
  · have hn : min n l = n := Nat.min_eq_left (by omega)
    rw [hn, Nat.sub_self, readBytes_zero, List.append_nil]
    exact List.drop_eq_nil_of_le (by simp; omega)

/-- `fifo_copy_in` copies around the circle. -/
theorem FifoRep.copyIn (h : FifoRep k s q) (hk : k < 32) (src : Mem) (len off : UInt32) :
    fifoCopyIn s.1 s.2 src len off =
      writeCirc s.2 s.1.data (2 ^ k) (off.toNat % 2 ^ k) (readBytes src 0 len.toNat) := by
  have hcut := h.cut hk len off
  unfold fifoCopyIn writeCirc
  dsimp only
  rw [hcut, toNat_sub_min hcut, toNat_and_mask off s.1.mask h.mask, readBytes_take, readBytes_drop]

/-- `kfifo_copy_out` copies around the circle. -/
theorem FifoRep.copyOut (h : FifoRep k s q) (hk : k < 32) (len off : UInt32) :
    kfifoCopyOut s.1 s.2 len off =
      readCirc s.2 s.1.data (2 ^ k) (off.toNat % 2 ^ k) len.toNat := by
  have hcut := h.cut hk len off
  unfold kfifoCopyOut readCirc
  dsimp only
  rw [hcut, toNat_sub_min hcut, toNat_and_mask off s.1.mask h.mask]

/-! ## The calls -/

/-- `fifo_in` appends what fits. -/
theorem FifoRep.fifoIn (h : FifoRep k s q) (hk : k < 32) (buf : Mem) (len : UInt32) :
    (fifoIn s buf len).1.toNat = min len.toNat (2 ^ k - q.length) ∧
      FifoRep k (fifoIn s buf len).2
        (q ++ readBytes buf 0 (min len.toNat (2 ^ k - q.length))) := by
  have hlt := two_pow_lt hk
  have hpos := Nat.two_pow_pos k
  have hle := h.length_le
  have hfree := h.free
  obtain ⟨n, hn⟩ : ∃ n, (if len > fifoUnused s.1 then fifoUnused s.1 else len) = n := ⟨_, rfl⟩
  have hnat : n.toNat = min len.toNat (2 ^ k - q.length) := by
    rw [← hn, toNat_min, h.unused hk]
  have hstep : Model.fifoIn s buf len = (n, { s.1 with
      inPos := s.1.inPos + n, freeBytes := s.1.freeBytes - n },
      fifoCopyIn s.1 s.2 buf n s.1.inPos) := by
    rw [← hn]
    rfl
  rw [hstep, ← hnat]
  refine ⟨rfl, h.mask, h.size, ?_, ?_, fun i hi => ?_⟩
  · have hused : s.1.inPos + n - s.1.outPos = (s.1.inPos - s.1.outPos) + n := by grind
    dsimp only
    rw [hused, UInt32.toNat_add, h.used, List.length_append, length_readBytes,
      Nat.mod_eq_of_lt (by omega)]
  · dsimp only
    rw [toNat_sub_of_toNat_le (by omega), List.length_append, length_readBytes]
    omega
  · rw [List.length_append, length_readBytes] at hi
    change circByte (fifoCopyIn s.1 s.2 buf n s.1.inPos) s.1.data _ _ i = _
    -- the place of byte `i` seen from the place where bytes go in
    have hseen : ∀ m : Mem, circByte m s.1.data (2 ^ k) (s.1.outPos.toNat % 2 ^ k) i =
        circByte m s.1.data (2 ^ k) (s.1.inPos.toNat % 2 ^ k)
          (if i < q.length then 2 ^ k - q.length + i else i - q.length) := by
      intro m
      rw [h.inPos_mod hk, circByte_add]
      split
      · rw [show q.length + (2 ^ k - q.length + i) = 2 ^ k + i by omega, circByte_wrap]
      · rw [show q.length + (i - q.length) = i by omega]
    rw [hseen, h.copyIn hk, writeCirc_apply (Nat.mod_lt _ hpos) (by rw [length_readBytes]; omega)
      (by split <;> omega)]
    by_cases hold : i < q.length
    · rw [if_pos hold, length_readBytes, if_neg (by omega), List.getD_append _ _ _ _ hold,
        ← h.bytes i hold, hseen, if_pos hold]
    · rw [if_neg hold, length_readBytes, if_pos (by omega),
        List.getD_append_right _ _ _ _ (by omega)]

/-- The bytes in front of the queue. -/
theorem FifoRep.peek (h : FifoRep k s q) (hk : k < 32) (len : UInt32) :
    (internalFifoOutPeek s len).1.toNat = min len.toNat q.length ∧
      (internalFifoOutPeek s len).2 = q.take len.toNat := by
  have hle := h.length_le
  have hpos := Nat.two_pow_pos k
  obtain ⟨n, hn⟩ : ∃ n, (if len > s.1.inPos - s.1.outPos then s.1.inPos - s.1.outPos else len) = n :=
    ⟨_, rfl⟩
  have hnat : n.toNat = min len.toNat q.length := by rw [← hn, toNat_min, h.used]
  have hpeek : internalFifoOutPeek s len = (n, kfifoCopyOut s.1 s.2 n s.1.outPos) := by
    rw [← hn]
    rfl
  rw [hpeek]
  refine ⟨hnat, ?_⟩
  rw [h.copyOut hk, readCirc_eq (Nat.mod_lt _ hpos) (by omega)]
  apply List.ext_getElem
  · simp [hnat]
  · intro i hi hi'
    have hi : i < n.toNat := by simpa using hi
    rw [List.getElem_map, List.getElem_range, h.bytes i (by omega), List.getElem_take,
      List.getD_eq_getElem _ _ (by omega)]

/-- Bytes have gone out. -/
theorem FifoRep.take (h : FifoRep k s q) (hk : k < 32) {n : UInt32} (hn : n.toNat ≤ q.length) :
    FifoRep k (fifoTake s n) (q.drop n.toNat) := by
  have hlt := two_pow_lt hk
  have hle := h.length_le
  have hfree := h.free
  refine ⟨h.mask, h.size, ?_, ?_, fun i hi => ?_⟩
  · have hused : s.1.inPos - (s.1.outPos + n) = (s.1.inPos - s.1.outPos) - n := by grind
    unfold fifoTake
    dsimp only
    rw [hused, toNat_sub_of_toNat_le (by rw [h.used]; exact hn), h.used, List.length_drop]
  · unfold fifoTake
    dsimp only
    rw [UInt32.toNat_add, Nat.mod_eq_of_lt (by omega), List.length_drop]
    omega
  · rw [List.length_drop] at hi
    unfold fifoTake
    dsimp only
    rw [toNat_add_mod hk, circByte_add, h.bytes _ (by omega), List.getD_eq_getElem?_getD,
      List.getD_eq_getElem?_getD, List.getElem?_drop]

/-- `fifo_out` takes from the front. -/
theorem FifoRep.fifoOut (h : FifoRep k s q) (hk : k < 32) (len : UInt32) :
    (fifoOut s len).1.1.toNat = min len.toNat q.length ∧
      (fifoOut s len).1.2 = q.take len.toNat ∧
      FifoRep k (fifoOut s len).2 (q.drop len.toNat) := by
  obtain ⟨hlen, hbytes⟩ := h.peek hk len
  refine ⟨hlen, hbytes, ?_⟩
  have htake := h.take hk (n := (internalFifoOutPeek s len).1) (by omega)
  have hdrop : q.drop (min len.toNat q.length) = q.drop len.toNat := by
    obtain hle | hle := Nat.le_total len.toNat q.length
    · rw [Nat.min_eq_left hle]
    · rw [Nat.min_eq_right hle, List.drop_length, List.drop_eq_nil_of_le hle]
  rw [hlen, hdrop] at htake
  exact htake

/-- `fifo_out_all` takes all. -/
theorem FifoRep.fifoOutAll (h : FifoRep k s q) (hk : k < 32) :
    (fifoOutAll s).1.1.toNat = q.length ∧ (fifoOutAll s).1.2 = q ∧
      FifoRep k (fifoOutAll s).2 [] := by
  have hfree := h.free
  have hsize := h.size
  have hlen : (s.1.size - s.1.freeBytes).toNat = q.length := by
    rw [toNat_sub_of_toNat_le (by omega)]
    omega
  unfold Model.fifoOutAll
  dsimp only
  split
  · next hzero =>
      rw [hzero] at hlen
      have hnil : q = [] := List.eq_nil_of_length_eq_zero hlen.symm
      subst hnil
      exact ⟨rfl, rfl, h⟩
  · obtain ⟨h1, h2, h3⟩ := h.fifoOut hk (s.1.size - s.1.freeBytes)
    rw [hlen, Nat.min_self] at h1
    rw [hlen, List.take_length] at h2
    rw [hlen, List.drop_length] at h3
    exact ⟨h1, h2, h3⟩

/-- One call returns what the queue of bytes returns. -/
theorem FifoRep.step (h : FifoRep k s q) (hk : k < 32) (op : FifoOp) :
    (kFifoStep s op).1 = (byteQueueStep (2 ^ k) q op).1 ∧
      FifoRep k (kFifoStep s op).2 (byteQueueStep (2 ^ k) q op).2 := by
  cases op with
  | fifoIn buf len =>
    obtain ⟨h1, h2⟩ := h.fifoIn hk buf len
    exact ⟨Prod.ext h1 rfl, h2⟩
  | fifoOut len =>
    obtain ⟨h1, h2, h3⟩ := h.fifoOut hk len
    exact ⟨Prod.ext h1 h2, h3⟩
  | fifoOutPeek len =>
    obtain ⟨h1, h2⟩ := h.peek hk len
    exact ⟨Prod.ext h1 h2, h⟩
  | fifoOutAll =>
    obtain ⟨h1, h2, h3⟩ := h.fifoOutAll hk
    exact ⟨Prod.ext h1 h2, h3⟩

/-- A new FIFO is empty. -/
theorem fifoInit_rep (fifo : KFifo) (buffer : ℕ) (mem : Mem) (hk : 1 ≤ k) (hk' : k < 32) :
    (fifoInit fifo buffer (UInt32.ofNat (2 ^ k))).1 = 0 ∧
      FifoRep k ((fifoInit fifo buffer (UInt32.ofNat (2 ^ k))).2, mem) [] := by
  have hlt := two_pow_lt hk'
  have hpow : (UInt32.ofNat (2 ^ k)).toNat = 2 ^ k := by
    rw [UInt32.toNat_ofNat', Nat.mod_eq_of_lt hlt]
  have htwo : 2 ≤ 2 ^ k := by
    calc 2 = 2 ^ 1 := rfl
      _ ≤ 2 ^ k := Nat.pow_le_pow_right (by norm_num) hk
  generalize UInt32.ofNat (2 ^ k) = size at hpow ⊢
  have hpred : (size - 1).toNat = 2 ^ k - 1 := by
    rw [toNat_sub_of_toNat_le (by rw [UInt32.toNat_one]; omega), hpow, UInt32.toNat_one]
  have hne : size ≠ 0 := by
    rintro rfl
    rw [UInt32.toNat_zero] at hpow
    omega
  have hand : size &&& (size - 1) = 0 := by
    apply UInt32.toNat_inj.1
    rw [toNat_and_mask size (size - 1) hpred, hpow, Nat.mod_self, UInt32.toNat_zero]
  have hnot : ¬ size < 2 := by
    rw [UInt32.not_lt, UInt32.le_iff_toNat_le, hpow]
    exact htwo
  have hinit : fifoInit fifo buffer size = (0, { fifo with
      inPos := 0, outPos := 0, data := buffer, mask := size - 1, freeBytes := size, size := size }) := by
    unfold fifoInit isPowerOf2
    rw [if_neg (by simp [hne, hand])]
    dsimp only
    rw [if_neg hnot]
  rw [hinit]
  refine ⟨rfl, hpred, hpow, by simp, hpow, fun i hi => ?_⟩
  simp at hi

end Rep

/-! ## Runs -/

/-- What holds of a FIFO of `2 ^ k` bytes that holds the bytes `q`. -/
structure FifoCounts (k : ℕ) (s : KFifo × Mem) (q : List UInt8) : Prop where
  used : (s.1.inPos - s.1.outPos).toNat = q.length
  free : s.1.freeBytes.toNat = 2 ^ k - (s.1.inPos - s.1.outPos).toNat
  full : q.length ≤ 2 ^ k
  peek : ∀ len, fifoOutPeek s len = (fifoOut s len).1

/-- **The byte FIFO refines a queue of bytes.** For every power of two from 2 on that the size can
be, and every run of calls, each call returns the length and the bytes that a queue of this size
returns: `fifo_in` accepts as much as is free, `fifo_out` and `fifo_out_all` return what was accepted
first, `fifo_out_peek` returns what the next `fifo_out` does. After the run `free_bytes` is the size
less `in - out`. -/
theorem fifo_refines_bytes (k : ℕ) (hk : 1 ≤ k) (hk' : k < 32) (fifo : KFifo) (buffer : ℕ) (mem : Mem)
    (ops : List FifoOp) :
    (fifoInit fifo buffer (UInt32.ofNat (2 ^ k))).1 = 0 ∧
      (runCalls kFifoStep ((fifoInit fifo buffer (UInt32.ofNat (2 ^ k))).2, mem) ops).1 =
        (runCalls (byteQueueStep (2 ^ k)) [] ops).1 ∧
      FifoCounts k
        (runCalls kFifoStep ((fifoInit fifo buffer (UInt32.ofNat (2 ^ k))).2, mem) ops).2
        (runCalls (byteQueueStep (2 ^ k)) [] ops).2 := by
  obtain ⟨hinit, hrep⟩ := fifoInit_rep fifo buffer mem hk hk'
  obtain ⟨hout, hend⟩ := runCalls_sim (R := FifoRep k) (V := fun _ => True)
    (fun _ _ op h _ => h.step hk' op) hrep (fun _ _ => trivial)
  refine ⟨hinit, hout, hend.used, ?_, hend.length_le, fun _ => rfl⟩
  have hfree := hend.free
  rw [hend.used]
  omega

/-- In a buffer of four bytes the bytes 9, 1, 2 go around the end: they are put in with two calls and taken out
with one. -/
theorem fifo_refines_bytes_cut :
    (runCalls kFifoStep ((fifoInit ⟨0, 0, 0, 0, 0, 0⟩ 16 4).2, fun _ => 0)
      [.fifoIn (fun _ => 9) 3, .fifoOut 2, .fifoIn (fun i => if i = 0 then 1 else 2) 2, .fifoOut 3]).1 =
        [(3, []), (2, [9, 9]), (2, []), (3, [9, 1, 2])] :=
  (fifo_refines_bytes 2 (by decide) (by decide) ⟨0, 0, 0, 0, 0, 0⟩ 16 (fun _ => 0)
    [.fifoIn (fun _ => 9) 3, .fifoOut 2, .fifoIn (fun i => if i = 0 then 1 else 2) 2,
      .fifoOut 3]).2.1.trans rfl

end GenieSdk.Analysis
