import GenieSdk.Model.GenieBin

/-!
# Binary frames

`genie_bin_cmds_handle` dispatches exactly the frames that `genie_bin_cmds_send` makes
(`dispatched_iff`), so **a frame comes back as it was sent and a change of one byte behind the opcode is
found** (`bin_frames_agree`).

On its way down to the MCU the length of a message is cut down to 8 bits: **the frame holds the whole
message exactly if there are less than 256 bytes of it** (`down_msg_whole_iff`).
-/

set_option autoImplicit false

namespace GenieSdk.Analysis.Bin

open GenieSdk.Model

section Bytes

variable {a b c d : UInt8} {len op : UInt16} {data : List UInt8} {cs : UInt8}

/-- A byte in the upper half of a word. -/
theorem toNat_shift8 (a : UInt8) : (a.toUInt16 <<< 8).toNat = a.toNat * 256 := by
  have ha := a.toNat_lt
  rw [UInt16.toNat_shiftLeft, UInt8.toNat_toUInt16, show UInt16.toNat 8 % 16 = 8 from rfl,
    Nat.shiftLeft_eq]
  exact Nat.mod_eq_of_lt (by omega)

/-- Two bytes of a word. -/
theorem toNat_word (a b : UInt8) :
    (a.toUInt16 <<< 8 ||| b.toUInt16).toNat = a.toNat * 256 + b.toNat := by
  have hor := Nat.shiftLeft_add_eq_or_of_lt b.toNat_lt a.toNat
  rw [Nat.shiftLeft_eq] at hor
  rw [UInt16.toNat_or, toNat_shift8, UInt8.toNat_toUInt16]
  exact hor.symm

/-- The length of a frame from its two bytes. -/
theorem toNat_len (c d : UInt8) : (d.toUInt16 + c.toUInt16 <<< 8).toNat = c.toNat * 256 + d.toNat := by
  have hc := c.toNat_lt
  have hd := d.toNat_lt
  rw [UInt16.toNat_add, toNat_shift8, UInt8.toNat_toUInt16]
  omega

/-- The high byte of a length. -/
theorem toNat_high (len : UInt16) : (len >>> 8).toUInt8.toNat = len.toNat / 256 := by
  have h := len.toNat_lt
  rw [UInt16.toNat_toUInt8, UInt16.toNat_shiftRight, show UInt16.toNat 8 % 16 = 8 from rfl,
    Nat.shiftRight_eq_div_pow]
  omega

/-- The low byte. -/
theorem toNat_low (len : UInt16) : (len &&& 0xFF).toUInt8.toNat = len.toNat % 256 := by
  have hmask : (len &&& 0xFF).toNat = len.toNat % 256 := by
    rw [UInt16.toNat_and]
    exact Nat.and_two_pow_sub_one_eq_mod len.toNat 8
  rw [UInt16.toNat_toUInt8, hmask, Nat.mod_mod]

/-- The bytes of a length make the length. -/
theorem len_bytes_iff : d.toUInt16 + c.toUInt16 <<< 8 = len ↔
    c = (len >>> 8).toUInt8 ∧ d = (len &&& 0xFF).toUInt8 := by
  have hc := c.toNat_lt
  have hd := d.toNat_lt
  rw [← UInt16.toNat_inj, ← UInt8.toNat_inj, ← UInt8.toNat_inj, toNat_len, toNat_high, toNat_low]
  omega

/-- Two bytes make the opcode if they are its bytes. -/
theorem opcode_bytes_iff : a.toUInt16 <<< 8 ||| b.toUInt16 = op ↔
    a = (op >>> 8).toUInt8 ∧ b = (op &&& 0xFF).toUInt8 := by
  have ha := a.toNat_lt
  have hb := b.toNat_lt
  rw [← UInt16.toNat_inj, ← UInt8.toNat_inj, ← UInt8.toNat_inj, toNat_word, toNat_high, toNat_low]
  omega

end Bytes

/-! ## Frames -/

section Frames

variable {a b c d cs : UInt8} {len op : UInt16} {data p : List UInt8} {i : ℕ}

/-- What is made of five bytes and more. -/
theorem handle_frame (a b c d cs : UInt8) (data : List UInt8) :
    genieBinCmdsHandle (a :: b :: c :: d :: (data ++ [cs])) =
      if a ≠ 0xFF ∧ a ≠ 0xFE then .ignored
      else if (d.toUInt16 + c.toUInt16 <<< 8).toNat ≠ data.length then .error 0x02
      else if data.foldl (· + ·) (c + d) ≠ cs then .error 0x03
      else if a.toUInt16 <<< 8 ||| b.toUInt16 = genieBinOpcodeData ∨
          a.toUInt16 <<< 8 ||| b.toUInt16 = genieBinOpcodeCmd then
        .dispatched (a.toUInt16 <<< 8 ||| b.toUInt16) (d.toUInt16 + c.toUInt16 <<< 8) data
      else .ignored := by
  have hlen : (a :: b :: c :: d :: (data ++ [cs])).length = data.length + 5 := by simp
  have hlast : (a :: b :: c :: d :: (data ++ [cs])).getD (data.length + 5 - 1) 0 = cs := by
    rw [show data.length + 5 - 1 = data.length + 4 by omega]
    simp
  unfold genieBinCmdsHandle genieBinMinDataLen
  simp only [hlen, hlast]
  rw [if_neg (show ¬ data.length + 5 < 5 by omega), show data.length + 5 - 5 = data.length by omega]
  simp only [Nat.zero_lt_succ, true_and, List.getD_cons_zero, List.getD_cons_succ]
  by_cases hn : (d.toUInt16 + c.toUInt16 <<< 8).toNat = data.length
  · have htake : (List.drop 4 (a :: b :: c :: d :: (data ++ [cs]))).take
        (d.toUInt16 + c.toUInt16 <<< 8).toNat = data := by
      rw [hn]
      simp
    rw [htake]
  · simp only [if_pos hn]

/-- Five bytes and more. -/
theorem exists_frame (h : genieBinMinDataLen ≤ p.length) :
    ∃ a b c d data cs, p = a :: b :: c :: d :: (data ++ [cs]) := by
  unfold genieBinMinDataLen at h
  match p, h with
  | a :: b :: c :: d :: e :: rest, _ =>
    refine ⟨a, b, c, d, (e :: rest).dropLast, (e :: rest).getLast (by simp), ?_⟩
    rw [List.dropLast_append_getLast]

/-- What is sent. -/
theorem send_eq (op len : UInt16) (h : len.toNat = data.length) : genieBinCmdsSend op data len =
    (op >>> 8).toUInt8 :: (op &&& 0xFF).toUInt8 :: (len >>> 8).toUInt8 :: (len &&& 0xFF).toUInt8 ::
      (data ++ [data.foldl (· + ·) ((len >>> 8).toUInt8 + (len &&& 0xFF).toUInt8)]) := by
  unfold genieBinCmdsSend
  rw [h, List.take_length]
  rfl

/-- **The frames that are dispatched** are those that are sent. -/
theorem dispatched_iff (p : List UInt8) (op len : UInt16) (data : List UInt8) :
    genieBinCmdsHandle p = .dispatched op len data ↔
      (op = genieBinOpcodeData ∨ op = genieBinOpcodeCmd) ∧ len.toNat = data.length ∧
        p = genieBinCmdsSend op data len := by
  by_cases hp : genieBinMinDataLen ≤ p.length
  · obtain ⟨a, b, c, d, payload, cs, rfl⟩ := exists_frame hp
    rw [handle_frame]
    constructor
    · intro h
      split_ifs at h with hfirst hlen hsum hop
      obtain ⟨hop', hlen', rfl⟩ := BinReply.dispatched.inj h
      rw [hop'] at hop
      rw [hlen'] at hlen
      rw [not_not] at hlen hsum
      obtain ⟨rfl, rfl⟩ := opcode_bytes_iff.1 hop'
      obtain ⟨rfl, rfl⟩ := len_bytes_iff.1 hlen'
      exact ⟨hop, hlen, by rw [send_eq _ _ hlen, hsum]⟩
    · rintro ⟨hop, hlen, hp⟩
      rw [send_eq _ _ hlen] at hp
      simp only [List.cons.injEq] at hp
      obtain ⟨ha, hb, hc, hd, hrest⟩ := hp
      obtain ⟨rfl, hcs⟩ := List.append_inj' hrest rfl
      have hop' := opcode_bytes_iff.2 ⟨ha, hb⟩
      have hlen' := len_bytes_iff.2 ⟨hc, hd⟩
      have hfirst : ¬ (a ≠ 0xFF ∧ a ≠ 0xFE) := by
        rw [ha]
        rcases hop with rfl | rfl <;> decide
      rw [if_neg hfirst, hop', hlen', if_neg (not_not.2 hlen), if_pos hop, if_neg]
      rw [not_not, hc, hd]
      exact (List.cons.inj hcs).1.symm
  · have hshort : p.length < genieBinMinDataLen := not_le.1 hp
    constructor
    · intro h
      unfold genieBinCmdsHandle at h
      dsimp only at h
      rw [if_pos hshort] at h
      split_ifs at h
    · rintro ⟨-, hlen, rfl⟩
      rw [send_eq _ _ hlen] at hshort
      unfold genieBinMinDataLen at hshort
      simp only [List.length_cons, List.length_append, List.length_nil] at hshort
      omega

/-- What is added first may be added last. -/
theorem foldl_add_shift (l : List UInt8) (x y : UInt8) :
    l.foldl (· + ·) (x + y) = l.foldl (· + ·) x + y := by
  induction l generalizing x with
  | nil => rfl
  | cons z l ih =>
    rw [List.foldl_cons, List.foldl_cons, UInt8.add_assoc, UInt8.add_comm y z, ← UInt8.add_assoc, ih]

/-- A changed byte changes the sum by as much. -/
theorem foldl_add_set (l : List UInt8) (x b : UInt8) (hi : i < l.length) :
    (l.set i b).foldl (· + ·) x + l[i] = l.foldl (· + ·) x + b := by
  induction l generalizing x i with
  | nil => exact absurd hi (Nat.not_lt_zero i)
  | cons z l ih =>
    cases i with
    | zero =>
      rw [List.set_cons_zero, List.foldl_cons, List.foldl_cons, List.getElem_cons_zero,
        foldl_add_shift, foldl_add_shift, UInt8.add_assoc, UInt8.add_assoc, UInt8.add_comm b z]
    | succ i =>
      rw [List.set_cons_succ, List.foldl_cons, List.foldl_cons, List.getElem_cons_succ]
      exact ih (x + z) (by simpa using hi)

/-- A frame with another byte behind its opcode is no frame. -/
theorem send_set_ne {op' len' : UInt16} {data' : List UInt8} {b : UInt8} (hlen : len.toNat = data.length)
    (hlen' : len'.toNat = data'.length) (hi : 2 ≤ i) (hp : i < (genieBinCmdsSend op data len).length)
    (hb : b ≠ (genieBinCmdsSend op data len)[i]) :
    (genieBinCmdsSend op data len).set i b ≠ genieBinCmdsSend op' data' len' := by
  intro heq
  have hsame := congrArg List.length heq
  simp only [send_eq op len hlen, send_eq op' len' hlen', List.length_set, List.length_cons,
    List.length_append, List.length_nil] at hsame
  obtain rfl : len' = len := UInt16.toNat_inj.1 (by omega)
  simp only [send_eq op len' hlen] at hb hp heq
  rw [send_eq op' len' hlen'] at heq
  match i, hi with
  | 2, _ =>
    simp only [List.set_cons_succ, List.set_cons_zero, List.cons.injEq] at heq
    exact hb heq.2.2.1
  | 3, _ =>
    simp only [List.set_cons_succ, List.set_cons_zero, List.cons.injEq] at heq
    exact hb heq.2.2.2.1
  | j + 4, _ =>
    simp only [List.set_cons_succ, List.cons.injEq] at heq
    simp only [List.getElem_cons_succ] at hb
    have hrest := heq.2.2.2.2
    by_cases hj : j < data.length
    · rw [List.set_append_left _ _ hj] at hrest
      obtain ⟨hset, hcs⟩ := List.append_inj' hrest rfl
      have hsum := foldl_add_set data ((len' >>> 8).toUInt8 + (len' &&& 0xFF).toUInt8) b hj
      rw [hset, ← (List.cons.inj hcs).1] at hsum
      rw [List.getElem_append_left hj] at hb
      exact hb ((UInt8.add_right_inj _).1 hsum).symm
    · simp only [List.length_cons, List.length_append, List.length_nil] at hp
      obtain rfl : j = data.length := by omega
      rw [List.set_append_right _ _ (le_refl _), Nat.sub_self, List.set_cons_zero] at hrest
      obtain ⟨rfl, hcs⟩ := List.append_inj' hrest rfl
      apply hb
      rw [List.getElem_append_right (le_refl _)]
      simpa using (List.cons.inj hcs).1

/-- **Sender and receiver agree.** A frame of at most 250 bytes is dispatched as it was sent; what is
dispatched was sent so; and with another byte behind the opcode a frame is not dispatched. -/
theorem bin_frames_agree :
    (∀ (op : UInt16) (data : List UInt8), op = genieBinOpcodeData ∨ op = genieBinOpcodeCmd →
      data.length ≤ 250 → (genieBinCmdsSend op data (UInt16.ofNat data.length)).length ≤ 255 ∧
        genieBinCmdsHandle (genieBinCmdsSend op data (UInt16.ofNat data.length)) =
          .dispatched op (UInt16.ofNat data.length) data) ∧
    (∀ (p : List UInt8) (op len : UInt16) (data : List UInt8), p.length ≤ 255 →
      genieBinCmdsHandle p = .dispatched op len data →
        (op = genieBinOpcodeData ∨ op = genieBinOpcodeCmd) ∧ len = UInt16.ofNat data.length ∧
          data.length ≤ 250 ∧ p = genieBinCmdsSend op data (UInt16.ofNat data.length)) ∧
    (∀ (p : List UInt8) (op len : UInt16) (data : List UInt8),
      genieBinCmdsHandle p = .dispatched op len data →
        ∀ (i : ℕ) (b : UInt8) (hi : i < p.length), 2 ≤ i → b ≠ p[i] →
          ∀ op' len' data', genieBinCmdsHandle (p.set i b) ≠ .dispatched op' len' data') := by
  refine ⟨fun op data hop hle => ?_, fun p op len data hp h => ?_, fun p op len data h i b hi h2 hb => ?_⟩
  · have hlen : (UInt16.ofNat data.length).toNat = data.length :=
      UInt16.toNat_ofNat_of_lt' (lt_of_le_of_lt hle (by decide))
    refine ⟨?_, (dispatched_iff _ _ _ _).2 ⟨hop, hlen, rfl⟩⟩
    rw [send_eq _ _ hlen]
    simp only [List.length_cons, List.length_append, List.length_nil]
    omega
  · obtain ⟨hop, hlen, rfl⟩ := (dispatched_iff _ _ _ _).1 h
    have hofNat : len = UInt16.ofNat data.length := by
      rw [← hlen, UInt16.ofNat_toNat]
    refine ⟨hop, hofNat, ?_, by rw [← hofNat]⟩
    rw [send_eq _ _ hlen] at hp
    simp only [List.length_cons, List.length_append, List.length_nil] at hp
    omega
  · obtain ⟨-, hlen, rfl⟩ := (dispatched_iff _ _ _ _).1 h
    intro op' len' data' h'
    obtain ⟨-, hlen', heq⟩ := (dispatched_iff _ _ _ _).1 h'
    exact send_set_ne hlen hlen' h2 hi hb heq

/-- A frame holds as many bytes as its length says. -/
theorem send_data (op len : UInt16) (data : List UInt8) :
    ((genieBinCmdsSend op data len).drop 4).dropLast = data.take len.toNat := by
  unfold genieBinCmdsSend
  simp

end Frames

/-! ## Down to the MCU -/

/-- The frame holds the bytes of the message, and its length says how many they are. -/
def FrameWhole (frame mesg : List UInt8) : Prop :=
  (frame.drop 4).dropLast = mesg ∧ (frame.getD 2 0).toNat * 256 + (frame.getD 3 0).toNat = mesg.length

/-- **A vendor message on its way to the MCU** arrives whole exactly if it has less than 252 bytes behind its
opcode and TID. -/
theorem down_msg_whole_iff (opid tid : UInt8) (opcode : UInt32) (data : List UInt8) :
    FrameWhole (genieDownMsgFrame opcode (.vendor opid tid data))
        ([opid, opcode.toUInt8, (opcode >>> 8).toUInt8, tid] ++ data) ↔
      data.length < 252 := by
  change FrameWhole (genieBinCmdsSend genieBinOpcodeData
    ([opid, opcode.toUInt8, (opcode >>> 8).toUInt8, tid] ++ data)
    (UInt16.ofNat ([opid, opcode.toUInt8, (opcode >>> 8).toUInt8, tid] ++ data).length).toUInt8.toUInt16) _
      ↔ _
  have hn : ([opid, opcode.toUInt8, (opcode >>> 8).toUInt8, tid] ++ data).length = data.length + 4 := by
    simp
  generalize ([opid, opcode.toUInt8, (opcode >>> 8).toUInt8, tid] ++ data) = mesg at hn ⊢
  have hlen : (UInt16.ofNat mesg.length).toUInt8.toUInt16.toNat = mesg.length % 256 := by
    rw [UInt8.toNat_toUInt16, UInt16.toNat_toUInt8, UInt16.toNat_ofNat']
    exact Nat.mod_mod_of_dvd _ (by decide)
  generalize (UInt16.ofNat mesg.length).toUInt8.toUInt16 = len at hlen ⊢
  unfold FrameWhole
  rw [send_data, hlen]
  have hhigh : ((genieBinCmdsSend genieBinOpcodeData mesg len).getD 2 0).toNat = len.toNat / 256 :=
    toNat_high len
  have hlow : ((genieBinCmdsSend genieBinOpcodeData mesg len).getD 3 0).toNat = len.toNat % 256 :=
    toNat_low len
  rw [hhigh, hlow, hlen]
  constructor
  · rintro ⟨-, hsize⟩
    omega
  · intro hshort
    rw [Nat.mod_eq_of_lt (by omega), List.take_length]
    exact ⟨rfl, by omega⟩

/-- A message with 252 bytes of payload goes down as an empty frame. -/
theorem down_msg_cut :
    ((genieDownMsgFrame 0x01A8 (.vendor 0xD4 1 (List.replicate 252 7))).drop 2).take 3 = [0, 0, 0] ∧
      ¬ FrameWhole (genieDownMsgFrame 0x01A8 (.vendor 0xD4 1 (List.replicate 252 7)))
        ([0xD4, 0xA8, 0x01, 1] ++ List.replicate 252 7) := by
  refine ⟨by decide +kernel, fun h => ?_⟩
  have hsize := h.2
  have hzero : ((genieDownMsgFrame 0x01A8 (.vendor 0xD4 1 (List.replicate 252 7))).getD 2 0).toNat * 256 +
      ((genieDownMsgFrame 0x01A8 (.vendor 0xD4 1 (List.replicate 252 7))).getD 3 0).toNat = 0 := by
    decide +kernel
  rw [hzero, List.length_append, List.length_replicate] at hsize
  exact absurd hsize (by decide)

/-- A frame with one byte of payload, and the same with another. -/
theorem bin_frames_agree_one :
    genieBinCmdsHandle (genieBinCmdsSend genieBinOpcodeCmd [7] (UInt16.ofNat [(7 : UInt8)].length)) =
        .dispatched genieBinOpcodeCmd (UInt16.ofNat [(7 : UInt8)].length) [7] ∧
      ∀ op' len' data',
        genieBinCmdsHandle ((genieBinCmdsSend genieBinOpcodeCmd [7] 1).set 4 8) ≠
          .dispatched op' len' data' :=
  ⟨(bin_frames_agree.1 genieBinOpcodeCmd [7] (.inr rfl) (by decide)).2,
    bin_frames_agree.2.2 _ genieBinOpcodeCmd 1 [7] (by decide) 4 8 (by decide) (by decide) (by decide)⟩

end GenieSdk.Analysis.Bin
