import GenieSdk.Lib.Bytes

/-!
# Bytes in a circular buffer

A buffer of `n` bytes at `d` is used as a circle: byte `i` from the offset `off` on stands at
`d + (off + i) % n`. Copies that the end of the buffer cuts are made in two pieces; `writeCirc_apply`
and `readCirc_eq` say that they copy around the circle.

Nothing here depends on a particular program.
-/

set_option autoImplicit false

namespace GenieSdk.Lib

/-- Copy `bs` into the circle, in two pieces. -/
def writeCirc (m : Mem) (d n off : ℕ) (bs : List UInt8) : Mem :=
  writeBytes (writeBytes m (d + off) (bs.take (n - off))) d (bs.drop (n - off))

/-- Copy `len` bytes out of the circle, in two pieces. -/
def readCirc (m : Mem) (d n off len : ℕ) : List UInt8 :=
  readBytes m (d + off) (min len (n - off)) ++ readBytes m d (len - min len (n - off))

/-- The byte at `i` around the circle from `off` on. -/
def circByte (m : Mem) (d n off i : ℕ) : UInt8 := m (d + (off + i) % n)

section Circle

variable {m : Mem} {d n off : ℕ}

/-- An index in the buffer, before and behind the wrap. -/
theorem circ_mod {i : ℕ} (hoff : off < n) (hi : i < n) :
    (off + i) % n = if i < n - off then off + i else off + i - n := by
  split
  · exact Nat.mod_eq_of_lt (by omega)
  · rw [Nat.mod_eq_sub_mod (by omega), Nat.mod_eq_of_lt (by omega)]

/-- The same byte seen from an offset `a` further on. -/
theorem circByte_add (a i : ℕ) :
    circByte m d n ((off + a) % n) i = circByte m d n off (a + i) := by
  unfold circByte
  rw [Nat.mod_add_mod, Nat.add_assoc]

/-- Once around the circle. -/
theorem circByte_wrap (i : ℕ) : circByte m d n off (n + i) = circByte m d n off i := by
  unfold circByte
  rw [Nat.add_left_comm, Nat.add_mod_left]

/-- **A write around the circle** changes the bytes it covers, and no others. -/
theorem writeCirc_apply {bs : List UInt8} {i : ℕ} (hoff : off < n) (hlen : bs.length ≤ n)
    (hi : i < n) : circByte (writeCirc m d n off bs) d n off i =
      if i < bs.length then bs.getD i 0 else circByte m d n off i := by
  unfold circByte writeCirc
  rw [circ_mod hoff hi]
  have htake : (bs.take (n - off)).length = min (n - off) bs.length := List.length_take
  have hdrop : (bs.drop (n - off)).length = bs.length - (n - off) := List.length_drop
  by_cases hfirst : i < n - off
  · -- the first piece
    rw [if_pos hfirst, writeBytes_outside _ _ _ _ (Or.inr (by omega))]
    by_cases hin : i < bs.length
    · rw [if_pos hin, writeBytes_inside _ _ _ _ (by omega) (by omega)]
      rw [show d + (off + i) - (d + off) = i by omega, List.getD_eq_getElem?_getD,
        List.getElem?_take_of_lt hfirst, ← List.getD_eq_getElem?_getD]
    · rw [if_neg hin, writeBytes_outside _ _ _ _ (Or.inr (by omega))]
  · rw [if_neg hfirst]
    by_cases hin : i < bs.length
    · -- the second piece
      rw [if_pos hin, writeBytes_inside _ _ _ _ (by omega) (by omega)]
      rw [List.getD_eq_getElem?_getD, List.getElem?_drop,
        show n - off + (d + (off + i - n) - d) = i by omega, ← List.getD_eq_getElem?_getD]
    · rw [if_neg hin, writeBytes_outside _ _ _ _ (Or.inr (by omega)),
        writeBytes_outside _ _ _ _ (Or.inl (by omega))]

/-- **A read around the circle.** -/
theorem readCirc_eq {len : ℕ} (hoff : off < n) (hlen : len ≤ n) :
    readCirc m d n off len = (List.range len).map (circByte m d n off) := by
  have hsplit : len = min len (n - off) + (len - min len (n - off)) := by omega
  unfold readCirc
  conv_rhs => rw [hsplit, List.range_add, List.map_append, List.map_map]
  congr 1
  · apply List.map_congr_left
    intro i hi
    have hi := List.mem_range.1 hi
    unfold circByte
    rw [circ_mod hoff (by omega), if_pos (by omega), Nat.add_assoc]
  · apply List.map_congr_left
    intro i hi
    have hi := List.mem_range.1 hi
    unfold circByte
    simp only [Function.comp]
    rw [circ_mod hoff (by omega), if_neg (by omega)]
    congr 1
    omega

end Circle

end GenieSdk.Lib
