import Mathlib.Data.List.GetD
import Mathlib.Tactic

/-!
# Byte memories and little-endian words

A byte-addressed memory is a function from addresses to bytes. `readBytes` and
`writeBytes` are `memcpy` out of and into it; the lemmas say how a read sees a write
(`readBytes_writeBytes_same`, `readBytes_writeBytes_disjoint`) and how a read splits
(`readBytes_add`). `Rewritten` is the invariant of a loop over blocks. `leBytes` and `leVal` convert between a natural number and its
little-endian bytes.

Nothing here depends on a particular program.
-/

set_option autoImplicit false

namespace GenieSdk.Lib

/-- A byte-addressed memory. -/
abbrev Mem := ℕ → UInt8

/-- The `n` bytes of `m` from `pos` on. -/
def readBytes (m : Mem) (pos n : ℕ) : List UInt8 :=
  (List.range n).map fun i => m (pos + i)

/-- The memory `m` after copying `bs` to `pos`. -/
def writeBytes (m : Mem) (pos : ℕ) (bs : List UInt8) : Mem :=
  fun a => if pos ≤ a ∧ a < pos + bs.length then bs.getD (a - pos) 0 else m a

@[simp] theorem length_readBytes (m : Mem) (pos n : ℕ) : (readBytes m pos n).length = n := by
  simp [readBytes]

@[simp] theorem readBytes_zero (m : Mem) (pos : ℕ) : readBytes m pos 0 = [] := rfl

@[simp] theorem writeBytes_nil (m : Mem) (pos : ℕ) : writeBytes m pos [] = m := by
  funext a
  have : ¬ (pos ≤ a ∧ a < pos + ([] : List UInt8).length) := by simp
  rw [writeBytes, if_neg this]

/-- The byte at offset `i` of a read. -/
theorem getElem_readBytes (m : Mem) (pos n i : ℕ) (h : i < (readBytes m pos n).length) :
    (readBytes m pos n)[i] = m (pos + i) := by
  simp [readBytes]

/-- A byte of a read is that of the memory. -/
theorem getD_readBytes (m : Mem) (pos n i : ℕ) (d : UInt8) (h : i < n) :
    (readBytes m pos n).getD i d = m (pos + i) := by
  rw [List.getD_eq_getElem _ _ (by simpa using h), getElem_readBytes]

/-- A read of `a + b` bytes is a read of `a` bytes followed by a read of `b` bytes. -/
theorem readBytes_add (m : Mem) (pos a b : ℕ) :
    readBytes m pos (a + b) = readBytes m pos a ++ readBytes m (pos + a) b := by
  simp only [readBytes, List.range_add, List.map_append, List.map_map]
  congr 1
  apply List.map_congr_left
  intro i _
  simp [Nat.add_assoc]

/-- Two reads agree when the bytes do. -/
theorem readBytes_congr {m m' : Mem} {pos pos' n : ℕ}
    (h : ∀ i < n, m (pos + i) = m' (pos' + i)) : readBytes m pos n = readBytes m' pos' n := by
  apply List.map_congr_left
  intro i hi
  exact h i (List.mem_range.mp hi)

/-- A read is the list `bs` when it is so byte by byte. -/
theorem readBytes_eq_of_getD {m : Mem} {pos : ℕ} {bs : List UInt8} (d : UInt8)
    (h : ∀ i < bs.length, m (pos + i) = bs.getD i d) : readBytes m pos bs.length = bs := by
  apply List.ext_getElem (by simp)
  intro i h1 h2
  rw [getElem_readBytes, h i h2, List.getD_eq_getElem _ _ h2]

/-- Inside the written range a write shows the written byte. -/
theorem writeBytes_inside (m : Mem) (pos a : ℕ) (bs : List UInt8) (h1 : pos ≤ a)
    (h2 : a < pos + bs.length) : writeBytes m pos bs a = bs.getD (a - pos) 0 := by
  simp [writeBytes, h1, h2]

/-- Outside the written range a write changes nothing. -/
theorem writeBytes_outside (m : Mem) (pos a : ℕ) (bs : List UInt8)
    (h : a < pos ∨ pos + bs.length ≤ a) : writeBytes m pos bs a = m a := by
  have : ¬ (pos ≤ a ∧ a < pos + bs.length) := by omega
  rw [writeBytes, if_neg this]

/-- A read of exactly the written range returns what was written. -/
theorem readBytes_writeBytes_same (m : Mem) (pos : ℕ) (bs : List UInt8) :
    readBytes (writeBytes m pos bs) pos bs.length = bs := by
  apply readBytes_eq_of_getD 0
  intro i hi
  rw [writeBytes_inside _ _ _ _ (by omega) (by omega), Nat.add_sub_cancel_left]

/-- A read outside the written range returns the old bytes. -/
theorem readBytes_writeBytes_disjoint (m : Mem) (pos q n : ℕ) (bs : List UInt8)
    (h : pos + n ≤ q ∨ q + bs.length ≤ pos) :
    readBytes (writeBytes m q bs) pos n = readBytes m pos n := by
  apply readBytes_congr
  intro i hi
  apply writeBytes_outside
  omega

/-- A read of bytes that were copied from another memory. -/
theorem readBytes_copy (m m' : Mem) {a k n : ℕ} (h : a + k ≤ n) :
    readBytes (writeBytes m' 0 (readBytes m 0 n)) a k = readBytes m a k := by
  apply readBytes_congr
  intro i hi
  rw [writeBytes_inside _ _ _ _ (Nat.zero_le _) (by rw [length_readBytes]; omega), Nat.sub_zero,
    getD_readBytes _ _ _ _ _ (by omega), Nat.zero_add]

/-! ## Bytes that stand in a memory -/

/-- The bytes `bs` stand at `pos`. -/
def Stands (m : Mem) (pos : ℕ) (bs : List UInt8) : Prop := readBytes m pos bs.length = bs

section Stands

variable {m m' : Mem} {pos q : ℕ} {bs cs : List UInt8} {b : UInt8}

/-- No bytes stand anywhere. -/
theorem stands_nil : Stands m pos [] := rfl

/-- Two texts stand one behind the other. -/
theorem stands_append : Stands m pos (bs ++ cs) ↔ Stands m pos bs ∧ Stands m (pos + bs.length) cs := by
  unfold Stands
  rw [List.length_append, readBytes_add]
  constructor
  · intro h
    exact List.append_inj h (by simp)
  · rintro ⟨hb, hc⟩
    rw [hb, hc]

/-- One byte stands where it is. -/
theorem stands_singleton : Stands m pos [b] ↔ m pos = b := by
  simp [Stands, readBytes]

/-- A text stands byte by byte. -/
theorem stands_cons : Stands m pos (b :: bs) ↔ m pos = b ∧ Stands m (pos + 1) bs := by
  rw [← List.singleton_append, stands_append, stands_singleton]
  rfl

/-- What stands there stays where the memory does. -/
theorem Stands.congr (h : Stands m pos bs) (heq : ∀ a, pos ≤ a → a < pos + bs.length → m' a = m a) :
    Stands m' pos bs := by
  unfold Stands at h ⊢
  rw [← h]
  rw [length_readBytes]
  apply readBytes_congr
  intro i hi
  exact heq (pos + i) (by omega) (by omega)

/-- What is written stands there. -/
theorem stands_write : Stands (writeBytes m pos bs) pos bs := readBytes_writeBytes_same m pos bs

/-- A write elsewhere. -/
theorem Stands.write (h : Stands m pos bs) (hd : pos + bs.length ≤ q ∨ q + cs.length ≤ pos) :
    Stands (writeBytes m q cs) pos bs := by
  apply h.congr
  intro a ha hb
  apply writeBytes_outside
  omega

end Stands

/-! ## Block by block -/

section Blocks

variable {m m' : Mem} {p : ℕ → List UInt8} {w n : ℕ}

/-- A loop over the blocks of `w` bytes has put `p` into the first `n` of them. -/
structure Rewritten (m m' : Mem) (p : ℕ → List UInt8) (w n : ℕ) : Prop where
  block : ∀ i < n, readBytes m' (w * i) w = p i
  rest : ∀ a, w * n ≤ a → m' a = m a

/-- Nothing is rewritten. -/
theorem Rewritten.zero (m : Mem) (p : ℕ → List UInt8) (w : ℕ) : Rewritten m m p w 0 :=
  ⟨fun _ h => absurd h (Nat.not_lt_zero _), fun _ _ => rfl⟩

/-- The block that is next is as it was. -/
theorem Rewritten.next (h : Rewritten m m' p w n) :
    readBytes m' (w * n) w = readBytes m (w * n) w :=
  readBytes_congr fun i _ => h.rest (w * n + i) (Nat.le_add_right _ _)

/-- One more round. -/
theorem Rewritten.succ (h : Rewritten m m' p w n) (hp : (p n).length = w) :
    Rewritten m (writeBytes m' (w * n) (p n)) p w (n + 1) := by
  constructor
  · intro i hi
    rcases Nat.lt_succ_iff_lt_or_eq.1 hi with hlt | rfl
    · have hle : w * i + w ≤ w * n := by
        rw [← Nat.mul_succ]
        exact Nat.mul_le_mul_left w hlt
      rw [readBytes_writeBytes_disjoint _ _ _ _ _ (Or.inl hle)]
      exact h.block i hlt
    · have hsame := readBytes_writeBytes_same m' (w * i) (p i)
      rwa [hp] at hsame
  · intro a ha
    rw [Nat.mul_succ] at ha
    rw [writeBytes_outside _ _ _ _ (Or.inr (by omega))]
    exact h.rest a (by omega)

/-- Memories with the same blocks. -/
theorem readBytes_of_blocks (h : ∀ i < n, readBytes m (w * i) w = readBytes m' (w * i) w) :
    readBytes m 0 (w * n) = readBytes m' 0 (w * n) := by
  induction n with
  | zero => rfl
  | succ n ih =>
    rw [Nat.mul_succ, readBytes_add, readBytes_add, ih fun i hi => h i (Nat.lt_succ_of_lt hi)]
    have hlast := h n (Nat.lt_succ_self n)
    rw [Nat.zero_add, hlast]

/-- The first bytes of what is read. -/
theorem readBytes_take (m : Mem) (pos : ℕ) {k : ℕ} (h : k ≤ n) :
    (readBytes m pos n).take k = readBytes m pos k := by
  obtain ⟨d, rfl⟩ := Nat.exists_eq_add_of_le h
  rw [readBytes_add, List.take_append_of_le_length (by simp), List.take_of_length_le (by simp)]

end Blocks

/-! ## Little-endian words -/

/-- The low `w` bytes of `x`, least significant first. -/
def leBytes : ℕ → ℕ → List UInt8
  | 0, _ => []
  | w + 1, x => UInt8.ofNat (x % 256) :: leBytes w (x / 256)

/-- The number a list of bytes denotes, least significant first. -/
def leVal : List UInt8 → ℕ
  | [] => 0
  | b :: bs => b.toNat + 256 * leVal bs

@[simp] theorem length_leBytes (w x : ℕ) : (leBytes w x).length = w := by
  induction w generalizing x with
  | zero => rfl
  | succ w ih => simp [leBytes, ih]

/-- Decoding the low `w` bytes of `x` gives `x` modulo `256 ^ w`. -/
theorem leVal_leBytes_mod (w x : ℕ) : leVal (leBytes w x) = x % 256 ^ w := by
  induction w generalizing x with
  | zero => simp [leBytes, leVal, Nat.mod_one]
  | succ w ih =>
    have hb : (UInt8.ofNat (x % 256)).toNat = x % 256 := by simp
    rw [leBytes, leVal, ih, hb, pow_succ', Nat.mod_mul]

/-- The little-endian round trip. -/
theorem leVal_leBytes {w x : ℕ} (h : x < 256 ^ w) : leVal (leBytes w x) = x := by
  rw [leVal_leBytes_mod, Nat.mod_eq_of_lt h]

end GenieSdk.Lib
