import GenieSdk.Lib.Bytes

/-!
# Block ciphers

What the modes of operation and the rounds of a cipher rest on: the exclusive or of two strings of bytes,
and a loop of steps that another loop undoes from the last one on.

Nothing here depends on a particular program.
-/

set_option autoImplicit false

namespace GenieSdk.Lib

/-- The exclusive or, byte by byte, as far as both go. -/
def xorBytes (as bs : List UInt8) : List UInt8 := List.zipWith (· ^^^ ·) as bs

@[simp] theorem length_xorBytes (as bs : List UInt8) :
    (xorBytes as bs).length = min as.length bs.length := List.length_zipWith

/-- A mask that is long enough can be taken off again. -/
theorem xorBytes_xorBytes {as bs : List UInt8} (h : as.length ≤ bs.length) : xorBytes (xorBytes as bs) bs = as := by
  induction as generalizing bs with
  | nil => rfl
  | cons a as ih =>
    cases bs with
    | nil => cases h
    | cons b bs =>
      have hb : a ^^^ b ^^^ b = a := by rw [UInt8.xor_assoc, UInt8.xor_self, UInt8.xor_zero]
      have hrest := ih (Nat.le_of_succ_le_succ h)
      unfold xorBytes at hrest ⊢
      rw [List.zipWith_cons_cons, List.zipWith_cons_cons, hb, hrest]

/-- The low `w` bytes of `x`, most significant first. -/
def beBytes (w x : ℕ) : List UInt8 := (leBytes w x).reverse

@[simp] theorem length_beBytes (w x : ℕ) : (beBytes w x).length = w := by simp [beBytes]

/-- The bytes of the number that they denote. -/
theorem leBytes_leVal (bs : List UInt8) : leBytes bs.length (leVal bs) = bs := by
  induction bs with
  | nil => rfl
  | cons b bs ih =>
    have hb := b.toNat_lt
    have hlow : (b.toNat + 256 * leVal bs) % 256 = b.toNat := by omega
    have hhigh : (b.toNat + 256 * leVal bs) / 256 = leVal bs := by omega
    rw [List.length_cons, leVal, leBytes, hlow, hhigh, ih, UInt8.ofNat_toNat]

/-! ## Blocks of a string -/

section Chunks

variable {bs : List UInt8} {w j n : ℕ} {mask : ℕ → List UInt8}

/-- The `j`-th block of `w` bytes; the last one may be shorter. -/
def chunk (w j : ℕ) (bs : List UInt8) : List UInt8 := (bs.drop (w * j)).take w

/-- Every block combined with a mask of its own. -/
def maskBlocks (mask : ℕ → List UInt8) (w : ℕ) (bs : List UInt8) : List UInt8 :=
  bs.mapIdx fun i b => b ^^^ (mask (i / w)).getD (i % w) 0

@[simp] theorem length_maskBlocks (mask : ℕ → List UInt8) (w : ℕ) (bs : List UInt8) :
    (maskBlocks mask w bs).length = bs.length := List.length_mapIdx

/-- **Masks come off** when they are put on once more. -/
theorem maskBlocks_maskBlocks (mask : ℕ → List UInt8) (w : ℕ) (bs : List UInt8) :
    maskBlocks mask w (maskBlocks mask w bs) = bs := by
  unfold maskBlocks
  refine List.ext_getElem (by simp) fun i h h' => ?_
  rw [List.getElem_mapIdx, List.getElem_mapIdx, UInt8.xor_assoc, UInt8.xor_self, UInt8.xor_zero]

/-- A block of a masked string. -/
theorem chunk_maskBlocks (hw : 0 < w) (hmask : (mask j).length = w) :
    chunk w j (maskBlocks mask w bs) = xorBytes (chunk w j bs) (mask j) := by
  unfold chunk maskBlocks xorBytes
  refine List.ext_getElem ?_ fun i h h' => ?_
  · rw [List.length_take, List.length_drop, List.length_mapIdx, List.length_zipWith, List.length_take,
      List.length_drop, hmask]
    omega
  · have hi : i < w := by
      rw [List.length_take] at h
      omega
    have hdiv : (w * j + i) / w = j := by
      rw [Nat.mul_add_div hw, Nat.div_eq_of_lt hi, Nat.add_zero]
    have hmod : (w * j + i) % w = i := by rw [Nat.mul_add_mod, Nat.mod_eq_of_lt hi]
    rw [List.getElem_take, List.getElem_drop, List.getElem_mapIdx, List.getElem_zipWith, List.getElem_take,
      List.getElem_drop, hdiv, hmod, List.getD_eq_getElem _ _ (by omega)]

/-- The next block of a string. -/
theorem take_add_chunk (w j : ℕ) (bs : List UInt8) : bs.take (w * j) ++ chunk w j bs = bs.take (w * (j + 1)) := by
  unfold chunk
  rw [Nat.mul_succ, List.take_add]

/-- A loop that puts the masks on, block by block. -/
theorem foldl_chunks (hw : 0 < w) (hmask : ∀ j, (mask j).length = w) (n : ℕ) :
    (List.range n).foldl (fun out j => out ++ xorBytes (chunk w j bs) (mask j)) [] =
      (maskBlocks mask w bs).take (w * n) := by
  induction n with
  | zero => simp
  | succ n ih =>
    rw [List.range_succ, List.foldl_append, List.foldl_cons, List.foldl_nil, ih, ← chunk_maskBlocks hw (hmask n),
      take_add_chunk]

end Chunks

/-- A property of bytes is checked one by one. -/
theorem forall_byte {p : UInt8 → Prop} (h : ∀ n < 256, p (UInt8.ofNat n)) (a : UInt8) : p a := by
  have ha := h a.toNat a.toNat_lt
  rwa [UInt8.ofNat_toNat] at ha

/-- A table as one number. -/
theorem getD_eq_leVal (bs : List UInt8) (i : ℕ) : bs.getD i 0 = UInt8.ofNat (leVal bs / 256 ^ i) := by
  induction bs generalizing i with
  | nil => simp [leVal]
  | cons b bs ih =>
    cases i with
    | zero =>
      rw [pow_zero, Nat.div_one, leVal]
      simp
    | succ i =>
      have hb := b.toNat_lt
      have hfirst : leVal (b :: bs) / 256 = leVal bs := by
        rw [leVal]
        omega
      rw [pow_succ', ← Nat.div_div_eq_div_mul, hfirst, ← ih]
      rfl

section Undo

variable {α β : Type} {f g : β → α → β} {P : β → Prop}

/-- **Steps that are undone** one by one, the last one first. -/
theorem foldl_undo (hP : ∀ x i, P x → P (f x i)) {is : List α} (hundo : ∀ i ∈ is, ∀ x, P x → g (f x i) i = x)
    {x : β} (hx : P x) : is.reverse.foldl g (is.foldl f x) = x := by
  induction is generalizing x with
  | nil => rfl
  | cons i is ih =>
    have hrest := ih (fun j hj => hundo j (List.mem_cons_of_mem i hj)) (hP x i hx)
    rw [List.reverse_cons, List.foldl_append, List.foldl_cons, List.foldl_cons, List.foldl_nil, hrest]
    exact hundo i List.mem_cons_self x hx

/-- What each step keeps holds at the end. -/
theorem foldl_keeps (hP : ∀ x i, P x → P (f x i)) {x : β} (hx : P x) (is : List α) : P (is.foldl f x) := by
  induction is generalizing x with
  | nil => exact hx
  | cons i is ih => exact ih (hP x i hx)

/-- A loop that appends an element in every round. -/
theorem length_foldl_append (f : List β → α → β) (is : List α) (bs : List β) :
    (is.foldl (fun bs i => bs ++ [f bs i]) bs).length = bs.length + is.length := by
  induction is generalizing bs with
  | nil => rfl
  | cons i is ih =>
    rw [List.foldl_cons, ih, List.length_append, List.length_singleton, List.length_cons]
    omega

end Undo

end GenieSdk.Lib
