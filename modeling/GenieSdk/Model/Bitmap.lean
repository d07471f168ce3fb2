import Mathlib.Tactic

/-!
# Bitmaps

`k_bitmap.h`: bits are counted from the most significant bit of the first 32-bit word on.
-/

set_option autoImplicit false

namespace GenieSdk.Model

/-- One test of `krhino_clz32`: if the top `k` bits are clear, shift them out. -/
def clzStage (k : ℕ) (p : ℕ × ℕ) : ℕ × ℕ :=
  if p.1 / 2 ^ (32 - k) = 0 then (p.1 * 2 ^ k, p.2 + k) else p

/-- SRCLINE: k_bitmap.h:47-76 -/
def krhinoClz32 (x : ℕ) : ℕ :=
  if x = 0 then 32
  else (clzStage 1 (clzStage 2 (clzStage 4 (clzStage 8 (clzStage 16 (x, 0)))))).2

/-- One test of `krhino_ctz32`: if the low `k` bits are clear, shift them out. -/
def ctzStage (k : ℕ) (p : ℕ × ℕ) : ℕ × ℕ :=
  if p.1 % 2 ^ k = 0 then (p.1 / 2 ^ k, p.2 + k) else p

/-- SRCLINE: k_bitmap.h:80-109 -/
def krhinoCtz32 (x : ℕ) : ℕ :=
  if x = 0 then 32
  else (ctzStage 1 (ctzStage 2 (ctzStage 4 (ctzStage 8 (ctzStage 16 (x, 0)))))).2

/-- `BITMAP_MASK` -/
def bitmapMask (nr : ℕ) : ℕ := 2 ^ (31 - nr % 32)

/-- SRCLINE: k_bitmap.h:29-32 -/
def krhinoBitmapSet (bitmap : List ℕ) (nr : ℕ) : List ℕ :=
  bitmap.set (nr / 32) (bitmap.getD (nr / 32) 0 ||| bitmapMask nr)

/-- SRCLINE: k_bitmap.h:40-43 -/
def krhinoBitmapClear (bitmap : List ℕ) (nr : ℕ) : List ℕ :=
  bitmap.set (nr / 32) (bitmap.getD (nr / 32) 0 &&& (0xFFFFFFFF ^^^ bitmapMask nr))

/-- The tests on the word found are those of `krhino_clz32`. None if every word is 0: the search
then leaves the bitmap. SRCLINE: k_bitmap.h:117-158 -/
def krhinoFindFirstBit : List ℕ → Option ℕ
  | [] => none
  | word :: bitmap =>
    if word = 0 then (krhinoFindFirstBit bitmap).map (· + 32) else some (krhinoClz32 word)

end GenieSdk.Model
