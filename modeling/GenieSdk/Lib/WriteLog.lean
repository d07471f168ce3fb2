import GenieSdk.Lib.Bytes

/-!
# Memories with a log of their writes

A log lists writes, the newest first; each carries a tag that says whose write it is. `writer` is the
newest write that covers an address, and `Shows` says that the memory has at each covered address the
byte of its writer, whatever stands elsewhere. `Filled` says that a range was written. Together they
tell where the bytes of a read came from (`Shows.read`), also in a memory that is used again without
being cleared.

Nothing here depends on a particular program.
-/

set_option autoImplicit false

namespace GenieSdk.Lib

variable {ω : Type}

/-- A write: whose it is, where it goes, and its bytes. -/
structure Write (ω : Type) where
  tag : ω
  pos : ℕ
  bytes : List UInt8
  deriving DecidableEq, Repr

/-- The write covers an address. -/
def Write.covers (w : Write ω) (a : ℕ) : Bool := w.pos ≤ a ∧ a < w.pos + w.bytes.length

/-- The byte of the write at an address it covers. -/
def Write.byteAt (w : Write ω) (a : ℕ) : UInt8 := w.bytes.getD (a - w.pos) 0

/-- The memory after the write. -/
def Write.run (w : Write ω) (m : Mem) : Mem := writeBytes m w.pos w.bytes

/-- The newest write that covers an address. -/
def writer (log : List (Write ω)) (a : ℕ) : Option (Write ω) := log.find? fun w => w.covers a

/-- The memory has what was written last. -/
def Shows (m : Mem) (log : List (Write ω)) : Prop := ∀ a w, writer log a = some w → m a = w.byteAt a

/-- Every address from `a` up to `b` was written. -/
def Filled (log : List (Write ω)) (a b : ℕ) : Prop :=
  ∀ x, a ≤ x → x < b → ∃ w, writer log x = some w

variable {m : Mem} {w : Write ω} {log : List (Write ω)} {a b c n : ℕ}

/-- The writer of a byte is in the log. -/
theorem mem_of_writer (h : writer log a = some w) : w ∈ log := List.mem_of_find?_eq_some h

/-- The last write over a byte is its writer. -/
theorem writer_cons_of_covers (h : w.covers a = true) : writer (w :: log) a = some w :=
  List.find?_cons_of_pos h

/-- A write elsewhere is not. -/
theorem writer_cons_of_not_covers (h : w.covers a = false) : writer (w :: log) a = writer log a :=
  List.find?_cons_of_neg (by rw [h]; exact Bool.false_ne_true)

/-- An empty log shows nothing. -/
theorem shows_nil (m : Mem) : Shows m ([] : List (Write ω)) := fun _ _ h => by cases h

/-- A write that is logged. -/
theorem Shows.cons (h : Shows m log) (w : Write ω) : Shows (w.run m) (w :: log) := by
  intro a v hv
  cases hw : w.covers a with
  | true =>
    rw [writer_cons_of_covers hw] at hv
    cases hv
    obtain ⟨hlo, hhi⟩ := of_decide_eq_true hw
    exact writeBytes_inside m w.pos a w.bytes hlo hhi
  | false =>
    rw [writer_cons_of_not_covers hw] at hv
    have hout : ¬ (w.pos ≤ a ∧ a < w.pos + w.bytes.length) := of_decide_eq_false hw
    rw [← h a v hv]
    exact writeBytes_outside m w.pos a w.bytes (by omega)

/-- What was written stays written. -/
theorem Filled.cons (h : Filled log a b) (w : Write ω) : Filled (w :: log) a b := by
  intro x hlo hhi
  cases hw : w.covers x with
  | true => exact ⟨w, writer_cons_of_covers hw⟩
  | false =>
    rw [writer_cons_of_not_covers hw]
    exact h x hlo hhi

/-- A write fills its bytes. -/
theorem filled_write (w : Write ω) (log : List (Write ω)) :
    Filled (w :: log) w.pos (w.pos + w.bytes.length) :=
  fun _ hlo hhi => ⟨w, writer_cons_of_covers (decide_eq_true ⟨hlo, hhi⟩)⟩

/-- Two ranges, one after the other. -/
theorem Filled.append (h₁ : Filled log a b) (h₂ : Filled log b c) : Filled log a c := by
  intro x hlo hhi
  by_cases hx : x < b
  · exact h₁ x hlo hx
  · exact h₂ x (not_lt.1 hx) hhi

/-- Blocks of `c` bytes, one after the other. -/
theorem filled_blocks (h : ∀ k < n, Filled log (k * c) (k * c + c)) : Filled log 0 (n * c) := by
  induction n with
  | zero =>
    intro x _ hx
    rw [Nat.zero_mul] at hx
    exact absurd hx (Nat.not_lt_zero x)
  | succ n ih =>
    have hfirst := ih fun k hk => h k (Nat.lt_succ_of_lt hk)
    have hlast := h n (Nat.lt_succ_self n)
    rw [Nat.succ_mul]
    exact hfirst.append hlast

/-- **Where the bytes of a read came from.** -/
theorem Shows.read (h : Shows m log) (hfill : Filled log a (a + n)) {k : ℕ} (hk : k < n) :
    ∃ w ∈ log, writer log (a + k) = some w ∧ (readBytes m a n).getD k 0 = w.byteAt (a + k) := by
  obtain ⟨w, hw⟩ := hfill (a + k) (Nat.le_add_right a k) (by omega)
  refine ⟨w, mem_of_writer hw, hw, ?_⟩
  rw [getD_readBytes m a n k 0 hk]
  exact h (a + k) w hw

end GenieSdk.Lib
