import Mathlib.Data.List.GetD
import Mathlib.Tactic

/-!
# A ring of recent values

A ring keeps the last values that were pushed; `look` asks for a value and pushes it if it is not
there. Values that are asked for again before the ring has gone round are never missed: `Tracks` says
this of a list of values with the times at which they were pushed, while other values come and go.

Nothing here depends on a particular program.
-/

set_option autoImplicit false

namespace GenieSdk.Lib

/-- Slots, and the place of the next value. -/
structure RecentRing (α : Type) where
  slots : List α
  next : ℕ
  deriving DecidableEq, Repr

namespace RecentRing

variable {α : Type}

/-- All slots hold `v`. -/
def filled (n : ℕ) (v : α) : RecentRing α := ⟨List.replicate n v, 0⟩

/-- The oldest value makes room. -/
def push (r : RecentRing α) (v : α) : RecentRing α :=
  ⟨r.slots.set r.next v, (r.next + 1) % r.slots.length⟩

/-- Whether `v` is there; if not, it is pushed. -/
def look [DecidableEq α] (r : RecentRing α) (v : α) : Bool × RecentRing α :=
  if v ∈ r.slots then (true, r) else (false, r.push v)

/-- The values, oldest first. -/
def recent (r : RecentRing α) : List α := r.slots.drop r.next ++ r.slots.take r.next

variable {r : RecentRing α} {v w : α}

/-- The recent values are those in the slots. -/
theorem mem_recent : v ∈ r.recent ↔ v ∈ r.slots := by
  unfold recent
  rw [List.mem_append, or_comm, ← List.mem_append, List.take_append_drop]

/-- As many as there are slots. -/
theorem length_recent (h : r.next < r.slots.length) : r.recent.length = r.slots.length := by
  unfold recent
  rw [List.length_append, List.length_drop, List.length_take]
  omega

/-- The next slot stays within bounds. -/
theorem push_next_lt (h : r.next < r.slots.length) : (r.push v).next < (r.push v).slots.length := by
  show (r.next + 1) % r.slots.length < (r.slots.set r.next v).length
  rw [List.length_set]
  exact Nat.mod_lt _ (by omega)

/-- A push drops the oldest value. -/
theorem recent_push (h : r.next < r.slots.length) : (r.push v).recent = r.recent.tail ++ [v] := by
  have htake : (r.slots.set r.next v).take (r.next + 1) = r.slots.take r.next ++ [v] := by
    rw [List.take_add_one, List.take_set_of_le (le_refl _), List.getElem?_set_self h]
    rfl
  have htail : r.recent.tail = r.slots.drop (r.next + 1) ++ r.slots.take r.next := by
    unfold recent
    rw [List.drop_eq_getElem_cons h]
    rfl
  rw [htail, List.append_assoc, ← htake]
  unfold recent push
  simp only
  by_cases hlast : r.next + 1 = r.slots.length
  · rw [hlast, Nat.mod_self, List.drop_length, List.drop_zero, List.take_zero, List.append_nil,
      List.nil_append, ← List.length_set, List.take_length]
  · rw [Nat.mod_eq_of_lt (by omega), List.drop_set_of_lt (by omega)]

/-- The ring held `first` and then had `pushed` pushed, so it holds the last ones of both. -/
structure HasPushed (first pushed : List α) (r : RecentRing α) : Prop where
  wf : r.next < r.slots.length
  size : r.slots.length = first.length
  recent_eq : r.recent = (first ++ pushed).drop pushed.length

/-- A filled ring has pushed nothing. -/
theorem hasPushed_filled {n : ℕ} (hn : 0 < n) : HasPushed (List.replicate n v) [] (filled n v) where
  wf := by
    show 0 < (List.replicate n v).length
    rw [List.length_replicate]
    exact hn
  size := rfl
  recent_eq := rfl

/-- One more value is pushed. -/
theorem HasPushed.push {first pushed : List α} (h : HasPushed first pushed r) :
    HasPushed first (pushed ++ [v]) (r.push v) where
  wf := push_next_lt h.wf
  size := by
    show (r.slots.set r.next v).length = first.length
    rw [List.length_set]
    exact h.size
  recent_eq := by
    have hpos : 0 < first.length := h.size ▸ Nat.zero_lt_of_lt h.wf
    have hle : pushed.length + 1 ≤ (first ++ pushed).length := by
      rw [List.length_append]
      omega
    rw [recent_push h.wf, h.recent_eq, ← List.drop_one, List.drop_drop, ← List.append_assoc,
      List.length_append, List.length_singleton, List.drop_append_of_le_length hle]

/-- A value among the last `a` ones is among the last `a + 1` ones after a push. -/
theorem mem_drop_push (h : r.next < r.slots.length) {a : ℕ} (ha : a + 1 ≤ r.slots.length)
    (hv : v ∈ r.recent.drop (r.slots.length - a)) :
    v ∈ (r.push w).recent.drop (r.slots.length - (a + 1)) := by
  have hlen := length_recent h
  rw [recent_push h, ← List.drop_one, List.drop_append_of_le_length (by
    rw [List.length_drop, hlen]
    omega), List.drop_drop]
  refine List.mem_append_left _ ?_
  rw [show 1 + (r.slots.length - (a + 1)) = r.slots.length - a by omega]
  exact hv

/-- At time `c`, the values in `seen` are in the ring with their age, unless they are older than the
ring is long, and all values in it are among them or meet `X`. -/
structure Tracks (c : ℕ) (seen : List (α × ℕ)) (X : α → Prop) (r : RecentRing α) : Prop where
  wf : r.next < r.slots.length
  past : ∀ v b, (v, b) ∈ seen → b < c
  kept : ∀ v b, (v, b) ∈ seen → c - b ≤ r.slots.length →
    v ∈ r.recent.drop (r.slots.length - (c - b))
  only : ∀ v ∈ r.slots, X v ∨ ∃ b, (v, b) ∈ seen

variable {c c' : ℕ} {seen : List (α × ℕ)} {X : α → Prop}

/-- A filled ring tracks nothing. -/
theorem tracks_filled {n : ℕ} (hn : 0 < n) (hX : X v) : Tracks c [] X (filled n v) := by
  refine ⟨?_, ?_, ?_, ?_⟩
  · show 0 < (List.replicate n v).length
    rw [List.length_replicate]
    exact hn
  · intro w b hw
    cases hw
  · intro w b hw
    cases hw
  · intro w hw
    rw [List.eq_of_mem_replicate hw]
    exact Or.inl hX

/-- Tracking with a higher bound. -/
theorem Tracks.mono (h : Tracks c seen X r) (hc : c ≤ c') : Tracks c' seen X r := by
  refine ⟨h.wf, fun v b hv => lt_of_lt_of_le (h.past v b hv) hc, ?_, h.only⟩
  intro v b hv hle
  have hmem := h.kept v b hv (by omega)
  rw [show r.slots.length - (c - b) = (r.slots.length - (c' - b)) + (c' - c) by
    have := h.past v b hv
    omega, ← List.drop_drop] at hmem
  exact List.mem_of_mem_drop hmem

/-- A value that is asked for in time is there. -/
theorem Tracks.hit (h : Tracks c seen X r) {b : ℕ} (hv : (v, b) ∈ seen)
    (hle : c - b ≤ r.slots.length) : v ∈ r.slots :=
  mem_recent.1 (List.mem_of_mem_drop (h.kept v b hv hle))

/-- The age of the other values after a push. -/
theorem Tracks.kept_push (h : Tracks c seen X r) {b : ℕ} (hv : (v, b) ∈ seen)
    (hle : c + 1 - b ≤ r.slots.length) :
    v ∈ (r.push w).recent.drop (r.slots.length - (c + 1 - b)) := by
  have hb := h.past v b hv
  have hmem := h.kept v b hv (by omega)
  rw [show c + 1 - b = (c - b) + 1 by omega]
  exact mem_drop_push h.wf (by omega) hmem

variable [DecidableEq α]

/-- Asking for a value of no interest. -/
theorem Tracks.look_other (h : Tracks c seen X r) (hX : X v) : Tracks (c + 1) seen X (r.look v).2 := by
  unfold look
  split
  case isTrue => exact h.mono (Nat.le_succ c)
  case isFalse =>
    have hlen : (r.push v).slots.length = r.slots.length := List.length_set
    refine ⟨push_next_lt h.wf, fun w b hw => Nat.lt_succ_of_lt (h.past w b hw), ?_, ?_⟩
    · intro w b hw hle
      rw [hlen] at hle ⊢
      exact h.kept_push hw hle
    · intro w hw
      obtain hw | rfl := List.mem_or_eq_of_mem_set hw
      · exact h.only w hw
      · exact Or.inl hX

/-- **Asking two rings** that track the same values for a value that is not too old gives the same
answer, and they go on tracking the same values. -/
theorem Tracks.look_same {r' : RecentRing α} (h : Tracks c seen X r) (h' : Tracks c seen X r')
    (hX : ¬ X v) (hle : ∀ b, (v, b) ∈ seen → c - b ≤ r.slots.length)
    (hle' : ∀ b, (v, b) ∈ seen → c - b ≤ r'.slots.length) :
    (r.look v).1 = (r'.look v).1 ∧ ∃ seen', (∀ w b, (w, b) ∈ seen' → (w, b) ∈ seen ∨ w = v ∧ b = c) ∧
      Tracks (c + 1) seen' X (r.look v).2 ∧ Tracks (c + 1) seen' X (r'.look v).2 := by
  by_cases hseen : ∃ b, (v, b) ∈ seen
  · obtain ⟨b, hb⟩ := hseen
    have hmem := h.hit hb (hle b hb)
    have hmem' := h'.hit hb (hle' b hb)
    unfold look
    rw [if_pos hmem, if_pos hmem']
    exact ⟨rfl, seen, fun w b hw => Or.inl hw, h.mono (Nat.le_succ c), h'.mono (Nat.le_succ c)⟩
  · have hout : ∀ q : RecentRing α, Tracks c seen X q → v ∉ q.slots := by
      intro q hq hv
      obtain hx | hs := hq.only v hv
      · exact hX hx
      · exact hseen hs
    -- the value enters both rings at time `c`
    have hpush : ∀ q : RecentRing α, Tracks c seen X q →
        Tracks (c + 1) ((v, c) :: seen) X (q.push v) := by
      intro q hq
      have hlen : (q.push v).slots.length = q.slots.length := List.length_set
      refine ⟨push_next_lt hq.wf, ?_, ?_, ?_⟩
      · intro w b hw
        obtain heq | hw := List.mem_cons.1 hw
        · cases heq
          exact Nat.lt_succ_self c
        · exact Nat.lt_succ_of_lt (hq.past w b hw)
      · intro w b hw hle
        rw [hlen] at hle ⊢
        obtain heq | hw := List.mem_cons.1 hw
        · cases heq
          rw [recent_push hq.wf, show c + 1 - c = 1 by omega]
          have htail : q.recent.tail.length = q.slots.length - 1 := by
            rw [List.length_tail, length_recent hq.wf]
          rw [← htail, List.drop_left]
          exact List.mem_singleton_self v
        · exact hq.kept_push hw hle
      · intro w hw
        obtain hw | rfl := List.mem_or_eq_of_mem_set hw
        · exact (hq.only w hw).imp_right fun ⟨b, hb⟩ => ⟨b, List.mem_cons_of_mem _ hb⟩
        · exact Or.inr ⟨c, List.mem_cons_self⟩
    unfold look
    rw [if_neg (hout r h), if_neg (hout r' h')]
    refine ⟨rfl, (v, c) :: seen, ?_, hpush r h, hpush r' h'⟩
    intro w b hw
    obtain heq | hw := List.mem_cons.1 hw
    · cases heq
      exact Or.inr ⟨rfl, rfl⟩
    · exact Or.inl hw

end RecentRing

end GenieSdk.Lib
