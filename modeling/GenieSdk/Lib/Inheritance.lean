import Mathlib.Order.Bounds.Basic
import Mathlib.Tactic

/-!
# Priority inheritance

A party has a base priority and a current one, and others wait for it. Its current priority is to be
the least of its base priority and the current priorities of those who wait. The lemmas say what
happens to that minimum when one who waits gets another priority, comes or goes, and how it is found
from the first in each of several ordered queues.
-/

set_option autoImplicit false

namespace GenieSdk.Lib

variable {τ π : Type}

/-- The priorities that a party has to meet: its own base and those of the parties that wait. -/
def claims (base prio : τ → π) (waits : τ → τ → Prop) (t : τ) : Set π :=
  insert (base t) {q | ∃ w, waits w t ∧ prio w = q}

variable {base base' prio prio' : τ → π} {waits waits' : τ → τ → Prop} {t w : τ} {p q : π}

/-- A task claims its own priority. -/
theorem base_mem_claims : base t ∈ claims base prio waits t := Set.mem_insert _ _

/-- And that of each task that waits for it. -/
theorem prio_mem_claims (h : waits w t) : prio w ∈ claims base prio waits t := .inr ⟨w, h, rfl⟩

/-- The claims depend on the base, on who waits and on their priorities. -/
theorem claims_congr (hbase : base' t = base t) (hwaits : ∀ w, waits' w t ↔ waits w t)
    (hprio : ∀ w, waits w t → prio' w = prio w) :
    claims base' prio' waits' t = claims base prio waits t := by
  unfold claims
  rw [hbase]
  congr 1
  ext q
  constructor
  · rintro ⟨w, hw, rfl⟩
    have hw' := (hwaits w).1 hw
    exact ⟨w, hw', (hprio w hw').symm⟩
  · rintro ⟨w, hw, rfl⟩
    exact ⟨w, (hwaits w).2 hw, hprio w hw⟩

/-- A claim after one party got another priority. -/
theorem mem_claims_update [DecidableEq τ] (hq : q ∈ claims base (Function.update prio w p) waits t) :
    q = p ∨ q ∈ claims base prio waits t := by
  obtain rfl | ⟨u, hu, rfl⟩ := hq
  · exact .inr base_mem_claims
  · by_cases huw : u = w
    · left
      rw [huw, Function.update_self]
    · right
      rw [Function.update_of_ne huw]
      exact prio_mem_claims hu

section Order

variable [Preorder π]

/-- Nobody waits. -/
theorem least_claims_alone (hno : ∀ w, ¬ waits w t) :
    IsLeast (claims base prio waits t) (base t) := by
  refine ⟨base_mem_claims, ?_⟩
  rintro q (rfl | ⟨w, hw, rfl⟩)
  · exact le_rfl
  · exact absurd hw (hno w)

/-- One who waits gets a priority that is more urgent than that of `t`. -/
theorem least_claims_raise [DecidableEq τ] (h : IsLeast (claims base prio waits t) p)
    (hw : waits w t) (hlt : q < p) : IsLeast (claims base (Function.update prio w q) waits t) q := by
  constructor
  · exact .inr ⟨w, hw, Function.update_self ..⟩
  · intro r hr
    obtain rfl | hr := mem_claims_update hr
    · exact le_rfl
    · exact hlt.le.trans (h.2 hr)

/-- One who waits gets another priority, but neither the old nor the new one counts. -/
theorem least_claims_keep [DecidableEq τ] (h : IsLeast (claims base prio waits t) p)
    (hne : p ≠ prio w) (hle : p ≤ q) : IsLeast (claims base (Function.update prio w q) waits t) p := by
  constructor
  · obtain rfl | ⟨u, hu, rfl⟩ := h.1
    · exact base_mem_claims
    · have huw : u ≠ w := by
        rintro rfl
        exact hne rfl
      exact .inr ⟨u, hu, Function.update_of_ne huw _ _⟩
  · intro r hr
    obtain rfl | hr := mem_claims_update hr
    · exact hle
    · exact h.2 hr

/-- One who waits leaves, whose priority does not count. -/
theorem least_claims_leave (h : IsLeast (claims base prio waits t) p) (hne : p ≠ prio w)
    (hwaits : ∀ u, waits' u t ↔ waits u t ∧ u ≠ w) : IsLeast (claims base prio waits' t) p := by
  constructor
  · obtain rfl | ⟨u, hu, rfl⟩ := h.1
    · exact base_mem_claims
    · apply prio_mem_claims
      refine (hwaits u).2 ⟨hu, ?_⟩
      rintro rfl
      exact hne rfl
  · rintro r (rfl | ⟨u, hu, rfl⟩)
    · exact h.2 base_mem_claims
    · exact h.2 (prio_mem_claims ((hwaits u).1 hu).1)

/-- Others come who are no more urgent. -/
theorem least_claims_join (h : IsLeast (claims base prio waits t) p)
    (hold : ∀ u, waits u t → waits' u t) (hnew : ∀ u, waits' u t → waits u t ∨ p ≤ prio u) :
    IsLeast (claims base prio waits' t) p := by
  constructor
  · obtain rfl | ⟨u, hu, rfl⟩ := h.1
    · exact base_mem_claims
    · exact prio_mem_claims (hold u hu)
  · rintro r (rfl | ⟨u, hu, rfl⟩)
    · exact h.2 base_mem_claims
    · obtain hu | hle := hnew u hu
      · exact h.2 (prio_mem_claims hu)
      · exact hle

/-- One comes who is more urgent. -/
theorem least_claims_enter (h : IsLeast (claims base prio waits t) p) (hlt : prio w < p)
    (hwaits : ∀ u, waits' u t ↔ waits u t ∨ u = w) : IsLeast (claims base prio waits' t) (prio w) := by
  constructor
  · exact prio_mem_claims ((hwaits w).2 (.inr rfl))
  · rintro r (rfl | ⟨u, hu, rfl⟩)
    · exact hlt.le.trans (h.2 base_mem_claims)
    · obtain hu | rfl := (hwaits u).1 hu
      · exact hlt.le.trans (h.2 (prio_mem_claims hu))
      · exact le_rfl

/-- **The first of each queue suffices.** Who waits for `t` is in one of the queues that `t` holds,
and these are ordered. -/
theorem least_claims_first {κ : Type} {hold : τ → κ → Prop} {queue : κ → List τ}
    (hsorted : ∀ k, hold t k → (queue k).Pairwise fun a b => prio a ≤ prio b)
    (h : IsLeast (insert (base t)
      {q | ∃ k, hold t k ∧ ∃ w rest, queue k = w :: rest ∧ prio w = q}) p) :
    IsLeast (claims base prio (fun w t => ∃ k, hold t k ∧ w ∈ queue k) t) p := by
  constructor
  · obtain rfl | ⟨k, hk, w, rest, hq, rfl⟩ := h.1
    · exact base_mem_claims
    · apply prio_mem_claims
      refine ⟨k, hk, ?_⟩
      rw [hq]
      exact List.mem_cons_self
  · rintro r (rfl | ⟨w, ⟨k, hk, hw⟩, rfl⟩)
    · exact h.2 (Set.mem_insert _ _)
    · cases hq : queue k with
      | nil =>
        rw [hq] at hw
        cases hw
      | cons first rest =>
        have hfirst : p ≤ prio first := h.2 (.inr ⟨k, hk, first, rest, hq, rfl⟩)
        have hs := hsorted k hk
        rw [hq] at hw hs
        obtain rfl | hw := List.mem_cons.1 hw
        · exact hfirst
        · exact hfirst.trans ((List.pairwise_cons.1 hs).1 w hw)

end Order

section Walk

variable {l : Finset τ} {o : τ}

/-- What is left of a walk that gives the party `t` the priority `p` and goes on from there: while it
raises, the parties that are less urgent than `p`; while it lowers, also those with the priority that
`t` has had. -/
def walkSize [LinearOrder π] (l : Finset τ) (prio : τ → π) (t : τ) (p : π) : ℕ :=
  if p < prio t then (l.filter fun u => p < prio u).card
  else l.card + 1 + (l.filter fun u => prio u = prio t).card

/-- A walk that raises is bounded by the tasks. -/
theorem walkSize_raising [LinearOrder π] (h : p < prio t) : walkSize l prio t p ≤ l.card := by
  unfold walkSize
  rw [if_pos h]
  exact Finset.card_filter_le _ _

/-- One that lowers comes before all that raise. -/
theorem walkSize_lowering [LinearOrder π] (h : ¬ p < prio t) : l.card < walkSize l prio t p := by
  unfold walkSize
  rw [if_neg h]
  omega

/-- A party that is in the list and counts before the change, but not after it. -/
theorem card_filter_update_lt [DecidableEq τ] {f : π → Prop} [DecidablePred f] (ht : t ∈ l) (hold : f (prio t))
    (hnew : ¬ f p) : (l.filter fun u => f (Function.update prio t p u)).card <
      (l.filter fun u => f (prio u)).card := by
  apply Finset.card_lt_card
  rw [Finset.ssubset_iff_of_subset]
  · refine ⟨t, Finset.mem_filter.2 ⟨ht, hold⟩, ?_⟩
    rw [Finset.mem_filter, Function.update_self]
    exact fun h => hnew h.2
  · intro u hu
    rw [Finset.mem_filter] at hu ⊢
    have hut : u ≠ t := by
      rintro rfl
      rw [Function.update_self] at hu
      exact hnew hu.2
    rw [Function.update_of_ne hut] at hu
    exact hu

variable [DecidableEq τ] [LinearOrder π]

/-- **A step that hands the priority on** leaves less of the walk. -/
theorem walkSize_raise (ht : t ∈ l) (ho : p < Function.update prio t p o) :
    walkSize l (Function.update prio t p) o p < walkSize l prio t p := by
  by_cases hraise : p < prio t
  · unfold walkSize
    rw [if_pos ho, if_pos hraise]
    exact card_filter_update_lt (f := fun q => p < q) ht hraise (lt_irrefl p)
  · exact (walkSize_raising ho).trans_lt (walkSize_lowering hraise)

/-- **A step that lowers**, and goes on to a party that had the same priority. -/
theorem walkSize_lower (ht : t ∈ l) (hlt : prio t < p) (hot : o ≠ t) (ho : prio o = prio t) :
    walkSize l (Function.update prio t p) o q < walkSize l prio t p := by
  have hlower : ¬ p < prio t := not_lt.2 hlt.le
  by_cases hraise : q < Function.update prio t p o
  · exact (walkSize_raising hraise).trans_lt (walkSize_lowering hlower)
  · unfold walkSize
    rw [if_neg hraise, if_neg hlower, Function.update_of_ne hot, ho]
    have h := card_filter_update_lt (p := p) (f := fun r => r = prio t) ht rfl hlt.ne'
    omega

end Walk

end GenieSdk.Lib
