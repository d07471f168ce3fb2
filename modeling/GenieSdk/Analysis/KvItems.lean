import GenieSdk.Analysis.KvEntries

/-!
# The items that a traversal comes to

`kvItems` lists the normal items of a block as a traversal that changes nothing comes to them. On a row of items
these are the normal items of the row (`mem_kvItems`).
-/

set_option autoImplicit false

namespace GenieSdk.Analysis.Kv

open GenieSdk.Lib
open GenieSdk.Model

instance (c : KvConf) (i pos : ℕ) : Decidable (HdrFits c i pos) := by
  unfold HdrFits
  infer_instance

/-- The normal items of block `i` from `pos` on, each with the space it takes. -/
def kvItemsFrom (c : KvConf) (f : Mem) (i : ℕ) : ℕ → ℕ → List (KvItem × ℕ)
  | 0, _ => []
  | fuel + 1, pos =>
    if HdrFits c i pos then
      match kvHead c f pos with
      | .erased => []
      | .garbage => kvItemsFrom c f i fuel (pos + itemHdrSize c)
      | .dead len => kvItemsFrom c f i fuel (pos + len)
      | .item item len => (item, len) :: kvItemsFrom c f i fuel (pos + len)
    else []

def kvItems (c : KvConf) (f : Mem) (i : ℕ) : List (KvItem × ℕ) := kvItemsFrom c f i c.blkSize (blkFirst c i)

/-- The key of the item. -/
def itemKey (c : KvConf) (f : Mem) (item : KvItem) : List UInt8 :=
  readBytes f (item.pos + itemHdrSize c) item.hdr.keyLen

/-- The normal items of a row. -/
def rowItems (c : KvConf) (f : Mem) : ℕ → List ℕ → List (KvItem × ℕ)
  | _, [] => []
  | pos, n :: ns =>
    if f (pos + 1) = itemStateNormal then (itemAt c f pos, n) :: rowItems c f (pos + n) ns
    else rowItems c f (pos + n) ns

section Items

variable {c : KvConf} {f : Mem} {i pos n fuel : ℕ} {ns : ℕ → List ℕ} {ms : List ℕ} {x : KvItem × ℕ}

/-- The items of a row are those in normal state. -/
theorem mem_rowItems : x ∈ rowItems c f pos ms ↔ ∃ done n rest, ms = done ++ n :: rest ∧
    f (pos + done.sum + 1) = itemStateNormal ∧ x = (itemAt c f (pos + done.sum), n) := by
  induction ms generalizing pos with
  | nil =>
    refine ⟨fun hx => absurd hx List.not_mem_nil, ?_⟩
    rintro ⟨done, n, rest, hnil, -⟩
    simp at hnil
  | cons m ms ih =>
    have hsplit : x ∈ rowItems c f pos (m :: ms) ↔ f (pos + 1) = itemStateNormal ∧ x = (itemAt c f pos, m) ∨
        x ∈ rowItems c f (pos + m) ms := by
      rw [rowItems]
      split
      case isTrue hnormal => rw [List.mem_cons, and_iff_right hnormal]
      case isFalse hdead => exact ⟨.inr, fun hx => hx.resolve_left fun hx => hdead hx.1⟩
    rw [hsplit, ih]
    constructor
    · rintro (⟨hnormal, hx⟩ | ⟨done, n, rest, rfl, hnormal, hx⟩)
      · exact ⟨[], m, ms, rfl, hnormal, hx⟩
      · refine ⟨m :: done, n, rest, rfl, ?_⟩
        rw [List.sum_cons, ← Nat.add_assoc]
        exact ⟨hnormal, hx⟩
    · rintro ⟨done, n, rest, hms, hnormal, hx⟩
      cases done with
      | nil =>
        obtain ⟨rfl, -⟩ := List.cons.inj hms
        exact .inl ⟨hnormal, hx⟩
      | cons d done =>
        obtain ⟨rfl, hms'⟩ := List.cons.inj hms
        rw [List.sum_cons, ← Nat.add_assoc] at hnormal hx
        exact .inr ⟨done, n, rest, hms', hnormal, hx⟩

/-- Behind the last item there is none. -/
theorem kvItemsFrom_erased (h : ∀ a, pos ≤ a → a < blkStop c i → f a = 0xFF) :
    kvItemsFrom c f i fuel pos = [] := by
  cases fuel with
  | zero => rfl
  | succ fuel =>
    rw [kvItemsFrom]
    split
    case isTrue hin => rw [kvHead_erased h hin]
    case isFalse => rfl

/-- By induction on the items, with enough fuel for the bytes that are left. -/
theorem kvItemsFrom_eq (h : LaidFrom c f pos ms) (hfits : pos + ms.sum < blkStop c i)
    (hrest : ∀ a, pos + ms.sum ≤ a → a < blkStop c i → f a = 0xFF) (hfuel : blkStop c i ≤ pos + fuel) :
    kvItemsFrom c f i fuel pos = rowItems c f pos ms := by
  induction ms generalizing pos fuel with
  | nil =>
    rw [List.sum_nil, Nat.add_zero] at hrest
    exact kvItemsFrom_erased hrest
  | cons m ms ih =>
    have hlt := h.1.hdr_lt
    rw [List.sum_cons] at hfits hrest
    obtain ⟨fuel, rfl⟩ : ∃ k, fuel = k + 1 := ⟨fuel - 1, by omega⟩
    have hin : HdrFits c i pos := by
      unfold HdrFits
      omega
    have hnext : kvItemsFrom c f i fuel (pos + m) = rowItems c f (pos + m) ms :=
      ih h.2 (by omega) (fun a ha hb => hrest a (by omega) hb) (by omega)
    have hhead := h.1.kvHead
    rw [kvItemsFrom, if_pos hin, rowItems]
    by_cases hnormal : f (pos + 1) = itemStateNormal
    · rw [if_pos hnormal] at hhead ⊢
      rw [hhead, ← hnext]
    · rw [if_neg hnormal] at hhead ⊢
      rw [hhead, ← hnext]

/-- **The items of a row** are those that are listed. -/
theorem BlockOn.kvItems_eq (h : BlockOn c f i ms) : kvItems c f i = rowItems c f (blkFirst c i) ms := by
  refine kvItemsFrom_eq h.laid h.fits h.rest ?_
  unfold blkStop blkFirst
  omega

/-- So are the items of a block. -/
theorem mem_kvItems (h : BlockOn c f i (ns i)) : x ∈ kvItems c f i ↔
    ∃ pos n, PlaceOf c ns i pos n ∧ f (pos + 1) = itemStateNormal ∧ x = (itemAt c f pos, n) := by
  rw [h.kvItems_eq, mem_rowItems]
  constructor
  · rintro ⟨done, n, rest, hns, hnormal, hx⟩
    exact ⟨_, n, ⟨done, rest, hns, rfl⟩, hnormal, hx⟩
  · rintro ⟨pos, n, ⟨done, rest, hns, rfl⟩, hnormal, hx⟩
    exact ⟨done, n, rest, hns, hnormal, hx⟩

/-- An item in normal state is listed. -/
theorem PlaceOf.listed (hp : PlaceOf c ns i pos n) (h : BlockOn c f i (ns i))
    (hnormal : f (pos + 1) = itemStateNormal) : (itemAt c f pos, n) ∈ kvItems c f i :=
  (mem_kvItems h).2 ⟨pos, n, hp, hnormal, rfl⟩

end Items

end GenieSdk.Analysis.Kv
