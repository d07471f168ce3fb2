import GenieSdk.Analysis.KvNorWrites

/-!
# The store is a map

Every run of calls on a store that was started on an erased partition is a run of the map
(`kv_refines_map`).
-/

set_option autoImplicit false

namespace GenieSdk.Analysis.Kv

open GenieSdk.Lib
open GenieSdk.Model

section Refines

variable {c : KvConf} {ns : ℕ → List ℕ} {s s' : KvMgr} {ops : List KvOp} {rs : List KvReply} {m : KvMap}

/-- A store without items. -/
theorem holds_empty (c : KvConf) (f : Mem) : Holds c (fun _ => []) f fun _ => none := by
  refine ⟨fun _ _ _ => False, ⟨fun pos key val => ⟨?_, False.elim⟩, ?_⟩, fun _ _ _ _ _ he => he.elim, ?_⟩
  · rintro ⟨i, -, n, hp, -⟩
    exact not_placeOf rfl hp
  · exact fun i _ pos n hp => absurd hp (not_placeOf rfl)
  · exact fun key val => ⟨fun h => absurd h.symm (Option.some_ne_none val), fun ⟨_, he⟩ => he.elim⟩

/-- The first start of an erased partition leaves no items. -/
theorem layout_nil (hn : 0 < c.blkNums) (h : kvInit c erasedPartition = some s) :
    Layout c (fun _ => []) s := by
  obtain ⟨ns, hl, -, hnil⟩ := kvInit_layout (s := erasedPartition) hn (flashLaid_erased c) h
  obtain rfl : ns = fun _ => [] := funext fun i => (hnil i).elim id id
  exact hl

/-- **the calls of a run**, by induction on them. -/
theorem Layout.calls (h : Layout c ns s) (hm : Holds c ns s.flash m)
    (hkeys : ∀ key val, .set key val ∈ ops → key ≠ []) (hrun : kvCalls c s ops = some (rs, s')) :
    ∃ ns' m', Layout c ns' s' ∧ Holds c ns' s'.flash m' ∧ MapRun m ops rs m' := by
  induction ops generalizing s ns m rs with
  | nil =>
    cases hrun
    exact ⟨ns, m, h, hm, .nil m⟩
  | cons op ops ih =>
    unfold kvCalls at hrun
    cases hcall : kvCall c s op with
    | none => simp [hcall] at hrun
    | some p =>
    obtain ⟨r, t⟩ := p
    simp only [hcall] at hrun
    obtain ⟨⟨rs', t'⟩, hrest, heq⟩ := Option.map_eq_some_iff.1 hrun
    cases heq
    obtain ⟨ns', hl, -, hmap⟩ := h.call (fun key val hop => hkeys key val (by simp [hop])) hcall
    obtain ⟨m', hstep, hm'⟩ := hmap m hm
    obtain ⟨ns'', m'', hl'', hm'', hrun''⟩ := ih hl hm'
      (fun key val hmem => hkeys key val (List.mem_cons_of_mem _ hmem)) hrest
    exact ⟨ns'', m'', hl'', hm'', .cons hstep hrun''⟩

end Refines

/-- **The store refines a map.** It starts as the empty map, and along every run of calls, with no empty key
set, it is the map that the calls make, and returns what the map returns. -/
theorem kv_refines_map {c : KvConf} (hn : 2 ≤ c.blkNums) {s₀ s : KvMgr}
    (hinit : kvInit c erasedPartition = some s₀) {ops : List KvOp} {rs : List KvReply}
    (hkeys : ∀ key val, .set key val ∈ ops → key ≠ []) (hrun : kvCalls c s₀ ops = some (rs, s)) :
    kvMap c s₀ = (fun _ => none) ∧ MapRun (fun _ => none) ops rs (kvMap c s) := by
  have hl := layout_nil (by omega) hinit
  have hm := holds_empty c s₀.flash
  obtain ⟨ns, m, hl', hm', hmap⟩ := hl.calls hm hkeys hrun
  refine ⟨hl.kvMap_eq hm, ?_⟩
  rw [hl'.kvMap_eq hm']
  exact hmap

/-- Two keys, another value for one of them, the other one deleted, a collection, and a look at what is left. -/
def collectedRun : List KvOp :=
  [.set [0x61] [1, 2, 3], .set [0x62] [4], .set [0x61] [5], .del [0x62], .gc, .get [0x61] 8, .get [0x62] 8]

/-- A run in which a block is collected: the replies are those of a map. -/
theorem kv_refines_map_collected : ∃ s₀ s rs, kvInit smallConf erasedPartition = some s₀ ∧
    kvCalls smallConf s₀ collectedRun = some (rs, s) ∧
    rs.drop 5 = [.value .ok [5] 1, .value .itemNotFound [] 8] ∧
    kvMap smallConf s₀ = (fun _ => none) ∧ MapRun (fun _ => none) collectedRun rs (kvMap smallConf s) := by
  have hreplies : ((kvInit smallConf erasedPartition).bind fun s => kvCalls smallConf s collectedRun).map
      (fun p => p.1.drop 5) = some [.value .ok [5] 1, .value .itemNotFound [] 8] := by
    decide +kernel
  obtain ⟨⟨rs, s⟩, hboth, hdrop⟩ := Option.map_eq_some_iff.1 hreplies
  obtain ⟨s₀, hinit, hrun⟩ := Option.bind_eq_some_iff.1 hboth
  have hkeys : ∀ key val, .set key val ∈ collectedRun → key ≠ [] := by
    rintro key val hmem rfl
    simp [collectedRun] at hmem
  exact ⟨s₀, s, rs, hinit, hrun, hdrop, kv_refines_map (by decide) hinit hkeys hrun⟩

end GenieSdk.Analysis.Kv
