import GenieSdk.Analysis.AesInverse
import GenieSdk.Analysis.KvReboot
import GenieSdk.Model.FlashStore

/-!
# Encrypted storage over the flash

The storage calls on the flash are the calls on a map (`OnFlash`), for some answer to whether there is room. So a
value that was written is read back from the flash, with the SDK's own AES, whatever else is stored, deleted or
collected in between, and across reboots (`storage_over_flash`).
-/

set_option autoImplicit false

namespace GenieSdk.Analysis.StorageOverFlash

open GenieSdk.Lib
open GenieSdk.Model
open GenieSdk.Analysis.Aes
open GenieSdk.Analysis.Kv
open GenieSdk.Analysis.Storage

/-- The flash holds the map. -/
def OnFlash (conf : KvConf) (s : FlashStore) (g : GenieStore) : Prop :=
  (∃ ns, Layout conf ns s.mgr ∧ Holds conf ns s.mgr.flash g.kv) ∧ s.triples = g.triples

/-- The call leaves the value of the key alone. -/
def KeepsKey (key : List UInt8) : KvOp → Prop
  | .set k _ => k ≠ key
  | .get _ _ => True
  | .del k => k ≠ key
  | .delByPrefix keyPrefix => ¬ keyPrefix <+: key
  | .delAll exPrefix => Spared exPrefix key
  | .gc => True

/-- **The condition**: other modules use no empty keys, and reboots are safe. -/
def FlashSafe (conf : KvConf) (s : FlashStore) : FlashAct → Prop
  | .kv a => RebootSafe conf s.mgr a
  | _ => True

instance (conf : KvConf) (s : FlashStore) : (a : FlashAct) → Decidable (FlashSafe conf s a)
  | .kv a => inferInstanceAs (Decidable (RebootSafe conf s.mgr a))
  | .writeReliable _ _ _ => .isTrue trivial
  | .readReliable _ _ _ => .isTrue trivial
  | .writeUserdata _ _ => .isTrue trivial

/-- The act does not write to the key of the index. -/
def OtherKey (index : UInt16) : FlashAct → Prop
  | .writeReliable _ i _ => i ≠ index
  | .readReliable _ _ _ => True
  | .writeUserdata i _ => i ≠ index
  | .kv .boot => True
  | .kv (.call op) => KeepsKey (kvKey index.toNat) op

section Calls

variable {conf : KvConf} {s s' : FlashStore} {g : GenieStore} {c : Crypto} {encKey : List UInt8}
  {env : StorageEnv}

/-- A call of the store. -/
theorem OnFlash.call {op : KvOp} {r : KvReply} {mgr : KvMgr} (h : OnFlash conf s g)
    (hop : ∀ key val, op = .set key val → key ≠ []) (hcall : kvCall conf s.mgr op = some (r, mgr)) :
    ∃ m, MapStep g.kv op r m ∧ OnFlash conf { s with mgr := mgr } { g with kv := m } := by
  obtain ⟨⟨ns, hl, hm⟩, htri⟩ := h
  obtain ⟨ns', hl', -, hmap⟩ := hl.call hop hcall
  obtain ⟨m, hstep, hm'⟩ := hmap g.kv hm
  exact ⟨m, hstep, ⟨ns', hl', hm'⟩, htri⟩

/-- The bytes of an answer that has some. -/
def foundBytes : KvReply → Option (List UInt8)
  | .value .ok bytes _ => some bytes
  | _ => none

/-- The bytes that a reply has. -/
theorem foundBytes_value (res : KvRes) (bytes : List UInt8) (len : ℕ) :
    foundBytes (.value res bytes len) = if res = .ok then some bytes else none := by
  cases res
  case ok => rfl
  all_goals rfl

/-- The reply of the map is that of the storage. -/
theorem foundBytes_getReply (g : GenieStore) (key : List UInt8) (bufferLen : ℕ) :
    foundBytes (getReply g.kv key bufferLen) = g.kvGet key bufferLen := by
  unfold getReply GenieStore.kvGet
  split
  · rfl
  · cases g.kv key with
    | none => rfl
    | some val =>
      dsimp only
      split
      · rfl
      · rfl

/-- A read finds what the map has. -/
theorem OnFlash.read (h : OnFlash conf s g) (index size : ℕ) :
    (s.genieKvRead conf index size).1 = genieKvRead g index size ∧
      OnFlash conf (s.genieKvRead conf index size).2 g := by
  have hop : ∀ key val, KvOp.get (kvKey index) size = .set key val → key ≠ [] := by
    rintro key val ⟨⟩
  obtain ⟨m, hstep, h'⟩ := h.call hop (kvCall_get conf s.mgr (kvKey index) size)
  generalize hr : KvReply.value _ _ _ = r at hstep
  cases hstep with
  | get =>
    refine ⟨?_, h'⟩
    have hfound := congrArg foundBytes hr
    rw [foundBytes_value, foundBytes_getReply] at hfound
    exact hfound

/-- What a set with refused parameters returns. -/
theorem aosKvSet_invalid {mgr : KvMgr} {key val : List UInt8}
    (h : val.length = 0 ∨ 128 < key.length ∨ 512 < val.length) :
    aosKvSet conf mgr key val = some (.invalidParam, mgr) := if_pos h

/-- A write does to the map what a map with room, or without, does. -/
theorem OnFlash.write {index : ℕ} {value : List UInt8} {ok : Bool} (h : OnFlash conf s g)
    (hwrite : s.genieKvWrite conf index value = some (ok, s')) :
    ∃ g', genieKvWrite g index value ok = (ok, g') ∧ OnFlash conf s' g' := by
  obtain ⟨⟨res, mgr⟩, hset, heq⟩ := Option.map_eq_some_iff.1 hwrite
  obtain ⟨rfl, rfl⟩ := Prod.mk.inj heq
  have hcall : kvCall conf s.mgr (.set (kvKey index) value) = some (.status res, mgr) := by
    unfold kvCall
    dsimp only
    rw [hset]
    rfl
  have hkey : ∀ key val, KvOp.set (kvKey index) value = .set key val → key ≠ [] := by
    intro key val hop
    cases hop
    exact List.cons_ne_nil _ _
  obtain ⟨m, hstep, h'⟩ := h.call hkey hcall
  unfold genieKvWrite GenieStore.kvSet
  generalize hr : KvReply.status res = r at hstep
  cases hstep with
  | set =>
    cases hr
    have hvalid : ¬ (value.length = 0 ∨ 128 < (kvKey index).length ∨ 512 < value.length) := by
      intro hbad
      rw [aosKvSet_invalid hbad] at hset
      cases hset
    rw [if_neg hvalid]
    exact ⟨_, rfl, h'⟩
  | setFails hres =>
    cases hr
    rw [decide_eq_false hres]
    refine ⟨g, ?_, h'⟩
    split
    · rfl
    · rfl

/-- The same for a write of the storage. -/
theorem OnFlash.storageWrite {index : ℕ} {value : List UInt8} {ret : GenieStorageStatus} (h : OnFlash conf s g)
    (hwrite : s.genieStorageWrite conf index value = some (ret, s')) :
    ∃ room g', genieStorageWrite g index value room = (ret, g') ∧ OnFlash conf s' g' := by
  unfold FlashStore.genieStorageWrite at hwrite
  unfold genieStorageWrite
  split_ifs at hwrite ⊢ with hempty
  · cases hwrite
    exact ⟨false, g, rfl, h⟩
  · obtain ⟨⟨ok, t⟩, hkv, heq⟩ := Option.map_eq_some_iff.1 hwrite
    obtain ⟨g', hg, h'⟩ := h.write hkv
    obtain ⟨rfl, rfl⟩ := Prod.mk.inj heq
    refine ⟨ok, g', ?_, h'⟩
    rw [hg]
    dsimp only
    cases ok
    · rfl
    · rfl

/-- **A write to the flash** is a write to the map. -/
theorem OnFlash.writeReliable {index : ℕ} {data : List UInt8} {ret : GenieStorageStatus} (h : OnFlash conf s g)
    (hwrite : s.genieStorageWriteReliable c encKey env conf index data = some (ret, s')) :
    ∃ room g', genieStorageWriteReliable c encKey { env with room := room } g index data = (ret, g') ∧
      OnFlash conf s' g' := by
  unfold FlashStore.genieStorageWriteReliable at hwrite
  unfold genieStorageWriteReliable
  have hmalloc : ∀ room, StorageEnv.halMalloc { env with room := room } = env.halMalloc := fun _ => rfl
  dsimp only at hwrite ⊢
  simp only [hmalloc]
  cases hmem : env.halMalloc (genieStorageGetReliableSize data.length) with
  | none =>
    rw [hmem] at hwrite
    cases hwrite
    exact ⟨false, g, rfl, h⟩
  | some buff =>
    rw [hmem] at hwrite
    dsimp only at hwrite ⊢
    by_cases htri : index = gfiMeshTrituple
    · rw [if_pos htri, h.2] at hwrite
      simp only [if_pos htri]
      obtain ⟨rfl, rfl⟩ := Prod.mk.inj (Option.some.inj hwrite)
      exact ⟨false, _, rfl, h.1, rfl⟩
    · rw [if_neg htri] at hwrite
      simp only [if_neg htri]
      exact h.storageWrite hwrite

/-- **A read of the flash** is a read of the map. -/
theorem OnFlash.readReliable (h : OnFlash conf s g) (index dataSize : ℕ) :
    (s.genieStorageReadReliable c encKey env conf index dataSize).1 =
        genieStorageReadReliable c encKey env g index dataSize ∧
      OnFlash conf (s.genieStorageReadReliable c encKey env conf index dataSize).2 g := by
  unfold FlashStore.genieStorageReadReliable genieStorageReadReliable
  dsimp only
  cases hmem : env.halMalloc (genieStorageGetReliableSize dataSize) with
  | none => exact ⟨rfl, h⟩
  | some buff =>
    dsimp only
    by_cases htri : index = gfiMeshTrituple
    · simp only [if_pos htri, h.2]
      cases env.readTriples g.triples (genieStorageGetReliableSize dataSize) with
      | none => exact ⟨rfl, h⟩
      | some bytes => exact ⟨rfl, h⟩
    · simp only [if_neg htri]
      obtain ⟨hread, h'⟩ := h.read index (genieStorageGetReliableSize dataSize)
      unfold FlashStore.genieStorageRead genieStorageRead
      rw [← hread]
      cases hkv : s.genieKvRead conf index (genieStorageGetReliableSize dataSize) with
      | mk found t =>
      rw [hkv] at h'
      cases found with
      | none => exact ⟨rfl, h'⟩
      | some value => exact ⟨rfl, h'⟩

end Calls

section Run

variable {conf : KvConf} {s s' : FlashStore} {g : GenieStore} {c : Crypto} {encKey : List UInt8}

/-- A call of another module keeps the value of a key that it does not write to. -/
theorem KeepsKey.step {key : List UInt8} {op : KvOp} {r : KvReply} {m m' : KvMap} (hkeeps : KeepsKey key op)
    (hstep : MapStep m op r m') : m' key = m key := by
  cases hstep with
  | set => exact Function.update_of_ne (Ne.symm hkeeps) _ _
  | setFails _ => rfl
  | get => rfl
  | del _ => exact Function.update_of_ne (Ne.symm hkeeps) _ _
  | delNone _ => rfl
  | delByPrefix => exact if_neg hkeeps
  | delAll => exact if_pos hkeeps
  | gc => rfl

/-- **an act** keeps the flash in step with a map, and the value of a key that it does not write to. -/
theorem OnFlash.step {a : FlashAct} (hn : 2 ≤ conf.blkNums) (h : OnFlash conf s g) (ha : FlashSafe conf s a)
    (hstep : flashStep c encKey conf s a = some s') :
    ∃ g', OnFlash conf s' g' ∧
      ∀ index, OtherKey index a → g'.kv (kvKey index.toNat) = g.kv (kvKey index.toNat) := by
  cases a with
  | writeReliable env i data =>
    obtain ⟨⟨ret, t⟩, hwrite, rfl⟩ := Option.map_eq_some_iff.1 hstep
    obtain ⟨room, g', hg, h'⟩ := h.writeReliable hwrite
    refine ⟨g', h', fun index hi => ?_⟩
    exact storageStep_kv (a := .writeReliable { env with room := room } i data) hi
      (congrArg (fun r : GenieStorageStatus × GenieStore => some r.2) hg)
  | readReliable env i dataSize =>
    cases hstep
    exact ⟨g, (h.readReliable i.toNat dataSize).2, fun _ _ => rfl⟩
  | writeUserdata i data =>
    obtain ⟨⟨ret, t⟩, hwrite, rfl⟩ := Option.map_eq_some_iff.1 hstep
    obtain ⟨room, g', hg, h'⟩ := h.storageWrite hwrite
    refine ⟨g', h', fun index hi => ?_⟩
    have hact : storageStep c encKey g
        (.writeUserdata ⟨none, [], room, fun _ _ => none, fun t _ => (false, t)⟩ i data) = some g' :=
      congrArg (fun r : GenieStorageStatus × GenieStore => some r.2) hg
    have hkeeps : ¬ Writes index (.writeUserdata ⟨none, [], room, fun _ _ => none, fun t _ => (false, t)⟩ i data) :=
      hi
    exact storageStep_kv hkeeps hact
  | kv a =>
    obtain ⟨mgr, hact, rfl⟩ := Option.map_eq_some_iff.1 hstep
    cases a with
    | call op =>
      change kvStep conf s.mgr op = some mgr at hact
      rw [kvStep_eq] at hact
      obtain ⟨⟨r, t⟩, hcall, rfl⟩ := Option.map_eq_some_iff.1 hact
      have hkeys : ∀ key val, op = .set key val → key ≠ [] := by
        intro key val hop
        subst hop
        exact ha
      obtain ⟨m, hmap, h'⟩ := h.call hkeys hcall
      exact ⟨_, h', fun index hkeeps => KeepsKey.step hkeeps hmap⟩
    | boot =>
      obtain ⟨⟨ns, hl, hm⟩, htri⟩ := h
      obtain ⟨ns', hl', hm'⟩ := hl.reboot (by omega) ha.1 ha.2 hm hact
      exact ⟨g, ⟨⟨ns', hl', hm'⟩, htri⟩, fun _ _ => rfl⟩

/-- **the acts of a run.** -/
theorem OnFlash.run {acts : List FlashAct} (hn : 2 ≤ conf.blkNums) (h : OnFlash conf s g)
    (hmeet : StepsMeet (flashStep c encKey conf) (FlashSafe conf) s acts)
    (hrun : runSteps (flashStep c encKey conf) s acts = some s') :
    ∃ g', OnFlash conf s' g' ∧
      ∀ index, (∀ a ∈ acts, OtherKey index a) → g'.kv (kvKey index.toNat) = g.kv (kvKey index.toNat) := by
  induction acts generalizing s g with
  | nil =>
    cases hrun
    exact ⟨g, h, fun _ _ => rfl⟩
  | cons a acts ih =>
    obtain ⟨t, hstep, hrest⟩ := runSteps_cons hrun
    obtain ⟨g₁, h₁, hkeep₁⟩ := h.step hn hmeet.1 hstep
    obtain ⟨g', h', hkeep⟩ := ih h₁ (hmeet.2 t hstep) hrest
    refine ⟨g', h', fun index hall => ?_⟩
    rw [hkeep index fun b hb => hall b (List.mem_cons_of_mem a hb)]
    exact hkeep₁ index (hall a List.mem_cons_self)

end Run

/-- **Storage over the flash.** What was written is read back from the flash after any run of the device in which
nothing writes to its key, with AES as the SDK has it. -/
theorem storage_over_flash {conf : KvConf} (hn : 2 ≤ conf.blkNums) {mgr : KvMgr}
    (hinit : kvInit conf erasedPartition = some mgr) {triples : Mem} {sha256 : List UInt8 → List UInt8}
    {encKey : List UInt8} (hkey : encKey.length = 16) {before after : List FlashAct} {s s₁ s₂ : FlashStore}
    {index : UInt16} {data : List UInt8} {env env' : StorageEnv}
    (hsafe : StepsMeet (flashStep (sdkCrypto sha256) encKey conf) (FlashSafe conf) ⟨mgr, triples⟩ before)
    (hbefore : runSteps (flashStep (sdkCrypto sha256) encKey conf) ⟨mgr, triples⟩ before = some s)
    (hindex : index.toNat ≠ gfiMeshTrituple) (hlen : data.length < 2 ^ 16)
    (hwrite : s.genieStorageWriteReliable (sdkCrypto sha256) encKey env conf index.toNat data = some (.success, s₁))
    (hsafe' : StepsMeet (flashStep (sdkCrypto sha256) encKey conf) (FlashSafe conf) s₁ after)
    (hafter : runSteps (flashStep (sdkCrypto sha256) encKey conf) s₁ after = some s₂)
    (hothers : ∀ a ∈ after, OtherKey index a) (hmem : env'.heap ≠ none) :
    (s₂.genieStorageReadReliable (sdkCrypto sha256) encKey env' conf index.toNat data.length).1 = .ok data := by
  have hstart : OnFlash conf ⟨mgr, triples⟩ ⟨fun _ => none, triples⟩ :=
    ⟨⟨_, layout_nil (by omega) hinit, holds_empty conf mgr.flash⟩, rfl⟩
  obtain ⟨g, hg, -⟩ := hstart.run hn hsafe hbefore
  obtain ⟨room, g₁, hwrite₁, hg₁⟩ := hg.writeReliable hwrite
  obtain ⟨g₂, hg₂, hkeep⟩ := hg₁.run hn hsafe' hafter
  obtain ⟨heap, hmalloc, hkv⟩ : ∃ heap, env.halMalloc (genieStorageGetReliableSize data.length) = some heap ∧
      g₁.kv (kvKey index.toNat) = some (stored (sdkCrypto sha256) encKey heap data) := by
    obtain ⟨hfail, -⟩ | ⟨htri, -⟩ | ⟨-, heap, hmalloc, heq⟩ :=
      writeReliable_cases (sdkCrypto sha256) encKey { env with room := room } g index.toNat data
    · rw [hwrite₁] at hfail
      exact absurd rfl hfail
    · exact absurd htri hindex
    · obtain rfl : g₁ = _ := congrArg Prod.snd (hwrite₁.symm.trans heq)
      exact ⟨heap, hmalloc, Function.update_self _ _ _⟩
  have hsize : genieStorageGetReliableSize data.length ≠ 0 := by
    intro hzero
    rw [StorageEnv.halMalloc, if_pos hzero] at hmalloc
    cases hmalloc
  rw [(hg₂.readReliable index.toNat data.length).1]
  have hstored := (hkeep index hothers).trans hkv
  exact readReliable_stored (sdkCrypto_inverts sha256) hkey hindex hlen hsize hstored hmem

/-- Memory is there, and what was on the stack is known. -/
def deviceEnv : StorageEnv where
  heap := some fun _ => 0x5A
  stack := List.replicate 16 0
  room := true
  readTriples := fun triples n => some (readBytes triples 0 n)
  writeTriples := fun triples bytes => (true, writeBytes triples 0 bytes)

def deviceKey : List UInt8 := (List.range 16).map UInt8.ofNat

/-- A key of another module. -/
def firstActs : List FlashAct := [.kv (.call (.set [0x78] [1])), .writeUserdata 7 [9, 9]]

/-- A reboot, another value, deletions and a collection. -/
def laterActs : List FlashAct :=
  [.kv .boot, .writeUserdata 5 [7], .kv (.call (.delByPrefix [0x78])), .kv (.call .gc)]

/-- Data are stored, the node is booted again, and the data are read back. -/
theorem storage_over_flash_rebooted : ∃ mgr s s₁ s₂, kvInit smallConf erasedPartition = some mgr ∧
    runSteps (flashStep (sdkCrypto fun _ => []) deviceKey smallConf) ⟨mgr, fun _ => 0xFF⟩ firstActs = some s ∧
    s.genieStorageWriteReliable (sdkCrypto fun _ => []) deviceKey deviceEnv smallConf (1 : UInt16).toNat
      [1, 2, 3] = some (.success, s₁) ∧
    runSteps (flashStep (sdkCrypto fun _ => []) deviceKey smallConf) s₁ laterActs = some s₂ ∧
    (s₂.genieStorageReadReliable (sdkCrypto fun _ => []) deviceKey deviceEnv smallConf (1 : UInt16).toNat 3).1 =
      .ok [1, 2, 3] := by
  have hfirst : ((kvInit smallConf erasedPartition).map fun mgr =>
      decide (StepsMeet (flashStep (sdkCrypto fun _ => []) deviceKey smallConf) (FlashSafe smallConf)
        ⟨mgr, fun _ => 0xFF⟩ firstActs)) = some true := by
    decide +kernel
  have hlater : ((((kvInit smallConf erasedPartition).bind fun mgr =>
      runSteps (flashStep (sdkCrypto fun _ => []) deviceKey smallConf) ⟨mgr, fun _ => 0xFF⟩ firstActs).bind fun s =>
      s.genieStorageWriteReliable (sdkCrypto fun _ => []) deviceKey deviceEnv smallConf (1 : UInt16).toNat
        [1, 2, 3]).map fun r => (decide (r.1 = .success),
          decide (StepsMeet (flashStep (sdkCrypto fun _ => []) deviceKey smallConf) (FlashSafe smallConf) r.2
            laterActs),
          (runSteps (flashStep (sdkCrypto fun _ => []) deviceKey smallConf) r.2 laterActs).isSome)) =
      some (true, true, true) := by
    decide +kernel
  obtain ⟨⟨ret, s₁⟩, hwrite, hr⟩ := Option.map_eq_some_iff.1 hlater
  obtain ⟨s, hrun, hwrite⟩ := Option.bind_eq_some_iff.1 hwrite
  obtain ⟨mgr, hinit, hrun⟩ := Option.bind_eq_some_iff.1 hrun
  simp only [Prod.mk.injEq, decide_eq_true_eq] at hr
  obtain ⟨rfl, hsafe', hsome⟩ := hr
  rw [hinit, Option.map_some, Option.some.injEq, decide_eq_true_eq] at hfirst
  obtain ⟨s₂, hafter⟩ := Option.isSome_iff_exists.1 hsome
  have hother : (5 : UInt16) ≠ 1 := by decide
  have hprefix : ¬ ([0x78] : List UInt8) <+: kvKey (1 : UInt16).toNat := by decide
  have hothers : ∀ a ∈ laterActs, OtherKey 1 a := by
    intro a ha
    simp only [laterActs, List.mem_cons, List.not_mem_nil, or_false] at ha
    obtain rfl | rfl | rfl | rfl := ha
    · exact trivial
    · exact hother
    · exact hprefix
    · exact trivial
  have hn : 2 ≤ smallConf.blkNums := by decide
  have hkey : deviceKey.length = 16 := by decide
  have hlen : [(1 : UInt8), 2, 3].length < 2 ^ 16 := by decide
  have hindex : (1 : UInt16).toNat ≠ gfiMeshTrituple := by decide
  have hmem : deviceEnv.heap ≠ none := Option.some_ne_none _
  have hread := storage_over_flash hn hinit hkey hfirst hrun hindex hlen hwrite hsafe' hafter hothers hmem
  refine ⟨mgr, s, s₁, s₂, hinit, hrun, hwrite, hafter, ?_⟩
  exact hread

end GenieSdk.Analysis.StorageOverFlash
