import GenieSdk.Lib.Runs
import GenieSdk.Model.MeshDecode
import Mathlib.Data.UInt

/-!
# PDUs that nobody vouches for

Both caches are filled before a PDU is authenticated, so a PDU without a valid MIC can stand in for one
with a valid MIC, or push it out. Apart from that it has no influence: `decode_same` and `decode_other`
compare a run with all PDUs and one without the PDUs that do not verify, over two rings that track the
same values (`Paired`).
-/

set_option autoImplicit false

namespace GenieSdk.Analysis

open GenieSdk.Model
open GenieSdk.Lib

section Pairs

variable {α : Type}

/-- The values of the PDUs that stay are their own, and those with a common value are near to each
other: `per` is how many values a PDU has at most, `size` the size of the ring. -/
structure Apart (values : α → List ℕ) (keep : α → Bool) (per size : ℕ) (all : List α) : Prop where
  own : ∀ q ∈ all, keep q = true → ∀ v ∈ values q,
    v ≠ 0 ∧ ∀ d ∈ all, keep d = false → v ∉ values d
  near : ∀ i j q q', i ≤ j → all[i]? = some q → all[j]? = some q' → keep q = true →
    keep q' = true → ∀ v ∈ values q, v ∈ values q' → (j + 1 - i) * per ≤ size

/-- The values that are not of interest: those of PDUs that are deleted, and 0, which is in the ring
from the start. -/
def Alien (values : α → List ℕ) (keep : α → Bool) (all : List α) (v : ℕ) : Prop :=
  v = 0 ∨ ∃ d ∈ all, keep d = false ∧ v ∈ values d

/-- The two rings of the two runs track the same values, which are values of PDUs that stay. -/
structure Paired (values : α → List ℕ) (keep : α → Bool) (per size : ℕ) (all : List α) (c : ℕ)
    (seen : List (ℕ × ℕ)) (r r' : RecentRing ℕ) : Prop where
  left : r.Tracks c seen (Alien values keep all)
  right : r'.Tracks c seen (Alien values keep all)
  size_left : r.slots.length = size
  size_right : r'.slots.length = size
  origin : ∀ v b, (v, b) ∈ seen →
    ∃ i q, all[i]? = some q ∧ keep q = true ∧ v ∈ values q ∧ i * per ≤ b

variable {values : α → List ℕ} {keep : α → Bool} {per size : ℕ} {all : List α} {c c' : ℕ}
  {seen : List (ℕ × ℕ)} {r r' : RecentRing ℕ} {v j : ℕ} {q : α}

/-- A look does not change the size. -/
theorem length_look (r : RecentRing ℕ) (v : ℕ) : (r.look v).2.slots.length = r.slots.length := by
  unfold RecentRing.look
  split
  · rfl
  · exact List.length_set

/-- The caches stay paired with a higher bound. -/
theorem Paired.mono (h : Paired values keep per size all c seen r r') (hc : c ≤ c') :
    Paired values keep per size all c' seen r r' :=
  ⟨h.left.mono hc, h.right.mono hc, h.size_left, h.size_right, h.origin⟩

/-- A PDU that stays is asked for in both runs, with the same answer. -/
theorem Paired.look (h : Paired values keep per size all c seen r r')
    (hA : Apart values keep per size all) (hq : all[j]? = some q) (hk : keep q = true)
    (hv : v ∈ values q) (hlo : j * per ≤ c) (hhi : c < (j + 1) * per) :
    (r.look v).1 = (r'.look v).1 ∧
      ∃ seen', Paired values keep per size all (c + 1) seen' (r.look v).2 (r'.look v).2 := by
  have hown := hA.own q (List.mem_of_getElem? hq) hk v hv
  have halien : ¬ Alien values keep all v := by
    rintro (hzero | ⟨d, hd, hdk, hdv⟩)
    · exact hown.1 hzero
    · exact hown.2 d hd hdk hdv
  have hage : ∀ b, (v, b) ∈ seen → c - b ≤ size := by
    intro b hb
    obtain ⟨i, p, hp, hpk, hpv, hib⟩ := h.origin v b hb
    have hbc := h.left.past v b hb
    have hij : i ≤ j := by
      have hlt : i * per < (j + 1) * per := by omega
      exact Nat.le_of_lt_succ (Nat.lt_of_mul_lt_mul_right hlt)
    have hnear := hA.near i j p q hij hp hq hpk hk v hpv hv
    rw [Nat.sub_mul] at hnear
    omega
  obtain ⟨hsame, seen', hseen, hl, hr⟩ := h.left.look_same h.right halien
    (by rw [h.size_left]; exact hage) (by rw [h.size_right]; exact hage)
  refine ⟨hsame, seen', hl, hr, ?_, ?_, ?_⟩
  · rw [length_look]
    exact h.size_left
  · rw [length_look]
    exact h.size_right
  · intro w b hw
    obtain hw | ⟨rfl, rfl⟩ := hseen w b hw
    · exact h.origin w b hw
    · exact ⟨j, q, hq, hk, hv, hlo⟩

/-- A PDU that is deleted is asked for in one run only. -/
theorem Paired.look_other (h : Paired values keep per size all c seen r r') (hq : q ∈ all)
    (hk : keep q = false) (hv : v ∈ values q) :
    Paired values keep per size all (c + 1) seen (r.look v).2 r' := by
  refine ⟨h.left.look_other (Or.inr ⟨q, hq, hk, hv⟩), h.right.mono (Nat.le_succ c), ?_, h.size_right,
    h.origin⟩
  rw [length_look]
  exact h.size_left

end Pairs

section Decoding

variable {κ : Type}

/-- The MIC of a PDU verifies under one of the keys of the node. -/
def verifies (node : NetNode κ) (data : List UInt8) : Bool :=
  node.tried.any fun k =>
    match node.crypto.obfuscate k.2.2.privacy (node.iviOf data) data with
    | none => false
    | some buf => (node.crypto.decrypt k.2.2.enc (node.iviOf data) false buf).isSome

/-- What a PDU asks `dup_cache` for. -/
def dupValues (data : List UInt8) : List ℕ :=
  if data.length < btMeshNetMinPduLen then [] else [dupVal data]

/-- What a PDU can ask `msg_cache` for: its hashes under the keys with its NID. -/
def msgValues (node : NetNode κ) (data : List UInt8) : List ℕ :=
  if data.length < btMeshNetMinPduLen then []
  else node.tried.filterMap fun k =>
    if (data.getD 0 0).toNat % 128 ≠ k.2.2.nid then none
    else (node.crypto.obfuscate k.2.2.privacy (node.iviOf data) data).map (msgHash (node.iviOf data))

/-- The hashes of a PDU under the keys in `ks`. -/
def HashesIn (node : NetNode κ) (data : List UInt8) (ks : List (ℕ × Bool × SubnetKeys κ)) : Prop :=
  ∀ k ∈ ks, (data.getD 0 0).toNat % 128 = k.2.2.nid →
    ∀ buf, node.crypto.obfuscate k.2.2.privacy (node.iviOf data) data = some buf →
      msgHash (node.iviOf data) buf ∈ msgValues node data

variable {node : NetNode κ} {keep : List UInt8 → Bool} {per size : ℕ} {all : List (List UInt8)}
  {c j : ℕ} {seen : List (ℕ × ℕ)} {s s' : NetCaches} {data : List UInt8}

/-- The hashes are those of the keys that are tried. -/
theorem hashesIn_tried (hlen : ¬ data.length < btMeshNetMinPduLen) :
    HashesIn node data node.tried := by
  intro k hk hnid buf hbuf
  unfold msgValues
  rw [if_neg hlen]
  refine List.mem_filterMap.2 ⟨k, hk, ?_⟩
  rw [if_neg (not_not.2 hnid), hbuf]
  rfl

/-- One key. -/
theorem netDecrypt_same {keys : SubnetKeys κ}
    (h : Paired (msgValues node) keep per size all c seen s.msg s'.msg)
    (hA : Apart (msgValues node) keep per size all) (hq : all[j]? = some data)
    (hk : keep data = true) (hlo : j * per ≤ c) (hhi : c < (j + 1) * per)
    (hv : ∀ buf, node.crypto.obfuscate keys.privacy (node.iviOf data) data = some buf →
      msgHash (node.iviOf data) buf ∈ msgValues node data) :
    (netDecrypt node .adv keys data s).1 = (netDecrypt node .adv keys data s').1 ∧
      (netDecrypt node .adv keys data s).2.dup = s.dup ∧
      (netDecrypt node .adv keys data s').2.dup = s'.dup ∧
      ∃ seen', Paired (msgValues node) keep per size all (c + 1) seen'
        (netDecrypt node .adv keys data s).2.msg (netDecrypt node .adv keys data s').2.msg := by
  unfold netDecrypt
  cases hbuf : node.crypto.obfuscate keys.privacy (node.iviOf data) data with
  | none => exact ⟨rfl, rfl, rfl, seen, h.mono (Nat.le_succ c)⟩
  | some buf =>
    obtain ⟨hsame, seen', hp⟩ := h.look hA hq hk (hv buf hbuf) hlo hhi
    simp only [if_true, msgCacheMatch]
    rw [← hsame]
    cases hhit : (s.msg.look (msgHash (node.iviOf data) buf)).1 with
    | true => exact ⟨rfl, rfl, rfl, seen', hp⟩
    | false =>
      simp only [Bool.false_eq_true, if_false]
      split
      · exact ⟨rfl, rfl, rfl, seen', hp⟩
      · split <;> exact ⟨rfl, rfl, rfl, seen', hp⟩

/-- One key, for a PDU that is deleted. -/
theorem netDecrypt_other {keys : SubnetKeys κ}
    (h : Paired (msgValues node) keep per size all c seen s.msg s'.msg) (hq : data ∈ all)
    (hk : keep data = false)
    (hv : ∀ buf, node.crypto.obfuscate keys.privacy (node.iviOf data) data = some buf →
      msgHash (node.iviOf data) buf ∈ msgValues node data) :
    (netDecrypt node .adv keys data s).2.dup = s.dup ∧
      Paired (msgValues node) keep per size all (c + 1) seen (netDecrypt node .adv keys data s).2.msg
        s'.msg := by
  unfold netDecrypt
  cases hbuf : node.crypto.obfuscate keys.privacy (node.iviOf data) data with
  | none => exact ⟨rfl, h.mono (Nat.le_succ c)⟩
  | some buf =>
    have hp := h.look_other hq hk (hv buf hbuf)
    simp only [if_true, msgCacheMatch]
    split
    · exact ⟨rfl, hp⟩
    · split
      · exact ⟨rfl, hp⟩
      · split <;> exact ⟨rfl, hp⟩

/-- **The search for a key** goes the same way in both runs. -/
theorem netFindAndDecrypt_same (hA : Apart (msgValues node) keep per size all)
    (hq : all[j]? = some data) (hk : keep data = true) (ks : List (ℕ × Bool × SubnetKeys κ)) :
    ∀ c seen s s', Paired (msgValues node) keep per size all c seen s.msg s'.msg →
      HashesIn node data ks → j * per ≤ c → c + ks.length = (j + 1) * per →
      (netFindAndDecrypt node .adv data ks s).1 = (netFindAndDecrypt node .adv data ks s').1 ∧
        (netFindAndDecrypt node .adv data ks s).2.dup = s.dup ∧
        (netFindAndDecrypt node .adv data ks s').2.dup = s'.dup ∧
        ∃ seen', Paired (msgValues node) keep per size all ((j + 1) * per) seen'
          (netFindAndDecrypt node .adv data ks s).2.msg
          (netFindAndDecrypt node .adv data ks s').2.msg := by
  induction ks with
  | nil =>
    intro c seen s s' h _ _ hsum
    exact ⟨rfl, rfl, rfl, seen, h.mono hsum.le⟩
  | cons k ks ih =>
    intro c seen s s' h hin hlo hsum
    obtain ⟨netIdx, newKey, keys⟩ := k
    rw [List.length_cons] at hsum
    have hin' : HashesIn node data ks := fun k hk => hin k (List.mem_cons_of_mem _ hk)
    unfold netFindAndDecrypt
    split
    case isTrue => exact ih (c + 1) seen s s' (h.mono (Nat.le_succ c)) hin' (by omega) (by omega)
    case isFalse hnid =>
      obtain ⟨hsame, hdup, hdup', seen', hp⟩ := netDecrypt_same h hA hq hk hlo (by omega)
        (hin _ List.mem_cons_self (not_not.1 hnid))
      cases hd : netDecrypt node .adv keys data s with
      | mk res s₁ =>
        cases hd' : netDecrypt node .adv keys data s' with
        | mk res' s₁' =>
          rw [hd, hd'] at hsame hp
          rw [hd] at hdup
          rw [hd'] at hdup'
          have hsame : res = res' := hsame
          subst hsame
          cases res with
          | some x => exact ⟨rfl, hdup, hdup', seen', hp.mono (by omega)⟩
          | none =>
            obtain ⟨h₁, h₂, h₃, h₄⟩ := ih (c + 1) seen' s₁ s₁' hp hin' (by omega) (by omega)
            exact ⟨h₁, h₂.trans hdup, h₃.trans hdup', h₄⟩

/-- The search for a key, for a PDU that is deleted. -/
theorem netFindAndDecrypt_other (hq : data ∈ all) (hk : keep data = false)
    (ks : List (ℕ × Bool × SubnetKeys κ)) :
    ∀ c s, Paired (msgValues node) keep per size all c seen s.msg s'.msg → HashesIn node data ks →
      (netFindAndDecrypt node .adv data ks s).2.dup = s.dup ∧
        Paired (msgValues node) keep per size all (c + ks.length) seen
          (netFindAndDecrypt node .adv data ks s).2.msg s'.msg := by
  induction ks with
  | nil =>
    intro c s h _
    exact ⟨rfl, h⟩
  | cons k ks ih =>
    intro c s h hin
    obtain ⟨netIdx, newKey, keys⟩ := k
    have hin' : HashesIn node data ks := fun k hk => hin k (List.mem_cons_of_mem _ hk)
    rw [List.length_cons, Nat.add_comm ks.length 1, ← Nat.add_assoc]
    unfold netFindAndDecrypt
    split
    case isTrue => exact ih (c + 1) s (h.mono (Nat.le_succ c)) hin'
    case isFalse hnid =>
      obtain ⟨hdup, hp⟩ := netDecrypt_other h hq hk (hin _ List.mem_cons_self (not_not.1 hnid))
      cases hd : netDecrypt node .adv keys data s with
      | mk res s₁ =>
        rw [hd] at hdup hp
        cases res with
        | some x => exact ⟨hdup, hp.mono (Nat.le_add_right _ _)⟩
        | none =>
          obtain ⟨h₁, h₂⟩ := ih (c + 1) s₁ hp hin'
          exact ⟨h₁.trans hdup, h₂⟩

end Decoding

section Runs

variable {κ : Type} {node : NetNode κ} {keep : List UInt8 → Bool} {size : ℕ}
  {all : List (List UInt8)} {t : ℕ} {s s' : NetCaches} {data : List UInt8}

/-- The PDUs that stay are undisturbed in both caches. -/
structure Undisturbed (node : NetNode κ) (keep : List UInt8 → Bool) (size : ℕ)
    (all : List (List UInt8)) : Prop where
  dup : Apart dupValues keep 1 size all
  msg : Apart (msgValues node) keep node.tried.length size all

/-- The caches of the two runs before the `t`-th PDU. -/
structure Agree (node : NetNode κ) (keep : List UInt8 → Bool) (size : ℕ) (all : List (List UInt8))
    (t : ℕ) (s s' : NetCaches) : Prop where
  dup : ∃ seen, Paired dupValues keep 1 size all (t * 1) seen s.dup s'.dup
  msg : ∃ seen, Paired (msgValues node) keep node.tried.length size all (t * node.tried.length) seen
    s.msg s'.msg

/-- The caches agree over the next PDU. -/
theorem Agree.next (h : Agree node keep size all t s s') : Agree node keep size all (t + 1) s s' := by
  obtain ⟨⟨seen, hdup⟩, seen', hmsg⟩ := h
  exact ⟨⟨seen, hdup.mono (Nat.mul_le_mul_right _ (Nat.le_succ t))⟩, seen',
    hmsg.mono (Nat.mul_le_mul_right _ (Nat.le_succ t))⟩

/-- What is read from a decrypted PDU does not depend on the caches. -/
theorem decode_of_found {s₁ s₁' : NetCaches} (hlen : ¬ data.length < btMeshNetMinPduLen)
    (hdup : checkDup s data = (false, s₁)) (hdup' : checkDup s' data = (false, s₁'))
    (hsame : (netFindAndDecrypt node .adv data node.tried s₁).1 =
      (netFindAndDecrypt node .adv data node.tried s₁').1) :
    (btMeshNetDecode node .adv s data).1 = (btMeshNetDecode node .adv s' data).1 ∧
      (btMeshNetDecode node .adv s data).2 = (netFindAndDecrypt node .adv data node.tried s₁).2 ∧
      (btMeshNetDecode node .adv s' data).2 =
        (netFindAndDecrypt node .adv data node.tried s₁').2 := by
  unfold btMeshNetDecode
  simp only [if_neg hlen, if_true, hdup, hdup', Bool.false_eq_true, if_false]
  cases hf : netFindAndDecrypt node .adv data node.tried s₁ with
  | mk res s₂ =>
    cases hf' : netFindAndDecrypt node .adv data node.tried s₁' with
    | mk res' s₂' =>
      rw [hf, hf'] at hsame
      have hsame : res = res' := hsame
      subst hsame
      cases res with
      | none => exact ⟨rfl, rfl, rfl⟩
      | some x =>
        simp only
        split
        · exact ⟨rfl, rfl, rfl⟩
        · split
          · exact ⟨rfl, rfl, rfl⟩
          · split <;> exact ⟨rfl, rfl, rfl⟩

/-- **A PDU that stays** is decoded in the same way. -/
theorem decode_same (h : Agree node keep size all t s s') (hu : Undisturbed node keep size all)
    (hq : all[t]? = some data) (hk : keep data = true) :
    (btMeshNetDecode node .adv s data).1 = (btMeshNetDecode node .adv s' data).1 ∧
      Agree node keep size all (t + 1) (btMeshNetDecode node .adv s data).2
        (btMeshNetDecode node .adv s' data).2 := by
  by_cases hlen : data.length < btMeshNetMinPduLen
  · unfold btMeshNetDecode
    rw [if_pos hlen, if_pos hlen]
    exact ⟨rfl, h.next⟩
  obtain ⟨⟨seen, hdup⟩, seenM, hmsg⟩ := h
  have hval : dupVal data ∈ dupValues data := by
    unfold dupValues
    rw [if_neg hlen]
    exact List.mem_singleton_self _
  obtain ⟨hsame, seen', hp⟩ := hdup.look hu.dup hq hk hval le_rfl (by omega)
  cases hl : s.dup.look (dupVal data) with
  | mk hit dup =>
    cases hl' : s'.dup.look (dupVal data) with
    | mk hit' dup' =>
      rw [hl, hl'] at hsame hp
      have hsame : hit = hit' := hsame
      subst hsame
      have hd : checkDup s data = (hit, { s with dup := dup }) := by
        unfold checkDup
        rw [hl]
      have hd' : checkDup s' data = (hit, { s' with dup := dup' }) := by
        unfold checkDup
        rw [hl']
      have hp : Paired dupValues keep 1 size all ((t + 1) * 1) seen' dup dup' :=
        hp.mono (by omega)
      cases hit with
      | true =>
        have hm := hmsg.mono (Nat.mul_le_mul_right node.tried.length (Nat.le_succ t))
        have hres : ∀ s s₁, checkDup s data = (true, s₁) →
            btMeshNetDecode node .adv s data = (.error .inval, s₁) := by
          intro s s₁ hc
          unfold btMeshNetDecode
          simp only [if_neg hlen, if_true, hc]
        rw [hres s _ hd, hres s' _ hd']
        exact ⟨rfl, ⟨seen', hp⟩, seenM, hm⟩
      | false =>
        obtain ⟨hfind, h₁, h₂, seenM', hm⟩ := netFindAndDecrypt_same hu.msg hq hk node.tried _
          seenM { s with dup := dup } { s' with dup := dup' } hmsg (hashesIn_tried hlen) le_rfl
          (Nat.succ_mul t node.tried.length).symm
        obtain ⟨hres, hs₁, hs₂⟩ := decode_of_found hlen hd hd' hfind
        refine ⟨hres, ⟨seen', ?_⟩, seenM', ?_⟩
        · rw [hs₁, hs₂, h₁, h₂]
          exact hp
        · rw [hs₁, hs₂]
          exact hm

/-- **A PDU that is deleted** changes nothing that matters. -/
theorem decode_other (h : Agree node keep size all t s s') (hq : data ∈ all)
    (hk : keep data = false) :
    Agree node keep size all (t + 1) (btMeshNetDecode node .adv s data).2 s' := by
  by_cases hlen : data.length < btMeshNetMinPduLen
  · unfold btMeshNetDecode
    rw [if_pos hlen]
    exact h.next
  obtain ⟨⟨seen, hdup⟩, seenM, hmsg⟩ := h
  have hval : dupVal data ∈ dupValues data := by
    unfold dupValues
    rw [if_neg hlen]
    exact List.mem_singleton_self _
  have hp := hdup.look_other hq hk hval
  cases hl : s.dup.look (dupVal data) with
  | mk hit dup =>
    rw [hl] at hp
    have hd : checkDup s data = (hit, { s with dup := dup }) := by
      unfold checkDup
      rw [hl]
    have hp : Paired dupValues keep 1 size all ((t + 1) * 1) seen dup s'.dup := hp.mono (by omega)
    cases hit with
    | true =>
      unfold btMeshNetDecode
      simp only [if_neg hlen, if_true, hd]
      exact ⟨⟨seen, hp⟩, seenM, hmsg.mono (Nat.mul_le_mul_right _ (Nat.le_succ t))⟩
    | false =>
      obtain ⟨h₁, hm⟩ := netFindAndDecrypt_other hq hk node.tried _ { s with dup := dup } hmsg
        (hashesIn_tried hlen)
      obtain ⟨-, hs₁, -⟩ := decode_of_found hlen hd hd rfl
      rw [← Nat.succ_mul] at hm
      refine ⟨⟨seen, ?_⟩, seenM, ?_⟩
      · rw [hs₁, h₁]
        exact hp
      · rw [hs₁]
        exact hm

/-- What is returned for the PDUs that stay. -/
def resultsOf (keep : List UInt8 → Bool) (pdus : List (List UInt8))
    (results : List (Except DecodeErr (NetDecoded × List UInt8))) :
    List (Except DecodeErr (NetDecoded × List UInt8)) :=
  ((pdus.zip results).filter fun x => keep x.1).map Prod.snd

/-- The two runs, from the `t`-th PDU on. -/
theorem decode_runs (hu : Undisturbed node keep size all) (pdus : List (List UInt8)) :
    ∀ pre s s', all = pre ++ pdus → Agree node keep size all pre.length s s' →
      resultsOf keep pdus (runCalls (btMeshNetDecode node .adv) s pdus).1 =
        (runCalls (btMeshNetDecode node .adv) s' (pdus.filter keep)).1 := by
  induction pdus with
  | nil =>
    intro pre s s' _ _
    rfl
  | cons data pdus ih =>
    intro pre s s' hall h
    have hq : all[pre.length]? = some data := by
      rw [hall]
      simp
    have hall' : all = (pre ++ [data]) ++ pdus := by
      rw [hall, List.append_assoc]
      rfl
    have hlen : (pre ++ [data]).length = pre.length + 1 := by simp
    cases hk : keep data with
    | true =>
      obtain ⟨hres, hnext⟩ := decode_same h hu hq hk
      have hrest := ih (pre ++ [data]) _ _ hall' (by rw [hlen]; exact hnext)
      unfold resultsOf at hrest ⊢
      simp only [runCalls, List.zip_cons_cons, List.filter_cons, hk, if_true, List.map_cons]
      rw [hrest, hres]
    | false =>
      have hnext := decode_other h (List.mem_of_getElem? hq) hk
      have hrest := ih (pre ++ [data]) _ _ hall' (by rw [hlen]; exact hnext)
      unfold resultsOf at hrest ⊢
      simp only [runCalls, List.zip_cons_cons, List.filter_cons, hk, Bool.false_eq_true, if_false]
      rw [hrest]

/-- **PDUs without a valid MIC have no influence** on the others, as long as they share no cache value
with them and the caches are not overrun between PDUs that share one. -/
theorem unauthenticated_no_influence (hsize : 0 < size) (pdus : List (List UInt8))
    (hu : Undisturbed node (verifies node) size pdus) :
    resultsOf (verifies node) pdus
        (runCalls (btMeshNetDecode node .adv) (netCachesInit size) pdus).1 =
      (runCalls (btMeshNetDecode node .adv) (netCachesInit size) (pdus.filter (verifies node))).1 := by
  refine decode_runs hu pdus [] _ _ rfl ⟨⟨[], ?_⟩, [], ?_⟩
  · exact ⟨RecentRing.tracks_filled hsize (Or.inl rfl), RecentRing.tracks_filled hsize (Or.inl rfl),
      List.length_replicate, List.length_replicate, fun v b hv => (by cases hv)⟩
  · exact ⟨RecentRing.tracks_filled hsize (Or.inl rfl), RecentRing.tracks_filled hsize (Or.inl rfl),
      List.length_replicate, List.length_replicate, fun v b hv => (by cases hv)⟩

/-- A checksum for a MIC, nothing hidden, one subnet with NID 5. -/
def sumNode : NetNode Unit where
  crypto :=
    { obfuscate := fun _ _ pdu => some pdu
      decrypt := fun _ _ _ pdu =>
        if (pdu.take (pdu.length - 1)).sum = pdu.getD (pdu.length - 1) 0 then
          some (pdu.take (pdu.length - 4))
        else none }
  ivIndex := 0
  subs := [⟨0, .normal, ⟨5, (), ()⟩, ⟨6, (), ()⟩⟩]
  isElem := fun _ => false

/-- A PDU from 1 to 2, with a given number, payload byte and 8 last bytes. -/
def shortPdu (seq b : UInt8) (tail : List UInt8) : List UInt8 :=
  [5, 5, 0, 0, seq, 0, 1, 0, 2, b] ++ tail

/-- A PDU that does not verify, one that does, and the latter once more. -/
theorem unauthenticated_no_influence_once :
    ∃ bad good, verifies sumNode bad = false ∧ verifies sumNode good = true ∧
      resultsOf (verifies sumNode) [bad, good, good]
          (runCalls (btMeshNetDecode sumNode .adv) (netCachesInit 4) [bad, good, good]).1 =
        (runCalls (btMeshNetDecode sumNode .adv) (netCachesInit 4)
          ([bad, good, good].filter (verifies sumNode))).1 := by
  obtain ⟨bad, hbad⟩ : ∃ bad, bad = shortPdu 9 7 [0, 0, 0, 0, 0, 0, 0, 1] := ⟨_, rfl⟩
  obtain ⟨good, hgood⟩ : ∃ good, good = shortPdu 1 7 [1, 2, 3, 4, 5, 6, 7, 49] := ⟨_, rfl⟩
  refine ⟨bad, good, by rw [hbad]; decide, by rw [hgood]; decide, ?_⟩
  -- three PDUs are nearer than four slots
  have hnear : ∀ (i j : ℕ) (q q' : List UInt8), i ≤ j → [bad, good, good][i]? = some q →
      [bad, good, good][j]? = some q' → (j + 1 - i) * 1 ≤ 4 := by
    intro i j q q' _ _ hj
    obtain ⟨hlt, -⟩ := List.getElem?_eq_some_iff.1 hj
    simp only [List.length_cons, List.length_nil] at hlt
    omega
  refine unauthenticated_no_influence (by decide) _ ⟨⟨?_, ?_⟩, ?_, ?_⟩
  · rw [hbad, hgood]
    decide
  · intro i j q q' hij hi hj _ _ v _ _
    exact hnear i j q q' hij hi hj
  · rw [hbad, hgood]
    decide
  · intro i j q q' hij hi hj _ _ v _ _
    exact hnear i j q q' hij hi hj

/-- A PDU with the last bytes of one that verifies comes before it: the latter is taken for a
duplicate. -/
theorem unauthenticated_influence : ¬ ∀ size pdus, 0 < size →
    (resultsOf (verifies sumNode) pdus
        (runCalls (btMeshNetDecode sumNode .adv) (netCachesInit size) pdus).1).map Except.toOption =
      (runCalls (btMeshNetDecode sumNode .adv) (netCachesInit size)
        (pdus.filter (verifies sumNode))).1.map Except.toOption := by
  intro h
  have := h 4 [shortPdu 1 8 [1, 2, 3, 4, 5, 6, 7, 49], shortPdu 1 7 [1, 2, 3, 4, 5, 6, 7, 49]] (by decide)
  exact absurd this (by decide)

end Runs

end GenieSdk.Analysis
