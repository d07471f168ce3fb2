import GenieSdk.Model.MeshNet

/-!
# Nonces

Within a power cycle the nonces of a node increase as long as the 24-bit counter does not run out:
`ivUpdate_cases` lists what an IV update can do, and each of its cases moves the next nonce up or
leaves it alone. Across power losses they increase as long as the IV index that was saved is the one
in use, because the saved sequence number is never more than one interval behind.
-/

set_option autoImplicit false

namespace GenieSdk.Analysis

open GenieSdk.Model
open GenieSdk.Lib

section Order

variable {a b c : Nonce}

/-- No nonce comes before itself. -/
theorem Nonce.before_irrefl (a : Nonce) : ¬ a.Before a := by
  unfold Nonce.Before
  omega

/-- Nonces that come one before the other in turn. -/
theorem Nonce.before_trans (h : a.Before b) (h' : b.Before c) : a.Before c := by
  unfold Nonce.Before at *
  omega

end Order

section IvUpdate

variable {t : Bool} {m m' : MeshNet}

/-- What an IV update does. -/
inductive IvStep (m m' : MeshNet) : Prop
  | keep (hiv : m'.ivIndex = m.ivIndex) (hupd : m'.ivUpdate = m.ivUpdate) (hseq : m'.seq = m.seq)
  | enter (hold : m.ivUpdate = false) (hupd : m'.ivUpdate = true)
    (hiv : m'.ivIndex.toNat = m.ivIndex.toNat + 1) (hseq : m'.seq = m.seq)
  | leave (hold : m.ivUpdate = true) (hupd : m'.ivUpdate = false) (hiv : m'.ivIndex = m.ivIndex)
    (hseq : m'.seq = 0)
  | recover (hold : m.ivUpdate = false)
    (hiv : m.ivIndex.toNat + (if m'.ivUpdate then 2 else 1) ≤ m'.ivIndex.toNat) (hseq : m'.seq = 0)

/-- The fields after `do_update`. -/
theorem ivDoUpdate_fields (m : MeshNet) (iv : UInt32) (upd : Bool) (now : ℤ) :
    (ivDoUpdate m iv upd now).ivUpdate = upd ∧
      (ivDoUpdate m iv upd now).ivIndex = (if upd then iv else m.ivIndex) ∧
      (ivDoUpdate m iv upd now).seq = (if upd then m.seq else 0) ∧
      (ivDoUpdate m iv upd now).valid = m.valid := by
  unfold ivDoUpdate
  cases upd with
  | true => exact ⟨rfl, rfl, rfl, rfl⟩
  | false => exact ⟨rfl, rfl, rfl, rfl⟩

/-- A change is refused, deferred or made. -/
theorem ivChange_cases (t : Bool) (m : MeshNet) (iv : UInt32) (upd : Bool) (now : ℤ) (busy : Bool) :
    (ivChange t m iv upd now busy).2 = m ∨
      (ivChange t m iv upd now busy).2 = { m with pendingUpdate := true } ∨
      (ivChange t m iv upd now busy).2 = ivDoUpdate m iv upd now := by
  unfold ivChange
  split
  · exact Or.inl rfl
  · split
    · exact Or.inr (Or.inl rfl)
    · exact Or.inr (Or.inr rfl)

/-- A change in a state where it is due. -/
theorem ivChange_step {iv : UInt32} {upd : Bool} {now : ℤ} {busy : Bool}
    (hdo : IvStep m (ivDoUpdate m iv upd now)) : IvStep m (ivChange t m iv upd now busy).2 := by
  obtain h | h | h := ivChange_cases t m iv upd now busy
  · rw [h]
    exact .keep rfl rfl rfl
  · rw [h]
    exact .keep rfl rfl rfl
  · rw [h]
    exact hdo

/-- A recovery moves the transmit index up. -/
theorem ivRecover_step {iv : UInt32} {upd : Bool} {now : ℤ} (hold : m.ivUpdate = false)
    (hiv : m.ivIndex.toNat + (if upd then 2 else 1) ≤ iv.toNat) :
    IvStep m (ivDoUpdate (ivRecover m iv) iv upd now) := by
  obtain ⟨hupd', hiv', hseq', -⟩ := ivDoUpdate_fields (ivRecover m iv) iv upd now
  refine .recover hold ?_ ?_
  · rw [hupd', hiv']
    show _ ≤ (if upd then iv else iv).toNat
    rw [ite_self]
    exact hiv
  · rw [hseq']
    show (if upd then 0 else 0) = 0
    rw [ite_self]

/-- **What an IV update can do.** -/
theorem ivUpdate_cases (t : Bool) (m : MeshNet) (iv : UInt32) (upd : Bool) (now : ℤ)
    (busy : Bool) : IvStep m (btMeshNetIvUpdate t m iv upd now busy).2 := by
  have hkeep : IvStep m m := .keep rfl rfl rfl
  unfold btMeshNetIvUpdate
  split
  case isTrue hold =>
    split
    case isTrue => exact hkeep
    case isFalse hsame =>
      split
      case isTrue => exact hkeep
      case isFalse hupd =>
        rw [Bool.not_eq_true] at hupd
        subst hupd
        apply ivChange_step
        obtain ⟨hupd', hiv', hseq', -⟩ := ivDoUpdate_fields m iv false now
        exact .leave hold hupd' hiv' hseq'
  case isFalse hold =>
    rw [Bool.not_eq_true] at hold
    have hplus : (m.ivIndex + 1).toNat = (m.ivIndex.toNat + 1) % 2 ^ 32 := by
      rw [UInt32.toNat_add]
      rfl
    have hbound := m.ivIndex.toNat_lt
    have hbound' := iv.toNat_lt
    split
    case isTrue => exact hkeep
    case isFalse hne =>
      have hne' : iv.toNat ≠ m.ivIndex.toNat := fun h => hne (UInt32.toNat_inj.1 h)
      split
      case isTrue => exact hkeep
      case isFalse hrange =>
        have hlow : m.ivIndex.toNat ≤ iv.toNat := by
          rw [not_or, UInt32.lt_iff_toNat_lt] at hrange
          exact not_lt.1 hrange.1
        split
        case isTrue hfar =>
          rw [UInt32.lt_iff_toNat_lt, hplus] at hfar
          apply ivRecover_step hold
          split <;> omega
        case isFalse =>
          split
          case isTrue hnext =>
            apply ivRecover_step hold
            rw [if_neg hnext.2]
            omega
          case isFalse =>
            split
            case isTrue => exact hkeep
            case isFalse hupd =>
              rw [not_not] at hupd
              subst hupd
              split
              case isTrue => exact hkeep
              case isFalse hnext =>
                rw [not_not] at hnext
                apply ivChange_step
                obtain ⟨hupd', hiv', hseq', -⟩ := ivDoUpdate_fields m iv true now
                refine .enter hold hupd' ?_ hseq'
                rw [hiv', if_pos rfl]
                have := congrArg UInt32.toNat hnext
                omega

/-- An IV update does not unprovision. -/
theorem ivUpdate_valid (t : Bool) (m : MeshNet) (iv : UInt32) (upd : Bool) (now : ℤ)
    (busy : Bool) : (btMeshNetIvUpdate t m iv upd now busy).2.valid = m.valid := by
  have hchange : ∀ upd, (ivChange t m iv upd now busy).2.valid = m.valid := by
    intro upd
    obtain h | h | h := ivChange_cases t m iv upd now busy
    · rw [h]
    · rw [h]
    · rw [h]
      exact (ivDoUpdate_fields m iv upd now).2.2.2
  unfold btMeshNetIvUpdate
  split_ifs
  all_goals first
    | rfl
    | exact hchange _
    | exact (ivDoUpdate_fields (ivRecover m iv) iv upd now).2.2.2

/-- The transmit index would be below 0. -/
def MeshNet.Under (m : MeshNet) : Prop := m.ivUpdate = true ∧ m.ivIndex = 0

instance (m : MeshNet) : Decidable (MeshNet.Under m) := inferInstanceAs (Decidable (_ ∧ _))

/-- The transmit index as a number. -/
theorem toNat_iviTx (h : ¬ MeshNet.Under m) :
    m.iviTx.toNat + (if m.ivUpdate then 1 else 0) = m.ivIndex.toNat := by
  unfold MeshNet.iviTx
  cases hupd : m.ivUpdate with
  | false => simp
  | true =>
    have hne : m.ivIndex ≠ 0 := fun h0 => h ⟨hupd, h0⟩
    have hpos : 1 ≤ m.ivIndex.toNat := by
      have : m.ivIndex.toNat ≠ 0 := fun h0 => hne (UInt32.toNat_inj.1 h0)
      omega
    have hle : (1 : UInt32) ≤ m.ivIndex := UInt32.le_iff_toNat_le.2 hpos
    simp only [if_true]
    rw [UInt32.toNat_sub_of_le _ _ hle]
    show m.ivIndex.toNat - 1 + 1 = _
    omega

/-- **The next nonce** never goes down. -/
theorem IvStep.nonce (h : IvStep m m') (hunder : ¬ MeshNet.Under m) :
    ¬ MeshNet.Under m' ∧ (m'.nonce = m.nonce ∨ m.nonce.Before m'.nonce) := by
  have htx := toNat_iviTx hunder
  cases h with
  | keep hiv hupd hseq =>
    refine ⟨by unfold MeshNet.Under; rw [hiv, hupd]; exact hunder, Or.inl ?_⟩
    unfold MeshNet.nonce MeshNet.iviTx
    rw [hiv, hupd, hseq]
  | enter hold hupd hiv hseq =>
    have hunder' : ¬ MeshNet.Under m' := by
      rintro ⟨-, h0⟩
      rw [h0] at hiv
      simp at hiv
    have htx' := toNat_iviTx hunder'
    refine ⟨hunder', Or.inl ?_⟩
    simp only [hold, hupd, if_true] at htx htx'
    unfold MeshNet.nonce
    rw [hseq]
    congr 1
    simp at htx
    omega
  | leave hold hupd hiv hseq =>
    have hunder' : ¬ MeshNet.Under m' := by
      rintro ⟨h1, -⟩
      rw [hupd] at h1
      cases h1
    have htx' := toNat_iviTx hunder'
    refine ⟨hunder', Or.inr (Or.inl ?_)⟩
    simp only [hold, if_true] at htx
    simp [hupd] at htx'
    rw [hiv] at htx'
    show m.iviTx.toNat < m'.iviTx.toNat
    omega
  | recover hold hiv hseq =>
    have hunder' : ¬ MeshNet.Under m' := by
      rintro ⟨-, h0⟩
      rw [h0] at hiv
      simp at hiv
      split at hiv <;> omega
    have htx' := toNat_iviTx hunder'
    refine ⟨hunder', Or.inr (Or.inl ?_)⟩
    simp [hold] at htx
    show m.iviTx.toNat < m'.iviTx.toNat
    split at htx'
    case isTrue h =>
      simp only [h, if_true] at hiv
      omega
    case isFalse h =>
      simp only [h] at hiv
      simp at hiv
      omega

end IvUpdate

section PowerCycle

variable {t : Bool} {s s' : MeshNode}

/-- The nonces that were used increase, and the next one is above them. -/
structure Fresh (s : MeshNode) : Prop where
  increasing : s.used.Pairwise Nonce.Before
  below : ∀ n ∈ s.used, n.Before s.net.nonce
  unused : MeshNet.Under s.net → s.used = []

/-- The call encrypts a PDU. -/
def Encrypts : NetEvent → Prop
  | .encode ctl tailroom => ¬ (ctl = true ∧ tailroom < 8) ∧ ¬ tailroom < 4
  | .resend decrypted _ _ _ => decrypted = true
  | .ivUpdate _ _ _ _ => False

instance (e : NetEvent) : Decidable (Encrypts e) :=
  match e with
  | .encode _ _ => inferInstanceAs (Decidable (_ ∧ _))
  | .resend _ _ _ _ => inferInstanceAs (Decidable (_ = _))
  | .ivUpdate _ _ _ _ => isFalse id

/-- A PDU is encrypted only while the counter does not wrap and the transmit index is not below 0. -/
def Room (s : MeshNode) (e : NetEvent) : Prop :=
  Encrypts e → s.net.seq + 1 < 2 ^ 24 ∧ ¬ MeshNet.Under s.net

instance (s : MeshNode) (e : NetEvent) : Decidable (Room s e) :=
  inferInstanceAs (Decidable (_ → _))

/-- An IV update keeps the order. -/
theorem Fresh.iv (h : Fresh s) {m : MeshNet} (hstep : IvStep s.net m) :
    Fresh { s with net := m } := by
  by_cases hunder : MeshNet.Under s.net
  · have hnil := h.unused hunder
    refine ⟨h.increasing, ?_, fun _ => hnil⟩
    intro n hn
    rw [show s.used = [] from hnil] at hn
    cases hn
  · obtain ⟨hunder', hnonce⟩ := hstep.nonce hunder
    refine ⟨h.increasing, ?_, fun hu => absurd hu hunder'⟩
    intro n hn
    obtain heq | hbefore := hnonce
    · show n.Before m.nonce
      rw [heq]
      exact h.below n hn
    · exact Nonce.before_trans (h.below n hn) hbefore

/-- The nonce that is used, and the one after it. -/
theorem Fresh.use (h : Fresh s) (hroom : s.net.seq + 1 < 2 ^ 24) (hunder : ¬ MeshNet.Under s.net) :
    Fresh { nextSeq s with used := s.used ++ [s.net.nonce] } := by
  have hnext : s.net.nonce.Before (nextSeq s).net.nonce := by
    refine Or.inr ⟨rfl, ?_⟩
    show s.net.seq < (s.net.seq + 1) % 2 ^ 24
    rw [Nat.mod_eq_of_lt hroom]
    exact Nat.lt_succ_self _
  refine ⟨?_, ?_, fun hu => absurd hu hunder⟩
  · refine List.pairwise_append.2 ⟨h.increasing, List.pairwise_singleton _ _, ?_⟩
    intro n hn n' hn'
    rw [List.mem_singleton.1 hn']
    exact h.below n hn
  · intro n hn
    obtain hn | hn := List.mem_append.1 hn
    · exact Nonce.before_trans (h.below n hn) hnext
    · rw [List.mem_singleton.1 hn]
      exact hnext

/-- **Every call** keeps the nonces increasing. -/
theorem Fresh.step (h : Fresh s) {e : NetEvent} (hroom : Room s e) : Fresh (netEvent t s e) := by
  cases e with
  | encode ctl tailroom =>
    simp only [netEvent, btMeshNetEncode]
    split
    case isTrue => exact h
    case isFalse hctl =>
      split
      case isTrue => exact h
      case isFalse htail =>
        obtain ⟨hseq, hunder⟩ := hroom ⟨hctl, htail⟩
        exact h.use hseq hunder
  | resend decrypted encrypted now txInProgress =>
    simp only [netEvent, btMeshNetResend]
    split
    case isTrue => exact h
    case isFalse hdec =>
      obtain ⟨hseq, hunder⟩ := hroom (not_not.1 hdec)
      split
      case isTrue => exact h.use hseq hunder
      case isFalse =>
      split
      case isTrue =>
        refine Fresh.iv (h.use hseq hunder) ?_
        -- the flag of the initiator plays no part
        have hiv := ivUpdate_cases t { (nextSeq s).net with ivuInitiator := true }
          ((nextSeq s).net.ivIndex + 1) true now txInProgress
        cases hiv with
        | keep hiv hupd hseq => exact .keep hiv hupd hseq
        | enter hold hupd hiv hseq => exact .enter hold hupd hiv hseq
        | leave hold hupd hiv hseq => exact .leave hold hupd hiv hseq
        | recover hold hiv hseq => exact .recover hold hiv hseq
      case isFalse => exact h.use hseq hunder
  | ivUpdate iv upd now txInProgress => exact h.iv (ivUpdate_cases t s.net iv upd now txInProgress)

/-- One call. -/
def callStep (t : Bool) (s : MeshNode) (e : NetEvent) : Option MeshNode := some (netEvent t s e)

/-- **Nonces increase** within a power cycle as long as the counter does not run out. -/
theorem nonces_increase (t : Bool) (s₀ s : MeshNode) (evs : List NetEvent) (hstart : s₀.used = [])
    (hroom : StepsMeet (callStep t) Room s₀ evs) (hrun : runSteps (callStep t) s₀ evs = some s) :
    s.used.Pairwise Nonce.Before ∧ ∀ n ∈ s.used, n.Before s.net.nonce := by
  have h₀ : Fresh s₀ := by
    refine ⟨?_, ?_, fun _ => hstart⟩
    · rw [hstart]
      exact List.Pairwise.nil
    · rw [hstart]
      intro n hn
      cases hn
  have h : Fresh s := runSteps_inv (fun s e s' h hroom hc => by
    cases hc
    exact h.step hroom) h₀ hroom hrun
  exact ⟨h.increasing, h.below⟩

/-- Two PDUs, an IV update that starts and ends, and a third PDU. -/
theorem nonces_increase_update : ∃ s, runSteps (callStep false) (meshProvisioned 4 0 7 0)
      [.encode false 4, .encode true 8, .ivUpdate 8 true 400000000 false,
        .ivUpdate 8 false 800000000 false, .encode false 4] = some s ∧
      s.used = [⟨7, 0⟩, ⟨7, 1⟩, ⟨8, 0⟩] ∧ s.used.Pairwise Nonce.Before := by
  obtain ⟨s, hrun, hused⟩ : ∃ s, runSteps (callStep false) (meshProvisioned 4 0 7 0)
      [.encode false 4, .encode true 8, .ivUpdate 8 true 400000000 false,
        .ivUpdate 8 false 800000000 false, .encode false 4] = some s ∧
      s.used = [⟨7, 0⟩, ⟨7, 1⟩, ⟨8, 0⟩] := ⟨_, rfl, by decide⟩
  exact ⟨s, hrun, hused,
    (nonces_increase false _ s _ rfl (by decide) hrun).1⟩

/-- `n` sends use `n` numbers and wrap. -/
theorem encode_run (t : Bool) (n : ℕ) : ∀ s : MeshNode, s.net.seq < 2 ^ 24 →
    ∃ s', runSteps (callStep t) s (List.replicate n (.encode false 4)) = some s' ∧
      s'.used = s.used ++
        (List.range n).map fun i => ⟨s.net.iviTx.toNat, (s.net.seq + i) % 2 ^ 24⟩ := by
  induction n with
  | zero =>
    intro s _
    exact ⟨s, rfl, by simp⟩
  | succ n ih =>
    intro s hseq
    obtain ⟨s', hrun, hused⟩ := ih (netEvent t s (.encode false 4)) (Nat.mod_lt _ (by norm_num))
    refine ⟨s', by rw [List.replicate_succ, runSteps]; exact hrun, ?_⟩
    rw [hused, List.range_succ_eq_map, List.map_cons, List.map_map]
    show (s.used ++ [s.net.nonce]) ++ _ = _
    rw [List.append_assoc, List.singleton_append]
    congr 2
    · unfold MeshNet.nonce
      rw [Nat.add_zero, Nat.mod_eq_of_lt hseq]
    · apply List.map_congr_left
      intro i _
      show Nonce.mk s.net.iviTx.toNat (((s.net.seq + 1) % 2 ^ 24 + i) % 2 ^ 24) =
        Nonce.mk s.net.iviTx.toNat ((s.net.seq + (i + 1)) % 2 ^ 24)
      congr 1
      omega

/-- The send path never starts an IV update: number 0 is used again after `2 ^ 24` sends. -/
theorem nonces_wrap : ¬ ∀ t s₀ evs s, s₀.used = [] → runSteps (callStep t) s₀ evs = some s →
    s.used.Pairwise Nonce.Before := by
  intro h
  obtain ⟨s, hrun, hused⟩ := encode_run false (2 ^ 24 + 1) (meshProvisioned 4 0 0 0)
    (show 0 % 2 ^ 24 < 2 ^ 24 by norm_num)
  have hpair := h false _ _ s rfl hrun
  rw [hused, List.pairwise_append] at hpair
  obtain ⟨-, hpair, -⟩ := hpair
  rw [List.pairwise_map] at hpair
  have hlt := List.pairwise_iff_getElem.1 hpair 0 (2 ^ 24) (by simp) (by simp) (by norm_num)
  rw [List.getElem_range, List.getElem_range] at hlt
  exact Nonce.before_irrefl _ hlt

end PowerCycle

section Restarts

variable {t : Bool} {crpl : ℕ} {s s' : MeshNode} {kv : GenieKv}

/-- The saved number is at most one interval behind. -/
def Saved (kv : GenieKv) (seq : ℕ) : Prop :=
  ∀ v, kv.seq = some v → seq / genieSeqSaveInterval ≤ v / genieSeqSaveInterval

/-- A number that is not saved lies in the interval of the last one. -/
theorem Saved.write (h : Saved kv s.net.seq) (hroom : s.net.seq + 1 < 2 ^ 24) :
    Saved (genieEventHandleSeqUpdate kv (s.net.seq + 1)) (s.net.seq + 1) := by
  unfold genieEventHandleSeqUpdate genieStorageWriteSeq
  split
  case isTrue hskip =>
    intro v hv
    have hle := h v hv
    unfold genieSeqSaveInterval at *
    omega
  case isFalse =>
    intro v hv
    cases hv
    rw [Nat.mod_eq_of_lt hroom]

/-- What `nextSeq` saves is no further behind the number before it. -/
theorem Saved.loss (h : Saved s.kv s.net.seq) (hroom : s.net.seq + 1 < 2 ^ 24) :
    Saved (nextSeq s).kv (s.net.seq + 1) ∧ Saved (nextSeq s).kv s.net.seq := by
  have hnext : Saved (nextSeq s).kv (s.net.seq + 1) := by
    show Saved (genieEventHandleSeqUpdate s.kv ((s.net.seq + 1) % 2 ^ 24)) _
    rw [Nat.mod_eq_of_lt hroom]
    exact h.write hroom
  refine ⟨hnext, fun v hv => (Nat.div_le_div_right (Nat.le_succ _)).trans (hnext v hv)⟩

/-- There is enough in the store for a start. -/
structure Restorable (kv : GenieKv) : Prop where
  addr : kv.addr = true
  seq : kv.seq ≠ none
  devkey : kv.devkey = true
  netkey : kv.netkey ≠ none
  appkey : kv.appkey = true

/-- What is read from the store. -/
theorem getSavedData_cases (kv : GenieKv) :
    (¬ Restorable kv ∧ (genieProvisionGetSavedData kv).1 = none ∧
      ¬ Restorable (genieProvisionGetSavedData kv).2) ∨
    ∃ v netkey, Restorable kv ∧ kv.seq = some v ∧
      genieProvisionGetSavedData kv = (some ⟨v + genieSeqSaveInterval, netkey⟩,
        { kv with seq := some ((v + genieSeqSaveInterval) % 2 ^ 24) }) := by
  unfold genieProvisionGetSavedData
  split
  case isTrue haddr =>
    have hno : ¬ Restorable kv := fun h => haddr h.addr
    exact Or.inl ⟨hno, rfl, hno⟩
  case isFalse haddr =>
    unfold genieStorageReadSeq
    cases hseq : kv.seq with
    | none =>
      have hno : ¬ Restorable kv := fun h => h.seq hseq
      exact Or.inl ⟨hno, rfl, hno⟩
    | some v =>
      have hwrite : genieStorageWriteSeq kv (v + genieSeqSaveInterval) true =
          { kv with seq := some ((v + genieSeqSaveInterval) % 2 ^ 24) } := by
        unfold genieStorageWriteSeq
        rw [if_neg (by simp)]
      simp only [hwrite]
      split
      case isTrue hdev =>
        exact Or.inl ⟨fun h => hdev h.devkey, rfl, fun h => hdev h.devkey⟩
      case isFalse hdev =>
        cases hkey : kv.netkey with
        | none =>
          exact Or.inl ⟨fun h => h.netkey hkey, rfl, fun h => h.netkey rfl⟩
        | some netkey =>
          simp only
          split
          case isTrue happ =>
            exact Or.inl ⟨fun h => happ h.appkey, rfl, fun h => happ h.appkey⟩
          case isFalse happ =>
            refine Or.inr ⟨v, netkey, ⟨not_not.1 haddr, ?_, not_not.1 hdev, ?_, not_not.1 happ⟩,
              rfl, rfl⟩
            · rw [hseq]
              exact Option.some_ne_none v
            · rw [hkey]
              exact Option.some_ne_none netkey

/-- What holds of a node along its life. -/
structure NodeFresh (s : MeshNode) : Prop where
  increasing : s.used.Pairwise Nonce.Before
  alive : s.net.valid = true → Fresh s ∧ Saved s.kv s.net.seq
  dead : s.net.valid = false → s.provisionState = .unprov ∧ ¬ Restorable s.kv

/-- No number is taken when the counter would wrap, and power is lost only while the IV index that is
saved is the one in use. -/
def Safe (s : MeshNode) : NodeEvent → Prop
  | .net e => Room s e
  | .appkeyAdd _ => True
  | .powerLoss loss _ =>
    (loss = .seqSaved → s.net.seq + 1 < 2 ^ 24) ∧
      match (genieProvisionGetSavedData (loss.kv s)).1 with
      | none => True
      | some p => p.netkey.ivi = s.net.ivIndex ∧ btMeshIvUpdate p.netkey.flag = s.net.ivUpdate ∧
          p.seq < 2 ^ 24

instance (s : MeshNode) (e : NodeEvent) : Decidable (Safe s e) :=
  match e with
  | .net e => inferInstanceAs (Decidable (Room s e))
  | .appkeyAdd _ => isTrue trivial
  | .powerLoss loss _ =>
    match h : (genieProvisionGetSavedData (loss.kv s)).1 with
    | none => decidable_of_iff (loss = .seqSaved → s.net.seq + 1 < 2 ^ 24) (by simp [Safe, h])
    | some p =>
      decidable_of_iff ((loss = .seqSaved → s.net.seq + 1 < 2 ^ 24) ∧
        p.netkey.ivi = s.net.ivIndex ∧ btMeshIvUpdate p.netkey.flag = s.net.ivUpdate ∧
          p.seq < 2 ^ 24) (by simp [Safe, h])

/-- An IV update resets the number or leaves it alone. -/
theorem IvStep.seq_le {m m' : MeshNet} (h : IvStep m m') : m'.seq ≤ m.seq := by
  cases h with
  | keep _ _ hseq => exact hseq.le
  | enter _ _ _ hseq => exact hseq.le
  | leave _ _ _ hseq => exact hseq.le.trans (Nat.zero_le _)
  | recover _ _ hseq => exact hseq.le.trans (Nat.zero_le _)

/-- A smaller number is saved as well. -/
theorem Saved.mono {n n' : ℕ} (h : Saved kv n) (hle : n' ≤ n) : Saved kv n' :=
  fun v hv => (Nat.div_le_div_right hle).trans (h v hv)

/-- Every call saves the number in time. -/
theorem Saved.step (h : Saved s.kv s.net.seq) {e : NetEvent} (hroom : Room s e) :
    Saved (netEvent t s e).kv (netEvent t s e).net.seq ∧
      (netEvent t s e).net.valid = s.net.valid ∧
      (netEvent t s e).provisionState = s.provisionState := by
  have huse : s.net.seq + 1 < 2 ^ 24 → Saved (nextSeq s).kv (nextSeq s).net.seq := by
    intro hseq
    show Saved (nextSeq s).kv ((s.net.seq + 1) % 2 ^ 24)
    rw [Nat.mod_eq_of_lt hseq]
    exact (h.loss hseq).1
  cases e with
  | encode ctl tailroom =>
    simp only [netEvent, btMeshNetEncode]
    split
    case isTrue => exact ⟨h, rfl, rfl⟩
    case isFalse hctl =>
      split
      case isTrue => exact ⟨h, rfl, rfl⟩
      case isFalse htail => exact ⟨huse (hroom ⟨hctl, htail⟩).1, rfl, rfl⟩
  | resend decrypted encrypted now txInProgress =>
    simp only [netEvent, btMeshNetResend]
    split
    case isTrue => exact ⟨h, rfl, rfl⟩
    case isFalse hdec =>
      have hsaved := huse (hroom (not_not.1 hdec)).1
      split
      case isTrue => exact ⟨hsaved, rfl, rfl⟩
      case isFalse =>
      split
      case isTrue =>
        exact ⟨hsaved.mono (ivUpdate_cases t _ _ _ _ _).seq_le, ivUpdate_valid t _ _ _ _ _, rfl⟩
      case isFalse => exact ⟨hsaved, rfl, rfl⟩
  | ivUpdate iv upd now txInProgress =>
    exact ⟨h.mono (ivUpdate_cases t s.net iv upd now txInProgress).seq_le,
      ivUpdate_valid t s.net iv upd now txInProgress, rfl⟩

/-- What the power loss leaves in the store is not further behind. -/
theorem Saved.powerLoss (h : Saved s.kv s.net.seq) {loss : PowerLoss}
    (hroom : loss = .seqSaved → s.net.seq + 1 < 2 ^ 24) : Saved (loss.kv s) s.net.seq := by
  cases loss with
  | idle => exact h
  | seqSaved =>
    simp only [PowerLoss.kv]
    split
    · exact (h.loss (hroom rfl)).2
    · exact h
  | appkeyAdd writes =>
    have hseq : (PowerLoss.kv s (.appkeyAdd writes)).seq = s.kv.seq := by
      simp only [PowerLoss.kv, appkeyAddWrites]
      split_ifs <;> rfl
    intro v hv
    exact h v (hseq.symm.trans hv)

/-- A node that does not start stays so. -/
theorem loss_dead (hstate : s.provisionState = .unprov) (hvalid : s.net.valid = false)
    (loss : PowerLoss) : loss.kv s = s.kv := by
  cases loss with
  | idle => rfl
  | seqSaved => simp [PowerLoss.kv, hvalid]
  | appkeyAdd writes => simp [PowerLoss.kv, hstate]

/-- **Every event** that is safe keeps the nonces increasing. -/
theorem NodeFresh.step (h : NodeFresh s) {e : NodeEvent} (hsafe : Safe s e)
    (hc : nodeStep t crpl s e = some s') : NodeFresh s' := by
  cases e with
  | net e =>
    simp only [nodeStep] at hc
    split at hc
    case isFalse => cases hc
    case isTrue hvalid =>
      cases hc
      obtain ⟨hfresh, hsaved⟩ := h.alive hvalid
      obtain ⟨hsaved', hvalid', -⟩ := hsaved.step hsafe
      have hfresh' : Fresh (netEvent t s e) := hfresh.step hsafe
      refine ⟨hfresh'.increasing, fun _ => ⟨hfresh', hsaved'⟩, ?_⟩
      rw [hvalid', hvalid]
      intro hf
      cases hf
  | appkeyAdd status =>
    simp only [nodeStep] at hc
    split at hc
    case isFalse => cases hc
    case isTrue hvalid =>
      obtain ⟨hfresh, hsaved⟩ := h.alive hvalid
      cases hc
      unfold genieEventHandleAppkeyAdd
      split
      case isFalse => exact h
      case isTrue =>
        split
        case isTrue =>
          refine ⟨h.increasing, fun _ => ⟨⟨hfresh.increasing, hfresh.below, hfresh.unused⟩,
            hsaved⟩, ?_⟩
          rw [show _ = true from hvalid]
          intro hf
          cases hf
        case isFalse =>
          refine ⟨h.increasing, fun hf => (by cases hf), fun _ => ⟨rfl, fun hr => ?_⟩⟩
          cases hr.addr
  | powerLoss loss now =>
    cases hc
    unfold genieMeshStart
    obtain ⟨hno, hnone, hno'⟩ | ⟨v, netkey, hyes, hseq, hsome⟩ :=
      getSavedData_cases (loss.kv s)
    · have heq : genieProvisionGetSavedData (loss.kv s) =
          (none, (genieProvisionGetSavedData (loss.kv s)).2) := Prod.ext hnone rfl
      rw [heq]
      exact ⟨h.increasing, fun hf => (by cases hf), fun _ => ⟨rfl, hno'⟩⟩
    · obtain ⟨hroom, hmatch⟩ := hsafe
      rw [hsome] at hmatch ⊢
      obtain ⟨hiv, hupd, hlt⟩ := hmatch
      cases hvalid : s.net.valid with
      | false =>
        obtain ⟨hstate, hdead⟩ := h.dead hvalid
        rw [loss_dead hstate hvalid] at hyes
        exact absurd hyes hdead
      | true =>
        obtain ⟨hfresh, hsaved⟩ := h.alive hvalid
        have hsaved' : Saved (loss.kv s) s.net.seq := hsaved.powerLoss hroom
        have hle := hsaved' v hseq
        have hmod : (v + genieSeqSaveInterval) % 2 ^ 24 = v + genieSeqSaveInterval :=
          Nat.mod_eq_of_lt hlt
        -- the same transmit index with a number above all that were used
        have hafter : s.net.seq < v + genieSeqSaveInterval := by
          unfold genieSeqSaveInterval at *
          omega
        refine ⟨h.increasing, fun _ => ⟨⟨h.increasing, ?_, ?_⟩, ?_⟩, fun hf => (by cases hf)⟩
        · intro n hn
          refine Nonce.before_trans (hfresh.below n hn) (Or.inr ⟨?_, ?_⟩)
          · show s.net.iviTx.toNat = (netkey.ivi - (if btMeshIvUpdate netkey.flag then 1 else 0)).toNat
            rw [hiv, hupd]
            rfl
          · show s.net.seq < (v + genieSeqSaveInterval) % 2 ^ 24
            rw [hmod]
            exact hafter
        · rintro ⟨h₁, h₂⟩
          exact hfresh.unused ⟨hupd.symm.trans h₁, hiv.symm.trans h₂⟩
        · intro v' hv'
          cases hv'
          exact le_rfl

/-- **No nonce is used twice**, also across power losses, as long as the counter does not run out and
power is lost only while the IV index that is saved is the one in use. -/
theorem nonce_unique (t : Bool) (crpl flags : ℕ) (iv : UInt32) (now : ℤ) (evs : List NodeEvent)
    (s : MeshNode) (hsafe : StepsMeet (nodeStep t crpl) Safe (meshProvisioned crpl flags iv now) evs)
    (hrun : runSteps (nodeStep t crpl) (meshProvisioned crpl flags iv now) evs = some s) :
    s.used.Nodup := by
  have h₀ : NodeFresh (meshProvisioned crpl flags iv now) := by
    refine ⟨List.Pairwise.nil, fun _ => ⟨⟨List.Pairwise.nil, ?_, fun _ => rfl⟩, ?_⟩,
      fun hf => (by cases hf)⟩
    · intro n hn
      cases hn
    · intro v hv
      cases hv
  have h : NodeFresh s := runSteps_inv (fun _ _ _ h hsafe hc => h.step hsafe hc) h₀ hsafe hrun
  refine h.increasing.imp ?_
  rintro a b hab rfl
  exact Nonce.before_irrefl a hab

/-- Provisioned with IV index 0: after a power loss the node goes on 100 numbers later. -/
theorem nonce_unique_restart : ∃ s, runSteps (nodeStep false 4) (meshProvisioned 4 0 0 0)
      [.net (.encode false 4), .appkeyAdd 0, .powerLoss .idle 0, .net (.encode false 4)] = some s ∧
      s.used = [⟨0, 0⟩, ⟨0, 101⟩] ∧ s.used.Nodup := by
  obtain ⟨s, hrun, hused⟩ : ∃ s, runSteps (nodeStep false 4) (meshProvisioned 4 0 0 0)
      [.net (.encode false 4), .appkeyAdd 0, .powerLoss .idle 0, .net (.encode false 4)] = some s ∧
      s.used = [⟨0, 0⟩, ⟨0, 101⟩] := ⟨_, rfl, by decide⟩
  exact ⟨s, hrun, hused, nonce_unique false 4 0 0 0 _ s (by decide) hrun⟩

/-- Provisioned with IV index 5: after a power loss the node starts with IV index 0, a beacon makes it
recover index 5, and it counts from 0 again. -/
theorem nonce_reused : ¬ ∀ t crpl flags iv now evs s,
    runSteps (nodeStep t crpl) (meshProvisioned crpl flags iv now) evs = some s →
    s.used.length < 2 ^ 24 → s.used.Nodup := by
  intro h
  obtain ⟨s, hrun, hused⟩ : ∃ s, runSteps (nodeStep false 4) (meshProvisioned 4 0 5 0)
      [.net (.encode false 4), .appkeyAdd 0, .powerLoss .idle 0, .net (.ivUpdate 5 false 10 false),
        .net (.encode false 4)] = some s ∧ s.used = [⟨5, 0⟩, ⟨5, 0⟩] := ⟨_, rfl, by decide⟩
  have hnodup := h false 4 0 5 0 _ s hrun (by rw [hused]; decide)
  rw [hused] at hnodup
  exact absurd hnodup (by decide)

end Restarts

end GenieSdk.Analysis
