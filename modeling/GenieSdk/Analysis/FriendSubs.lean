import GenieSdk.Lib.Runs
import GenieSdk.Lib.SetRequests
import GenieSdk.Model.Friendship

/-!
# Friend and LPN agree on subscriptions

While the LPN has no request out, the Friend's `sub_list` should hold the groups that the LPN has
marked as added. A retry has a new transaction number, and the Friend handles it as a new request:
an Add that is handled twice takes two slots, and one Remove frees one of them. A retry is also put
together anew: it can leave out groups of the attempt before, or not be sent at all. **Where the
Friend holds no group twice when it is to remove it, and a retry leaves nothing out that is still
open, the two sides agree** (`subscriptions_agree`).
-/

set_option autoImplicit false

namespace GenieSdk.Analysis

open GenieSdk.Lib GenieSdk.Model

/-! ## What is claimed -/

/-- The group addresses in the Friend's `sub_list`. -/
def subscribed (subList : List ℕ) : Set ℕ := {a | a ∈ subList ∧ a ≠ addrUnassigned}

/-- The groups the LPN has marked as added. -/
def addedGroups (groups : List LpnGroup) : Set ℕ := {a | ∃ g ∈ groups, g.added = true ∧ g.group = a}

def pendingGroups (groups : List LpnGroup) : Set ℕ :=
  {a | ∃ g ∈ groups, g.pending = true ∧ g.group = a}

/-- No two entries of `groups` hold the same group. -/
def GroupsDistinct (groups : List LpnGroup) : Prop :=
  groups.Pairwise fun g h => g.group = h.group → g.group = addrUnassigned

instance (groups : List LpnGroup) : Decidable (GroupsDistinct groups) :=
  inferInstanceAs (Decidable (List.Pairwise _ _))

/-- A friendship that has just been established: the LPN may have groups from before, none of them
is known to the Friend, and there has been no subscription request. -/
structure Established (s : Friendship) : Prop where
  groups : ∀ g ∈ s.lpn.groups, g.added = false ∧ g.pending = false
  distinct : GroupsDistinct s.lpn.groups
  sentReq : ∀ op, s.lpn.sentReq ≠ .sub op
  air : ∀ op xact addrList, s.air ≠ some (.sub op xact addrList)
  subList : ∀ a ∈ s.frnd.subList, a = addrUnassigned
  last : ∀ xact, s.frnd.last ≠ some (.subCfm xact)

/-- The Friend hears a request that the LPN still waits for: an Add that fits into its list, or a
Remove of groups that it holds once. -/
def HearOk (op : SubOp) (addrList : List ℕ) (s : Friendship) : Prop :=
  s.lpn.sentReq = .sub op ∧
    match op with
    | .add => ∀ a ∈ addrList.drop (s.frnd.subList.count addrUnassigned), a ∈ s.frnd.subList
    | .rem => ∀ a ∈ addrList, s.frnd.subList.count a ≤ 1

/-- The Friend has done nothing for the groups that are pending. -/
def GiveUpOk (s : Friendship) : Prop :=
  ∀ g ∈ s.lpn.groups, g.pending = true → (g.group ∈ s.frnd.subList ↔ g.added = true)

/-- The Friend has done a request for this group. -/
def DoneFor : SubOp → List ℕ → ℕ → Prop
  | .add, subList, a => a ∈ subList
  | .rem, subList, a => a ∉ subList

/-- A retry is sent and has all pending groups that the Friend has still to do, or it is not sent
and the Friend has done nothing yet. -/
def RetryOk (ok : CtlSend) (op : SubOp) (s : Friendship) : Prop :=
  if (s.lpn.subReq op).2 = [] ∨ ok.sub op = false then GiveUpOk s
  else
    ∀ g ∈ s.lpn.groups, g.pending = true → g.group ∉ (s.lpn.subReq op).2 →
      DoneFor op s.frnd.subList g.group

/-- The request on the air. -/
def HeardOk (s : Friendship) : Option LpnReq → Prop
  | some (.sub op _ addrList) => s.frnd.pendingBuf = false → HearOk op addrList s
  | _ => True

/-- The request that the LPN's timer finds unanswered. -/
def TimeoutOk (ok : CtlSend) (s : Friendship) : SentReq → Prop
  | .sub op => s.lpn.state = .established → RetryOk ok op s
  | _ => True

/-- A confirmation that the LPN takes for that of its request is that of its request: it is not one
from a multiple of 256 requests before. -/
def ConfirmOk (s : Friendship) : Option FriendPdu → SentReq → Prop
  | some (.subCfm xact), .sub _ =>
    xact % 256 = s.lpn.xactPending % 256 → xact = s.lpn.xactPending
  | _, _ => True

/-- **The condition.** The Friend hears the request that the LPN waits for and can do all of it (`HearOk`), a request
that is sent again or given up leaves no group that only the Friend has done (`RetryOk`, `GiveUpOk`), and a
confirmation is that of the open request (`ConfirmOk`). -/
def SubsOk (s : Friendship) : FriendshipAct → Prop
  | .friendRecv _ => HeardOk s s.air
  | .lpnTimeout _ ok => TimeoutOk ok s s.lpn.sentReq
  | .reqSent err => err = true → GiveUpOk s
  | .bufSendStart heard _ => heard = true → ConfirmOk s s.frnd.last s.lpn.sentReq
  | _ => True

instance (s : Friendship) : Decidable (GiveUpOk s) :=
  inferInstanceAs (Decidable (∀ g ∈ s.lpn.groups, g.pending = true →
    (g.group ∈ s.frnd.subList ↔ g.added = true)))

instance : (op : SubOp) → (subList : List ℕ) → (a : ℕ) → Decidable (DoneFor op subList a)
  | .add, subList, a => inferInstanceAs (Decidable (a ∈ subList))
  | .rem, subList, a => inferInstanceAs (Decidable (a ∉ subList))

instance (op : SubOp) (addrList : List ℕ) (s : Friendship) : Decidable (HearOk op addrList s) :=
  match op with
  | .add => inferInstanceAs (Decidable (_ ∧ ∀ a ∈ addrList.drop _, a ∈ s.frnd.subList))
  | .rem => inferInstanceAs (Decidable (_ ∧ ∀ a ∈ addrList, s.frnd.subList.count a ≤ 1))

instance (ok : CtlSend) (op : SubOp) (s : Friendship) : Decidable (RetryOk ok op s) :=
  inferInstanceAs (Decidable (if _ ∨ _ then GiveUpOk s else
    ∀ g ∈ s.lpn.groups, g.pending = true → g.group ∉ (s.lpn.subReq op).2 →
      DoneFor op s.frnd.subList g.group))

instance (s : Friendship) : (air : Option LpnReq) → Decidable (HeardOk s air)
  | some (.sub op _ addrList) => inferInstanceAs (Decidable (_ → HearOk op addrList s))
  | some (.poll _) => isTrue trivial
  | none => isTrue trivial

instance (ok : CtlSend) (s : Friendship) : (sentReq : SentReq) → Decidable (TimeoutOk ok s sentReq)
  | .sub op => inferInstanceAs (Decidable (_ → RetryOk ok op s))
  | .poll => isTrue trivial
  | .none => isTrue trivial

instance (s : Friendship) : (last : Option FriendPdu) → (sentReq : SentReq) →
    Decidable (ConfirmOk s last sentReq)
  | some (.subCfm xact), .sub _ =>
    inferInstanceAs (Decidable (xact % 256 = s.lpn.xactPending % 256 → xact = s.lpn.xactPending))
  | some (.subCfm _), .poll => isTrue trivial
  | some (.subCfm _), .none => isTrue trivial
  | some (.queued _), _ => isTrue trivial
  | none, _ => isTrue trivial

instance (s : Friendship) : (a : FriendshipAct) → Decidable (SubsOk s a)
  | .friendRecv _ => inferInstanceAs (Decidable (HeardOk s s.air))
  | .lpnTimeout _ ok => inferInstanceAs (Decidable (TimeoutOk ok s s.lpn.sentReq))
  | .reqSent err => inferInstanceAs (Decidable (err = true → GiveUpOk s))
  | .bufSendStart heard _ =>
    inferInstanceAs (Decidable (heard = true → ConfirmOk s s.frnd.last s.lpn.sentReq))
  | .groupAdd _ _ => isTrue trivial
  | .groupDel _ _ => isTrue trivial
  | .poll _ => isTrue trivial
  | .lose => isTrue trivial
  | .enqueue _ => isTrue trivial
  | .friendTimeout => isTrue trivial

/-! ## The entries of `groups` -/

section Groups

variable {groups groups' : List LpnGroup}

/-- Free entries are not marked, and the groups are distinct. -/
structure Tidy (groups : List LpnGroup) : Prop where
  free : ∀ g ∈ groups, g.group = addrUnassigned → g.added = false ∧ g.pending = false
  distinct : GroupsDistinct groups

/-- Related lists have related witnesses. -/
theorem exists_mem_congr {R : LpnGroup → LpnGroup → Prop} {p q : LpnGroup → Prop}
    (h : List.Forall₂ R groups groups') (hR : ∀ g g', R g g' → (q g' ↔ p g)) :
    (∃ g' ∈ groups', q g') ↔ ∃ g ∈ groups, p g := by
  induction h with
  | nil => simp
  | cons hg _ ih => simp only [List.exists_mem_cons_iff, hR _ _ hg, ih]

/-- Entries that agree on `added` and, where it is set, on the group have the same groups added. -/
theorem addedGroups_congr {R : LpnGroup → LpnGroup → Prop} (h : List.Forall₂ R groups groups')
    (hR : ∀ g g', R g g' → g'.added = g.added ∧ (g.added = true → g'.group = g.group)) :
    addedGroups groups' = addedGroups groups := by
  ext a
  refine exists_mem_congr h fun g g' hg => ?_
  obtain ⟨hadded, hgroup⟩ := hR g g' hg
  rw [hadded]
  exact and_congr_right fun ha => by rw [hgroup ha]

/-- Entries that agree on `pending` and, where it is set, on the group have the same groups pending. -/
theorem pendingGroups_congr {R : LpnGroup → LpnGroup → Prop} (h : List.Forall₂ R groups groups')
    (hR : ∀ g g', R g g' → g'.pending = g.pending ∧ (g.pending = true → g'.group = g.group)) :
    pendingGroups groups' = pendingGroups groups := by
  ext a
  refine exists_mem_congr h fun g g' hg => ?_
  obtain ⟨hpending, hgroup⟩ := hR g g' hg
  rw [hpending]
  exact and_congr_right fun ha => by rw [hgroup ha]

/-- What follows from a relation holds of all entries of the related list. -/
theorem forall_mem_of_forall₂ {R : LpnGroup → LpnGroup → Prop} {p : LpnGroup → Prop}
    (h : List.Forall₂ R groups groups') (hp : ∀ g ∈ groups, ∀ g', R g g' → p g') :
    ∀ g' ∈ groups', p g' := by
  induction h with
  | nil => simp
  | cons hg _ ih =>
    rw [List.forall_mem_cons] at hp ⊢
    exact ⟨hp.1 _ hg, ih hp.2⟩

/-- Entries may be freed. -/
theorem GroupsDistinct.forall₂ {R : LpnGroup → LpnGroup → Prop} (hd : GroupsDistinct groups)
    (h : List.Forall₂ R groups groups')
    (hR : ∀ g g', R g g' → g'.group = g.group ∨ g'.group = addrUnassigned) :
    GroupsDistinct groups' := by
  induction h with
  | nil => exact hd
  | @cons g g' l l' hg hrest ih =>
    obtain ⟨hhead, htail⟩ := List.pairwise_cons.1 hd
    refine List.pairwise_cons.2 ⟨?_, ih htail⟩
    refine forall_mem_of_forall₂ hrest fun b hb b' hbb' heq => ?_
    rcases hR _ _ hg with hg' | hg'
    · rcases hR _ _ hbb' with hb' | hb'
      · rw [hg'] at heq ⊢
        exact hhead b hb (heq.trans hb')
      · rw [heq, hb']
    · exact hg'

/-- A group is in one entry only. -/
theorem Tidy.eq_of_group {g h : LpnGroup} (ht : Tidy groups) (hg : g ∈ groups) (hh : h ∈ groups)
    (hgh : g.group = h.group) (hne : g.group ≠ addrUnassigned) : g = h := by
  let R : LpnGroup → LpnGroup → Prop := fun x y =>
    x.group = y.group → x.group = addrUnassigned ∨ x = y
  have hsymm : Std.Symm R := ⟨fun x y hxy heq => (hxy heq.symm).imp heq.trans Eq.symm⟩
  have hall : groups.Pairwise R := ht.distinct.imp fun h heq => Or.inl (h heq)
  exact (hall.forall_of_forall (fun _ _ _ => Or.inr rfl) hg hh hgh).resolve_left hne

/-- A marked entry has a group. -/
theorem Tidy.group_ne {g : LpnGroup} (ht : Tidy groups) (hg : g ∈ groups)
    (hmark : g.added = true ∨ g.pending = true) : g.group ≠ addrUnassigned := by
  intro h
  have := ht.free g hg h
  simp_all

/-- No free entry is pending. -/
theorem Tidy.addrUnassigned_not_mem_pendingGroups (ht : Tidy groups) :
    addrUnassigned ∉ pendingGroups groups := by
  rintro ⟨g, hg, hp, h0⟩
  exact ht.group_ne hg (Or.inr hp) h0

/-- An entry whose marks stay, and whose group too if it is marked. -/
structure SameMarks (g g' : LpnGroup) : Prop where
  added : g'.added = g.added
  pending : g'.pending = g.pending
  group : g.added = true ∨ g.pending = true → g'.group = g.group

/-- An entry has the marks that it has. -/
theorem SameMarks.refl (g : LpnGroup) : SameMarks g g := ⟨rfl, rfl, fun _ => rfl⟩

/-- Tidy entries stay tidy if the marks stay and the groups are distinct. -/
theorem Tidy.sameMarks (ht : Tidy groups) (h : List.Forall₂ SameMarks groups groups')
    (hd : GroupsDistinct groups') : Tidy groups' := by
  refine ⟨forall_mem_of_forall₂ h fun g hg g' hs h0 => ?_, hd⟩
  by_cases hmark : g.added = true ∨ g.pending = true
  · exact absurd ((hs.group hmark).symm.trans h0) (ht.group_ne hg hmark)
  · rw [hs.added, hs.pending]
    simpa using hmark

/-! ### Calls of the application -/

/-- `updFirst` relates each entry to itself or to its update. -/
theorem forall₂_updFirst {R : LpnGroup → LpnGroup → Prop} {p : LpnGroup → Bool}
    {f : LpnGroup → LpnGroup} (hrefl : ∀ g, R g g) (hf : ∀ g ∈ groups, p g = true → R g (f g)) :
    List.Forall₂ R groups (updFirst p f groups) := by
  induction groups with
  | nil => exact .nil
  | cons g groups ih =>
    rw [List.forall_mem_cons] at hf
    rw [updFirst]
    split
    · next hp => exact .cons (hf.1 hp) (List.forall₂_same.2 fun a _ => hrefl a)
    · exact .cons (hrefl g) (ih hf.2)

/-- An entry after `updFirst` is an old one or the update of one. -/
theorem mem_updFirst {α : Type} {p : α → Bool} {f : α → α} {l : List α} {b : α}
    (h : b ∈ updFirst p f l) : b ∈ l ∨ ∃ a ∈ l, p a = true ∧ b = f a := by
  induction l with
  | nil => simp [updFirst] at h
  | cons a l ih =>
    rw [updFirst] at h
    split at h
    · next hp =>
        rcases List.mem_cons.1 h with rfl | h
        · exact Or.inr ⟨a, by simp, hp, rfl⟩
        · exact Or.inl (List.mem_cons_of_mem _ h)
    · rcases List.mem_cons.1 h with rfl | h
      · simp
      · rcases ih h with h | ⟨c, hc, hp, rfl⟩
        · exact Or.inl (List.mem_cons_of_mem _ h)
        · exact Or.inr ⟨c, List.mem_cons_of_mem _ hc, hp, rfl⟩

/-- A new group goes into a free entry. -/
theorem GroupsDistinct.insert {p : LpnGroup → Bool} {group : ℕ} (hd : GroupsDistinct groups)
    (hnew : ∀ g ∈ groups, g.group ≠ group) :
    GroupsDistinct (updFirst p (fun g => { g with group := group }) groups) := by
  induction groups with
  | nil => exact hd
  | cons g groups ih =>
    obtain ⟨hhead, htail⟩ := List.pairwise_cons.1 hd
    obtain ⟨hg, hrest⟩ := List.forall_mem_cons.1 hnew
    rw [updFirst]
    split
    · exact List.pairwise_cons.2 ⟨fun b hb heq => absurd heq.symm (hrest b hb), htail⟩
    · refine List.pairwise_cons.2 ⟨fun b hb heq => ?_, ih htail hrest⟩
      rcases mem_updFirst hb with hb | ⟨c, _, _, rfl⟩
      · exact hhead b hb heq
      · exact absurd heq hg

/-- Adding a group leaves the marks, and the groups distinct. -/
theorem lpnGroupAdd_sameMarks {lpn : Lpn} (group : ℕ) (ht : Tidy lpn.groups) :
    List.Forall₂ SameMarks lpn.groups (lpnGroupAdd group lpn).groups ∧
      GroupsDistinct (lpnGroupAdd group lpn).groups := by
  unfold lpnGroupAdd
  split
  · have h : List.Forall₂ (fun g g' => SameMarks g g' ∧ g'.group = g.group) lpn.groups
        (updFirst (fun g => g.group == group) (fun g => { g with toRemove := false })
          lpn.groups) :=
      forall₂_updFirst (fun g => ⟨.refl g, rfl⟩) fun g _ _ => ⟨⟨rfl, rfl, fun _ => rfl⟩, rfl⟩
    exact ⟨h.imp fun _ _ h => h.1, ht.distinct.forall₂ h fun _ _ h => Or.inl h.2⟩
  · next hnew =>
      split
      · refine ⟨forall₂_updFirst SameMarks.refl fun g hg h0 => ?_, ht.distinct.insert ?_⟩
        · obtain ⟨ha, hp⟩ := ht.free g hg (by simpa using h0)
          exact ⟨rfl, rfl, by simp [ha, hp]⟩
        · simpa using hnew
      · exact ⟨List.forall₂_same.2 fun g _ => .refl g, ht.distinct⟩

/-- Deleting a group leaves the marks, and the groups distinct. -/
theorem lpnGroupDel_sameMarks {lpn : Lpn} (group : ℕ) (ht : Tidy lpn.groups) :
    List.Forall₂ SameMarks lpn.groups (lpnGroupDel lpn group).groups ∧
      GroupsDistinct (lpnGroupDel lpn group).groups := by
  have h : List.Forall₂
      (fun g g' => SameMarks g g' ∧ (g'.group = g.group ∨ g'.group = addrUnassigned)) lpn.groups
      (lpnGroupDel lpn group).groups := by
    refine List.forall₂_map_right_iff.2 (List.forall₂_same.2 fun g _ => ?_)
    by_cases hg : g.group = group
    · by_cases hm : (g.added || g.pending) = true
      · simp only [hg, hm, if_true]
        exact ⟨⟨rfl, rfl, fun _ => hg.symm ▸ rfl⟩, Or.inl trivial⟩
      · simp only [hg, hm, if_true]
        refine ⟨⟨rfl, rfl, fun h => absurd ?_ hm⟩, Or.inr rfl⟩
        simpa using h
    · simp only [hg, if_false]
      exact ⟨.refl g, Or.inl trivial⟩
  exact ⟨h.imp fun _ _ h => h.1, ht.distinct.forall₂ h fun _ _ h => h.2⟩

/-! ### Requests and confirmations -/

/-- The loop of `sub_update` only marks entries as pending. -/
def OnlyPending (g g' : LpnGroup) : Prop :=
  g'.group = g.group ∧ g'.added = g.added ∧ g'.toRemove = g.toRemove

/-- Groups stay distinct when only `pending` changes. -/
theorem Tidy.groupsDistinct_of_onlyPending (ht : Tidy groups)
    (h : List.Forall₂ OnlyPending groups groups') : GroupsDistinct groups' :=
  ht.distinct.forall₂ h fun _ _ h => Or.inl h.1

/-- The groups added stay when only `pending` changes. -/
theorem addedGroups_of_onlyPending (h : List.Forall₂ OnlyPending groups groups') :
    addedGroups groups' = addedGroups groups :=
  addedGroups_congr h fun _ _ h => ⟨h.2.1, fun _ => h.1⟩

/-- The loop of `sub_update` changes `pending` only. -/
theorem subLoop_onlyPending (op : SubOp) (n q g : ℕ) :
    List.Forall₂ OnlyPending groups (subLoop op n q groups g).1 := by
  induction groups generalizing g with
  | nil => exact .nil
  | cons a groups ih =>
    have hrefl : List.Forall₂ OnlyPending groups groups :=
      List.forall₂_same.2 fun _ _ => ⟨rfl, rfl, rfl⟩
    rw [subLoop]
    split_ifs
    · exact .cons ⟨rfl, rfl, rfl⟩ (ih g)
    · exact .cons ⟨rfl, rfl, rfl⟩ hrefl
    · exact .cons ⟨rfl, rfl, rfl⟩ hrefl
    · exact .cons ⟨rfl, rfl, rfl⟩ (ih (g + 1))

/-- The pending groups of a list, entry by entry. -/
theorem pendingGroups_cons (a : LpnGroup) :
    pendingGroups (a :: groups) = {x | a.pending = true ∧ a.group = x} ∪ pendingGroups groups := by
  ext x
  simp [pendingGroups]

/-- The groups that the request names become pending. -/
theorem pendingGroups_subLoop (op : SubOp) (n q g : ℕ) :
    pendingGroups (subLoop op n q groups g).1 =
      pendingGroups groups ∪ {a | a ∈ (subLoop op n q groups g).2} := by
  induction groups generalizing g with
  | nil => simp [subLoop]
  | cons a groups ih =>
    rw [subLoop]
    split_ifs
    · simp only [pendingGroups_cons, ih, Set.union_assoc]
    · simp
    · ext x
      simp only [pendingGroups_cons, Set.mem_union, Set.mem_ofPred_eq, List.mem_singleton]
      tauto
    · ext x
      simp only [pendingGroups_cons, ih, Set.mem_union, Set.mem_ofPred_eq, List.mem_cons]
      tauto

/-- A request names no unassigned address. -/
theorem mem_addrList_ne {op : SubOp} {n q g a : ℕ} (h : a ∈ (subLoop op n q groups g).2) :
    a ≠ addrUnassigned := by
  induction groups generalizing g with
  | nil => simp [subLoop] at h
  | cons b groups ih =>
    rw [subLoop] at h
    split_ifs at h with hsel
    · exact ih h
    · simp at h
    · simp only [List.mem_singleton] at h
      subst h
      simp only [subSelects, Bool.and_eq_false_iff, not_or] at hsel
      simpa using hsel.1
    · rcases List.mem_cons.1 h with rfl | h
      · simp only [subSelects, Bool.and_eq_false_iff, not_or] at hsel
        simpa using hsel.1
      · exact ih h

/-- The loop of `sub_update` leaves the entries tidy. -/
theorem Tidy.subLoop (ht : Tidy groups) (op : SubOp) (n q g : ℕ) :
    Tidy (subLoop op n q groups g).1 := by
  have h : List.Forall₂ OnlyPending groups _ := subLoop_onlyPending op n q g
  refine ⟨fun a ha h0 => ?_, ht.groupsDistinct_of_onlyPending h⟩
  have hadded : a.added = false :=
    forall_mem_of_forall₂ (p := fun a => a.group = addrUnassigned → a.added = false) h
      (fun b hb b' hbb' h0 => hbb'.2.1.trans (ht.free b hb (hbb'.1.symm.trans h0)).1) a ha h0
  refine ⟨hadded, ?_⟩
  by_contra hp
  have hmem : addrUnassigned ∈ pendingGroups (Model.subLoop op n q groups g).1 :=
    ⟨a, ha, by simpa using hp, h0⟩
  rw [pendingGroups_subLoop] at hmem
  rcases hmem with hmem | hmem
  · exact ht.addrUnassigned_not_mem_pendingGroups hmem
  · exact mem_addrList_ne hmem rfl

/-- `group_zero` forgets what was pending. -/
theorem zeroPending_of_onlyPending (h : List.Forall₂ OnlyPending groups groups') :
    zeroPending groups' = zeroPending groups := by
  induction h with
  | nil => rfl
  | cons hg _ ih =>
    simp only [zeroPending, List.map_cons] at ih ⊢
    rw [ih, hg.1, hg.2.1, hg.2.2]

/-- `group_zero` changes `pending` only. -/
theorem zeroPending_onlyPending : List.Forall₂ OnlyPending groups (zeroPending groups) :=
  List.forall₂_map_right_iff.2 (List.forall₂_same.2 fun _ _ => ⟨rfl, rfl, rfl⟩)

@[simp] theorem pendingGroups_zeroPending : pendingGroups (zeroPending groups) = ∅ := by
  simp [pendingGroups, zeroPending]

@[simp] theorem addedGroups_zeroPending : addedGroups (zeroPending groups) = addedGroups groups :=
  addedGroups_of_onlyPending zeroPending_onlyPending

/-- `group_zero` leaves the entries tidy. -/
theorem Tidy.zeroPending (ht : Tidy groups) : Tidy (zeroPending groups) := by
  refine ⟨?_, ht.groupsDistinct_of_onlyPending zeroPending_onlyPending⟩
  simp only [Model.zeroPending, List.forall_mem_map]
  exact fun g hg h0 => ⟨(ht.free g hg h0).1, trivial⟩

/-- The two kinds of requests. -/
def setOp : SubOp → SetOp
  | .add => .add
  | .rem => .rem

@[simp] theorem pendingGroups_confirm (op : SubOp) :
    pendingGroups (groups.map (confirmGroup op)) = ∅ := by
  cases op <;> simp [pendingGroups, confirmGroup, confirmAdd, confirmRem]

/-- A confirmation does to the added groups what the request asks for. -/
theorem addedGroups_confirm (ht : Tidy groups) (op : SubOp) :
    addedGroups (groups.map (confirmGroup op)) =
      (setOp op).apply (addedGroups groups) (pendingGroups groups) := by
  ext a
  cases op with
  | add =>
    simp only [addedGroups, pendingGroups, confirmGroup, confirmAdd, setOp, SetOp.apply,
      List.mem_map, exists_exists_and_eq_and, Set.mem_ofPred_eq, Set.mem_union, Bool.or_eq_true]
    constructor
    · rintro ⟨g, hg, hm | hm, rfl⟩
      · exact Or.inl ⟨g, hg, hm, rfl⟩
      · exact Or.inr ⟨g, hg, hm, rfl⟩
    · rintro (⟨g, hg, hm, rfl⟩ | ⟨g, hg, hm, rfl⟩)
      · exact ⟨g, hg, Or.inl hm, rfl⟩
      · exact ⟨g, hg, Or.inr hm, rfl⟩
  | rem =>
    simp only [addedGroups, pendingGroups, confirmGroup, confirmRem, setOp, SetOp.apply,
      List.mem_map, exists_exists_and_eq_and, Set.mem_ofPred_eq, Set.mem_sdiff, Bool.and_eq_true, Bool.not_eq_true']
    constructor
    · rintro ⟨g, hg, ⟨hadded, hpending⟩, hga⟩
      rw [if_neg (by simp [hpending])] at hga
      refine ⟨⟨g, hg, hadded, hga⟩, ?_⟩
      rintro ⟨h, hh, hhp, hha⟩
      have : h = g := ht.eq_of_group hh hg (hha.trans hga.symm) (ht.group_ne hh (Or.inr hhp))
      simp_all
    · rintro ⟨⟨g, hg, hadded, rfl⟩, hnot⟩
      have hpending : g.pending = false := by
        by_contra hp
        exact hnot ⟨g, hg, by simpa using hp, rfl⟩
      exact ⟨g, hg, ⟨hadded, hpending⟩, by simp [hpending]⟩

/-- A confirmation leaves the entries tidy. -/
theorem Tidy.confirm (ht : Tidy groups) (op : SubOp) : Tidy (groups.map (confirmGroup op)) := by
  have h : List.Forall₂ (fun g g' => g'.group = g.group ∨ g'.group = addrUnassigned) groups
      (groups.map (confirmGroup op)) := by
    rw [List.forall₂_map_right_iff, List.forall₂_same]
    intro g _
    cases op with
    | add => exact Or.inl rfl
    | rem =>
      simp only [confirmGroup, confirmRem]
      split
      · exact Or.inr rfl
      · exact Or.inl rfl
  refine ⟨?_, ht.distinct.forall₂ h fun _ _ h => h⟩
  rw [List.forall_mem_map]
  intro g hg h0
  cases op with
  | add =>
    have := ht.free g hg h0
    simp [confirmGroup, confirmAdd, this]
  | rem =>
    by_cases hp : g.pending = true
    · simp [confirmGroup, confirmRem, hp]
    · have := ht.free g hg (by simpa [confirmGroup, confirmRem, hp] using h0)
      simp [confirmGroup, confirmRem, this]

end Groups

/-! ## The Friend's list -/

section SubList

variable {subList addrList : List ℕ} {a : ℕ}

/-- The Friend adds a group if it has a free place. -/
theorem subscribed_friendSubAdd (ha : a ≠ addrUnassigned) :
    subscribed (friendSubAdd subList a) =
      subscribed subList ∪ {x | addrUnassigned ∈ subList ∧ x = a} := by
  induction subList with
  | nil => simp [friendSubAdd, updFirst, subscribed]
  | cons b l ih =>
    ext x
    have hx := Set.ext_iff.1 ih x
    simp only [friendSubAdd, updFirst] at hx ⊢
    by_cases hb : b = addrUnassigned
    · subst hb
      simp only [beq_self_eq_true, if_true, subscribed, List.mem_cons, Set.mem_union,
        Set.mem_ofPred_eq, true_or, true_and]
      constructor
      · rintro ⟨rfl | hl, h0⟩
        · exact Or.inr rfl
        · exact Or.inl ⟨Or.inr hl, h0⟩
      · rintro (⟨rfl | hl, h0⟩ | rfl)
        · exact absurd rfl h0
        · exact ⟨Or.inr hl, h0⟩
        · exact ⟨Or.inl rfl, ha⟩
    · simp only [beq_eq_false_iff_ne.2 hb, Bool.false_eq_true, if_false, subscribed,
        List.mem_cons, Set.mem_union, Set.mem_ofPred_eq, Ne.symm hb, false_or] at hx ⊢
      tauto

/-- And has one free place less then. -/
theorem count_friendSubAdd (ha : a ≠ addrUnassigned) :
    (friendSubAdd subList a).count addrUnassigned = subList.count addrUnassigned - 1 := by
  induction subList with
  | nil => rfl
  | cons b l ih =>
    simp only [friendSubAdd, updFirst] at ih ⊢
    by_cases hb : b = addrUnassigned
    · subst hb
      simp [ha]
    · simp only [beq_eq_false_iff_ne.2 hb, Bool.false_eq_true, if_false]
      rw [List.count_cons_of_ne hb, List.count_cons_of_ne hb, ih]

/-- An Add puts its groups into the list as long as there are free entries. -/
theorem subscribed_foldl_add (h0 : ∀ a ∈ addrList, a ≠ addrUnassigned)
    (hroom : ∀ a ∈ addrList.drop (subList.count addrUnassigned), a ∈ subList) :
    subscribed (addrList.foldl friendSubAdd subList) =
      subscribed subList ∪ {a | a ∈ addrList} := by
  induction addrList generalizing subList with
  | nil => simp
  | cons a addrList ih =>
    obtain ⟨ha, hrest⟩ := List.forall_mem_cons.1 h0
    rw [List.foldl_cons]
    have hsub : subscribed (friendSubAdd subList a) = _ := subscribed_friendSubAdd ha
    have hin : ∀ x, x ≠ addrUnassigned → x ∈ subList → x ∈ friendSubAdd subList a := by
      intro x hx hmem
      have : x ∈ subscribed (friendSubAdd subList a) := hsub ▸ Or.inl ⟨hmem, hx⟩
      exact this.1
    have hhead : a ∈ subList ∨ addrUnassigned ∈ subList := by
      by_cases hfree : addrUnassigned ∈ subList
      · exact Or.inr hfree
      · rw [List.count_eq_zero.2 hfree, List.drop_zero] at hroom
        exact Or.inl (hroom a (by simp))
    rw [ih hrest, hsub]
    · ext x
      simp only [Set.mem_union, Set.mem_ofPred_eq, List.mem_cons]
      constructor
      · tauto
      · rintro (hx | rfl | hx)
        · exact Or.inl (Or.inl hx)
        · exact Or.inl (hhead.imp (fun h => ⟨h, ha⟩) fun h => ⟨h, rfl⟩)
        · exact Or.inr hx
    · rw [count_friendSubAdd ha]
      intro x hx
      have hmem : x ∈ (a :: addrList).drop (subList.count addrUnassigned) := by
        cases hc : subList.count addrUnassigned with
        | zero =>
          rw [hc] at hx
          exact List.mem_cons_of_mem a hx
        | succ n => simpa [hc] using hx
      exact hin x (h0 x (List.mem_of_mem_drop hmem)) (hroom x hmem)

/-- Removing a group makes no other one more frequent. -/
theorem count_friendSubRem_le {x : ℕ} (hx : x ≠ addrUnassigned) :
    (friendSubRem subList a).count x ≤ subList.count x := by
  induction subList with
  | nil => simp [friendSubRem, updFirst]
  | cons b l ih =>
    simp only [friendSubRem, updFirst] at ih ⊢
    split
    · rw [List.count_cons_of_ne (Ne.symm hx)]
      exact List.count_le_count_cons
    · simp only [List.count_cons]
      exact Nat.add_le_add_right ih _

/-- A group that is there once is gone when it is removed. -/
theorem subscribed_friendSubRem (ha : a ≠ addrUnassigned) (hone : subList.count a ≤ 1) :
    subscribed (friendSubRem subList a) = subscribed subList \ {a} := by
  induction subList with
  | nil => simp [friendSubRem, updFirst, subscribed]
  | cons b l ih =>
    ext x
    simp only [friendSubRem, updFirst]
    by_cases hb : b = a
    · subst hb
      have hnot : b ∉ l := by
        rw [List.count_cons_self] at hone
        exact List.count_eq_zero.1 (by omega)
      simp only [beq_self_eq_true, if_true, subscribed, List.mem_cons, Set.mem_sdiff,
        Set.mem_ofPred_eq, Set.mem_singleton_iff]
      constructor
      · rintro ⟨rfl | hl, h0⟩
        · exact absurd rfl h0
        · refine ⟨⟨Or.inr hl, h0⟩, ?_⟩
          rintro rfl
          exact hnot hl
      · rintro ⟨⟨rfl | hl, h0⟩, hne⟩
        · exact absurd rfl hne
        · exact ⟨Or.inr hl, h0⟩
    · rw [List.count_cons_of_ne hb] at hone
      have hx := Set.ext_iff.1 (ih hone) x
      simp only [friendSubRem] at hx
      simp only [beq_eq_false_iff_ne.2 hb, Bool.false_eq_true, if_false, subscribed,
        List.mem_cons, Set.mem_sdiff, Set.mem_ofPred_eq, Set.mem_singleton_iff] at hx ⊢
      constructor
      · rintro ⟨rfl | hl, h0⟩
        · exact ⟨⟨Or.inl rfl, h0⟩, hb⟩
        · obtain ⟨⟨h1, _⟩, h2⟩ := hx.1 ⟨hl, h0⟩
          exact ⟨⟨Or.inr h1, h0⟩, h2⟩
      · rintro ⟨⟨rfl | hl, h0⟩, hne⟩
        · exact ⟨Or.inl rfl, h0⟩
        · exact ⟨Or.inr (hx.2 ⟨⟨hl, h0⟩, hne⟩).1, h0⟩

/-- A Remove frees the groups that the list holds once. -/
theorem subscribed_foldl_rem (h0 : ∀ a ∈ addrList, a ≠ addrUnassigned)
    (hone : ∀ a ∈ addrList, subList.count a ≤ 1) :
    subscribed (addrList.foldl friendSubRem subList) =
      subscribed subList \ {a | a ∈ addrList} := by
  induction addrList generalizing subList with
  | nil => simp
  | cons a addrList ih =>
    obtain ⟨ha, hrest⟩ := List.forall_mem_cons.1 h0
    obtain ⟨hone1, honerest⟩ := List.forall_mem_cons.1 hone
    rw [List.foldl_cons, ih hrest, subscribed_friendSubRem ha hone1]
    · ext x
      simp only [Set.mem_sdiff, Set.mem_ofPred_eq, List.mem_cons, Set.mem_singleton_iff]
      tauto
    · exact fun x hx => (count_friendSubRem_le (hrest x hx)).trans (honerest x hx)

/-- What the Friend makes of a request that it hears in time. -/
theorem subscribed_foldl {op : SubOp} {s : Friendship} (h0 : ∀ a ∈ addrList, a ≠ addrUnassigned)
    (hok : HearOk op addrList s) :
    subscribed (addrList.foldl (friendSub op) s.frnd.subList) =
      (setOp op).apply (subscribed s.frnd.subList) {a | a ∈ addrList} := by
  cases op with
  | add => exact subscribed_foldl_add h0 hok.2
  | rem => exact subscribed_foldl_rem h0 hok.2

end SubList

/-! ## The invariant -/

/-- What holds whatever request the LPN has out: the two sides agree on all groups that
are not pending, and no PDU has a transaction number that is still to come. -/
structure SubsCore (s : Friendship) : Prop where
  tidy : Tidy s.lpn.groups
  agree : AgreeOff (pendingGroups s.lpn.groups) (addedGroups s.lpn.groups)
    (subscribed s.frnd.subList)
  airOld : ∀ op xact addrList, s.air = some (.sub op xact addrList) → xact < s.lpn.xactNext
  lastOld : ∀ xact, s.frnd.last = some (.subCfm xact) → xact < s.lpn.xactNext

/-- Groups are pending for a subscription request only. Its latest attempt is the one on
the air, with all groups that the Friend has still to do; once the Friend has its confirmation,
all pending groups are done. -/
structure SubsInv (s : Friendship) : Prop extends SubsCore s where
  idle : (∀ op, s.lpn.sentReq ≠ .sub op) → pendingGroups s.lpn.groups = ∅
  air : ∀ op xact addrList, s.air = some (.sub op xact addrList) → s.lpn.sentReq = .sub op →
    xact = s.lpn.xactPending ∧ (∀ a ∈ addrList, a ∈ pendingGroups s.lpn.groups) ∧
      (setOp op).Done (pendingGroups s.lpn.groups \ {a | a ∈ addrList})
        (subscribed s.frnd.subList)
  last : ∀ op xact, s.frnd.last = some (.subCfm xact) → s.lpn.sentReq = .sub op →
    xact = s.lpn.xactPending →
      (setOp op).Done (pendingGroups s.lpn.groups) (subscribed s.frnd.subList)

/-- The invariant holds of a new friendship. -/
theorem SubsInv.of_established {s : Friendship} (h : Established s) : SubsInv s := by
  have hpending : pendingGroups s.lpn.groups = ∅ := by
    ext a
    simp only [pendingGroups, Set.mem_ofPred_eq, Set.mem_empty_iff_false, iff_false]
    rintro ⟨g, hg, hp, _⟩
    simp [(h.groups g hg).2] at hp
  have hadded : addedGroups s.lpn.groups = ∅ := by
    ext a
    simp only [addedGroups, Set.mem_ofPred_eq, Set.mem_empty_iff_false, iff_false]
    rintro ⟨g, hg, hp, _⟩
    simp [(h.groups g hg).1] at hp
  have hsub : subscribed s.frnd.subList = ∅ := by
    ext a
    simp only [subscribed, Set.mem_ofPred_eq, Set.mem_empty_iff_false, iff_false]
    exact fun ⟨ha, h0⟩ => h0 (h.subList a ha)
  exact
    { tidy := ⟨fun g hg _ => h.groups g hg, h.distinct⟩
      agree := by
        rw [hpending, hadded, hsub]
        exact agreeOff_empty.2 rfl
      airOld := fun op xact addrList hair => absurd hair (h.air op xact addrList)
      lastOld := fun xact hlast => absurd hlast (h.last xact)
      idle := fun _ => hpending
      air := fun op xact addrList hair => absurd hair (h.air op xact addrList)
      last := fun _ xact hlast => absurd hlast (h.last xact) }

/-- While no subscription request is out. -/
theorem SubsCore.rest {s : Friendship} (hcore : SubsCore s)
    (hsent : ∀ op, s.lpn.sentReq ≠ .sub op) (hpending : pendingGroups s.lpn.groups = ∅) :
    SubsInv s :=
  { hcore with
    idle := fun _ => hpending
    air := fun op _ _ _ h => absurd h (hsent op)
    last := fun op _ _ h => absurd h (hsent op) }

/-- With no subscription request open the two sides agree. -/
theorem SubsInv.agreement {s : Friendship} (h : SubsInv s)
    (hsent : ∀ op, s.lpn.sentReq ≠ .sub op) :
    subscribed s.frnd.subList = addedGroups s.lpn.groups := by
  have hagree := h.agree
  rw [h.idle hsent] at hagree
  exact agreeOff_empty.1 hagree

/-- A request that is given up before the Friend has done anything for it. -/
theorem SubsCore.giveUp {s : Friendship} (h : SubsCore s) (hok : GiveUpOk s) :
    subscribed s.frnd.subList = addedGroups s.lpn.groups := by
  refine h.agree.giveUp ?_
  rintro a ⟨g, hg, hp, rfl⟩
  have hne : g.group ≠ addrUnassigned := h.tidy.group_ne hg (Or.inr hp)
  constructor
  · exact fun hsub => ⟨g, hg, (hok g hg hp).1 hsub.1, rfl⟩
  · rintro ⟨b, hb, hadded, hbg⟩
    obtain rfl : b = g := h.tidy.eq_of_group hb hg hbg (hbg ▸ hne)
    exact ⟨(hok b hb hp).2 hadded, hne⟩

/-! ### The LPN's sends -/

section Sends

variable {s : Friendship} {ok : CtlSend}

/-- A request is put together and sent, or given up. -/
theorem SubsCore.subUpdate {op : SubOp} (h : SubsCore s) (hsent : s.lpn.sentReq = .none)
    (hok : RetryOk ok op s) : SubsInv (subUpdate ok op s) := by
  have hmarked : List.Forall₂ OnlyPending s.lpn.groups _ := subLoop_onlyPending op
    (s.lpn.groups.countP (·.added)) s.lpn.queueSize 0
  have hzero : zeroPending (s.lpn.subReq op).1 = zeroPending s.lpn.groups :=
    zeroPending_of_onlyPending hmarked
  have hadded : addedGroups (s.lpn.subReq op).1 = addedGroups s.lpn.groups :=
    addedGroups_of_onlyPending hmarked
  have hpending : pendingGroups (s.lpn.subReq op).1 =
      pendingGroups s.lpn.groups ∪ {a | a ∈ (s.lpn.subReq op).2} := pendingGroups_subLoop _ _ _ _
  unfold RetryOk at hok
  simp only [Model.subUpdate, hsent, ne_eq, not_true_eq_false, if_false, hzero]
  by_cases hnil : (s.lpn.subReq op).2 = []
  · rw [if_pos (Or.inl hnil)] at hok
    rw [if_pos hnil]
    refine SubsCore.rest
      { tidy := h.tidy.zeroPending
        agree := ?_
        airOld := h.airOld
        lastOld := h.lastOld } (by simp) (by simp)
    simpa [agreeOff_empty] using h.giveUp hok
  · rw [if_neg hnil]
    by_cases hsend : ok.sub op = false
    · rw [if_pos (Or.inr hsend)] at hok
      rw [if_pos hsend]
      refine SubsCore.rest
        { tidy := h.tidy.zeroPending
          agree := ?_
          airOld := fun op xact l ha => (h.airOld op xact l ha).trans (Nat.lt_succ_self _)
          lastOld := fun xact hl => (h.lastOld xact hl).trans (Nat.lt_succ_self _) }
        (by simp) (by simp)
      simpa [agreeOff_empty] using h.giveUp hok
    · rw [if_neg (by simp [hnil, hsend])] at hok
      rw [if_neg hsend]
      refine
        { tidy := h.tidy.subLoop _ _ _ _
          agree := ?_
          airOld := ?_
          lastOld := fun xact hl => (h.lastOld xact hl).trans (Nat.lt_succ_self _)
          idle := fun h => absurd rfl (h op)
          air := ?_
          last := ?_ }
      · change AgreeOff (pendingGroups (s.lpn.subReq op).1) (addedGroups (s.lpn.subReq op).1) _
        rw [hadded, hpending]
        exact h.agree.mono Set.subset_union_left
      · rintro _ _ _ ⟨⟩
        exact Nat.lt_succ_self _
      · rintro _ _ _ ⟨⟩ _
        refine ⟨rfl, fun a ha => ?_, ?_⟩
        · change a ∈ pendingGroups (s.lpn.subReq op).1
          rw [hpending]
          exact Or.inr ha
        · change (setOp op).Done (pendingGroups (s.lpn.subReq op).1 \ _) _
          rw [hpending]
          cases op with
          | add =>
            rintro a ⟨⟨g, hg, hp, rfl⟩ | ha, hnot⟩
            · exact ⟨hok g hg hp hnot, h.tidy.group_ne hg (Or.inr hp)⟩
            · exact absurd ha hnot
          | rem =>
            rintro a ⟨⟨g, hg, hp, rfl⟩ | ha, hnot⟩
            · exact fun hsub => hok g hg hp hnot hsub.1
            · exact absurd ha hnot
      · -- the number is new: the Friend has not confirmed it
        rintro _ xact hlast _ rfl
        exact absurd (h.lastOld _ hlast) (lt_irrefl _)

/-- A first attempt has no condition. -/
theorem SubsInv.subUpdate (h : SubsInv s) (op : SubOp) : SubsInv (subUpdate ok op s) := by
  by_cases hsent : s.lpn.sentReq = .none
  · refine h.toSubsCore.subUpdate hsent ?_
    have hnone : ∀ g ∈ s.lpn.groups, g.pending = true → False := by
      intro g hg hp
      have hmem : g.group ∈ pendingGroups s.lpn.groups := ⟨g, hg, hp, rfl⟩
      rw [h.idle (by simp [hsent])] at hmem
      exact hmem
    unfold RetryOk
    split
    · exact fun g hg hp => (hnone g hg hp).elim
    · exact fun g hg hp => (hnone g hg hp).elim
  · simpa [Model.subUpdate, hsent] using h

/-- The invariant holds on when the LPN polls. -/
theorem SubsInv.sendFriendPoll (h : SubsInv s) : SubsInv (sendFriendPoll ok s) := by
  unfold Model.sendFriendPoll
  split
  · exact { h with }
  · exact h
  · next hsent =>
      split
      · exact h
      · refine SubsCore.rest { h with airOld := ?_ } ?_ ?_
        · exact fun _ _ _ ha => by cases ha
        · exact fun _ ha => by cases ha
        · exact h.idle (by simp [hsent])

/-- The invariant holds on when the LPN goes on with changed groups. -/
theorem SubsInv.updateChanged (h : SubsInv s) : SubsInv (updateChanged ok s) := by
  have h2 : SubsInv (Model.subUpdate ok .rem (Model.subUpdate ok .add s)) :=
    (h.subUpdate .add).subUpdate .rem
  unfold Model.updateChanged
  split
  · exact h
  · dsimp only
    split
    · exact { h2 with }
    · exact h2

/-- Entries whose marks stay. -/
theorem SubsInv.groups {lpn : Lpn} (h : SubsInv s)
    (hmarks : List.Forall₂ SameMarks s.lpn.groups lpn.groups) (hd : GroupsDistinct lpn.groups)
    (hnext : lpn.xactNext = s.lpn.xactNext) (hxact : lpn.xactPending = s.lpn.xactPending)
    (hsent : lpn.sentReq = s.lpn.sentReq) : SubsInv { s with lpn := lpn } := by
  have hadded : addedGroups lpn.groups = addedGroups s.lpn.groups :=
    addedGroups_congr hmarks fun _ _ hg => ⟨hg.added, fun ha => hg.group (Or.inl ha)⟩
  have hpending : pendingGroups lpn.groups = pendingGroups s.lpn.groups :=
    pendingGroups_congr hmarks fun _ _ hg => ⟨hg.pending, fun ha => hg.group (Or.inr ha)⟩
  refine { tidy := h.tidy.sameMarks hmarks hd, agree := ?_, airOld := ?_, lastOld := ?_,
           idle := ?_, air := ?_, last := ?_ }
  all_goals simp only [hadded, hpending, hnext, hxact, hsent]
  · exact h.agree
  · exact h.airOld
  · exact h.lastOld
  · exact h.idle
  · exact h.air
  · exact h.last

/-- The invariant holds on when the LPN adds a group to its list. -/
theorem SubsInv.lpnGroupAdd (h : SubsInv s) (group : ℕ) :
    SubsInv { s with lpn := lpnGroupAdd group s.lpn } := by
  obtain ⟨hmarks, hd⟩ := lpnGroupAdd_sameMarks group h.tidy
  refine h.groups hmarks hd ?_ ?_ ?_ <;> (unfold Model.lpnGroupAdd; split_ifs <;> rfl)

/-- The invariant holds on when the LPN deletes groups from its list. -/
theorem SubsInv.lpnGroupDel (h : SubsInv s) (groups : List ℕ) :
    SubsInv { s with lpn := groups.foldl lpnGroupDel s.lpn } := by
  induction groups generalizing s with
  | nil => exact h
  | cons group groups ih =>
    obtain ⟨hmarks, hd⟩ := lpnGroupDel_sameMarks group h.tidy
    exact ih (h.groups hmarks hd rfl rfl rfl)

end Sends

/-! ### What the LPN hears, and its timer -/

section Lpn

variable {s : Friendship} {ok : CtlSend}

/-- The invariant holds on when the LPN hears a confirmation. -/
theorem SubsInv.friendSubCfm {xact : ℕ} (h : SubsInv s) (hlast : s.frnd.last = some (.subCfm xact))
    (hok : ConfirmOk s s.frnd.last s.lpn.sentReq) : SubsInv (btMeshLpnFriendSubCfm ok xact s) := by
  unfold btMeshLpnFriendSubCfm
  split
  · exact h
  · exact h
  · next op hsent =>
      split
      · exact h
      · next hxact =>
          have hcur : xact = s.lpn.xactPending := by
            rw [hlast, hsent] at hok
            exact hok (not_not.1 hxact)
          have hdone := h.agree.confirm (h.last op xact hlast hsent hcur)
          have hconfirm : SubsInv
              { s with
                lpn := friendResponseReceived
                  { s.lpn with groups := s.lpn.groups.map (confirmGroup op) } } := by
            refine SubsCore.rest
              { tidy := h.tidy.confirm op
                agree := ?_
                airOld := h.airOld
                lastOld := h.lastOld } (fun _ ha => by cases ha) (pendingGroups_confirm op)
            change AgreeOff (pendingGroups (s.lpn.groups.map (confirmGroup op)))
              (addedGroups (s.lpn.groups.map (confirmGroup op))) _
            rw [pendingGroups_confirm, agreeOff_empty, addedGroups_confirm h.tidy, hdone]
          dsimp only
          split
          · exact hconfirm.updateChanged.sendFriendPoll
          · exact hconfirm.updateChanged

/-- An answer to a poll. -/
theorem SubsInv.responseReceived (h : SubsInv s) (hsent : s.lpn.sentReq = .poll) :
    SubsInv { s with lpn := friendResponseReceived s.lpn } :=
  SubsCore.rest { h with } (fun _ ha => by cases ha) (h.idle (by simp [hsent]))

/-- The invariant holds on when the LPN hears what its Friend sends. -/
theorem SubsInv.lpnRecv {pdu : FriendPdu} (h : SubsInv s) (hlast : s.frnd.last = some pdu)
    (hok : ConfirmOk s s.frnd.last s.lpn.sentReq) : SubsInv (lpnRecv ok s pdu) := by
  cases pdu with
  | subCfm xact => exact h.friendSubCfm hlast hok
  | queued pdu =>
    cases pdu with
    | update md =>
      simp only [Model.lpnRecv, btMeshLpnFriendUpdate]
      split
      · exact h
      · next hsent =>
          have hresp : SubsInv (Model.updateChanged ok _) :=
            (h.responseReceived (not_not.1 hsent)).updateChanged
          split
          · exact hresp.sendFriendPoll
          · exact hresp
    | msg =>
      simp only [Model.lpnRecv, btMeshLpnMsgReceived]
      split
      · exact h
      · next hsent => exact (h.responseReceived (not_not.1 hsent)).sendFriendPoll

/-- The timer takes the request back, to send it anew. -/
theorem SubsInv.unsent (h : SubsInv s) (hsent : ∀ op, s.lpn.sentReq ≠ .sub op) :
    SubsInv { s with lpn.sentReq := .none } :=
  SubsCore.rest { h with } (fun _ ha => by cases ha) (h.idle hsent)

/-- The invariant holds on when the LPN's timer fires. -/
theorem SubsInv.lpnTimeout {s' : Friendship} {pollTimeoutMax : ℤ} (h : SubsInv s)
    (hok : SubsOk s (.lpnTimeout pollTimeoutMax ok))
    (hs : lpnTimeout pollTimeoutMax ok s = some s') : SubsInv s' := by
  unfold Model.lpnTimeout at hs
  split at hs
  · cases hs
    exact { h with }
  · cases hs
    exact { h with }
  · next hstate =>
      split at hs
      · dsimp only at hs
        split at hs
        · next hsent =>
            cases hs
            exact (h.unsent (by simp [hsent])).sendFriendPoll
        · next hsent =>
            cases hs
            exact (h.unsent (by simp [hsent])).sendFriendPoll
        · next op hsent =>
            cases hs
            simp only [SubsOk, hsent] at hok
            exact SubsCore.subUpdate { h with } rfl (hok hstate)
      · cases hs

/-- The invariant holds on when the advertiser has sent a request or gives it up. -/
theorem SubsInv.reqSent {err : Bool} {queued : ℕ} (h : SubsInv s) (hok : err = true → GiveUpOk s) :
    SubsInv { s with lpn := reqSent err { s.lpn with queued := queued } } := by
  cases err with
  | false => exact { h with }
  | true =>
    refine SubsCore.rest
      { tidy := h.tidy.zeroPending
        agree := ?_
        airOld := h.airOld
        lastOld := h.lastOld } (fun _ ha => by cases ha) pendingGroups_zeroPending
    change AgreeOff (pendingGroups (zeroPending s.lpn.groups))
      (addedGroups (zeroPending s.lpn.groups)) _
    rw [pendingGroups_zeroPending, addedGroups_zeroPending, agreeOff_empty]
    exact h.toSubsCore.giveUp (hok rfl)

end Lpn

/-! ### What the Friend hears, and its timer -/

section Frnd

variable {s : Friendship}

/-- The Friend's list stays. -/
theorem SubsInv.frnd {frnd : Friend} {air : Option LpnReq} (h : SubsInv s)
    (hsub : frnd.subList = s.frnd.subList) (hair : air = s.air ∨ air = none)
    (hlast : frnd.last = s.frnd.last ∨ ∀ xact, frnd.last ≠ some (.subCfm xact)) :
    SubsInv { s with frnd := frnd, air := air } := by
  have hair' : ∀ req, air = some req → s.air = some req := by
    rcases hair with rfl | rfl
    · exact fun _ h => h
    · intro _ h
      cases h
  have hlast' : ∀ xact, frnd.last = some (.subCfm xact) → s.frnd.last = some (.subCfm xact) := by
    intro xact hx
    rcases hlast with hlast | hlast
    · rwa [← hlast]
    · exact absurd hx (hlast xact)
  refine { tidy := h.tidy, agree := ?_, airOld := ?_, lastOld := ?_, idle := h.idle,
           air := ?_, last := ?_ }
  all_goals simp only [hsub]
  · exact h.agree
  · exact fun op xact l ha => h.airOld op xact l (hair' _ ha)
  · exact fun xact hl => h.lastOld xact (hlast' xact hl)
  · exact fun op xact l ha => h.air op xact l (hair' _ ha)
  · exact fun op xact hl => h.last op xact (hlast' xact hl)

/-- The Friend does what a request asks for and has a confirmation of it. -/
theorem SubsInv.friendSub {op : SubOp} {encoded : Bool} {xact : ℕ} {addrList : List ℕ}
    (h : SubsInv s) (hair : s.air = some (.sub op xact addrList))
    (hok : s.frnd.pendingBuf = false → HearOk op addrList s) :
    SubsInv { s with frnd := btMeshFriendSub op encoded xact addrList s.frnd, air := none } := by
  unfold btMeshFriendSub
  split
  · exact h.frnd rfl (Or.inr rfl) (Or.inl rfl)
  · next hbuf =>
      have hhear := hok (by simpa using hbuf)
      obtain ⟨hxact, hnamed, hdone⟩ := h.air op xact addrList hair hhear.1
      have hne : ∀ a ∈ addrList, a ≠ addrUnassigned := by
        rintro a ha rfl
        exact h.tidy.addrUnassigned_not_mem_pendingGroups (hnamed _ ha)
      have hsub := subscribed_foldl hne hhear
      have hserved := hdone.serve
      rw [← hsub] at hserved
      refine { tidy := h.tidy, agree := ?_, airOld := ?_, lastOld := ?_, idle := h.idle,
               air := ?_, last := ?_ }
      · have hlist : (enqueueSubCfm encoded xact
            { s.frnd with
              pendingReq := true
              subList := addrList.foldl (Model.friendSub op) s.frnd.subList }).subList =
            addrList.foldl (Model.friendSub op) s.frnd.subList := by
          cases encoded <;> rfl
        simp only [hlist, hsub]
        exact h.agree.serve hnamed
      · exact fun _ _ _ ha => by cases ha
      · intro k hk
        cases encoded with
        | false => exact h.lastOld k hk
        | true =>
          cases hk
          exact h.airOld op xact addrList hair
      · exact fun _ _ _ ha => by cases ha
      · intro op' k _ hsent _
        obtain rfl : op = op' := SentReq.sub.inj (hhear.1.symm.trans hsent)
        cases encoded <;> exact hserved

/-- The invariant holds on when the Friend hears a request. -/
theorem SubsInv.friendRecv {encoded : Option ℕ} {req : LpnReq} (h : SubsInv s)
    (hair : s.air = some req) (hok : SubsOk s (.friendRecv encoded)) :
    SubsInv { s with frnd := friendRecv encoded s.frnd req, air := none } := by
  cases req with
  | sub op xact addrList =>
    simp only [SubsOk, hair] at hok
    exact h.friendSub hair hok
  | poll fsn =>
    simp only [Model.friendRecv, btMeshFriendPoll]
    split
    · exact h.frnd rfl (Or.inr rfl) (Or.inl rfl)
    · split
      · exact h.frnd rfl (Or.inr rfl) (Or.inl rfl)
      · exact h.frnd rfl (Or.inr rfl) (Or.inr fun xact hx => by cases hx)

/-- The invariant holds on when the Friend's timer fires. -/
theorem SubsInv.friendTimeout {frnd : Friend} (h : SubsInv s)
    (hs : friendTimeout s.frnd = some frnd) : SubsInv { s with frnd := frnd } := by
  unfold Model.friendTimeout at hs
  split_ifs at hs
  · cases hs
    exact h.frnd rfl (Or.inl rfl) (Or.inl rfl)
  · split at hs
    · cases hs
    · cases hs
      exact h.frnd rfl (Or.inl rfl) (Or.inr fun xact hx => by cases hx)

end Frnd

/-! ## Steps and runs -/

/-- Every step keeps the invariant. -/
theorem SubsInv.step {s s' : Friendship} {a : FriendshipAct} (h : SubsInv s) (hok : SubsOk s a)
    (hs : friendshipStep s a = some s') : SubsInv s' := by
  cases a with
  | groupAdd ok group =>
    cases hs
    exact (h.lpnGroupAdd group).subUpdate .add
  | groupDel ok groups =>
    cases hs
    exact (h.lpnGroupDel _).subUpdate .rem
  | poll ok =>
    cases hs
    exact h.sendFriendPoll
  | lpnTimeout pollTimeoutMax ok => exact h.lpnTimeout hok hs
  | reqSent err =>
    simp only [friendshipStep] at hs
    split at hs
    · cases hs
    · cases hs
      exact h.reqSent hok
  | lose =>
    cases hs
    exact h.frnd rfl (Or.inr rfl) (Or.inl rfl)
  | friendRecv encoded =>
    simp only [friendshipStep] at hs
    split at hs
    · cases hs
    · next hair =>
        cases hs
        exact h.friendRecv hair hok
  | enqueue pdu =>
    cases hs
    exact h.frnd rfl (Or.inl rfl) (Or.inl rfl)
  | friendTimeout =>
    simp only [friendshipStep] at hs
    split at hs
    · cases hs
    · next htimeout =>
        cases hs
        exact h.friendTimeout htimeout
  | bufSendStart heard ok =>
    have hstart : SubsInv { s with frnd.pendingBuf := false } :=
      h.frnd rfl (Or.inl rfl) (Or.inl rfl)
    simp only [friendshipStep] at hs
    split at hs
    · cases hs
    · split at hs
      · next pdu hlast =>
          cases hs
          cases heard with
          | false => exact hstart
          | true => exact hstart.lpnRecv hlast (hok rfl)
      · cases hs
        exact hstart

/-- **Friend and LPN agree on subscriptions.** In a friendship every step of which meets the
condition, the Friend's list holds exactly the groups that the LPN has marked as added, whenever the
LPN has no request out. -/
theorem subscriptions_agree {s₀ s : Friendship} {as : List FriendshipAct} (h₀ : Established s₀)
    (hmeet : StepsMeet friendshipStep SubsOk s₀ as)
    (hrun : runSteps friendshipStep s₀ as = some s) (hsent : s.lpn.sentReq = .none) :
    subscribed s.frnd.subList = addedGroups s.lpn.groups :=
  (runSteps_inv (fun _ _ _ h hok hs => h.step hok hs) (SubsInv.of_established h₀) hmeet
    hrun).agreement (by simp [hsent])

/-! ### Runs -/

/-- The groups of a run. -/
def groupsUsed (s₀ : Friendship) (as : List FriendshipAct) : List ℕ :=
  (s₀.lpn.groups.map (·.group)).filter (· ≠ addrUnassigned) ++
    as.filterMap fun
      | .groupAdd _ group => some group
      | _ => none

/-- A new friendship of an LPN without groups and a Friend with three entries in its list. -/
def newFriendship : Friendship where
  lpn :=
    { state := .established, xactNext := 0, xactPending := 0, sentReq := .none, reqAttempts := 0,
      groupsChanged := false, pendingPoll := false, fsn := true, queueSize := 16,
      groups := List.replicate 8 ⟨0, false, false, false⟩, queued := 0 }
  frnd :=
    { fsn := false, sendLast := false, pendingReq := false, pendingBuf := false,
      subList := [0, 0, 0], last := some (.queued (.update false 0)), queue := [] }
  air := none

/-- The new friendship is as the invariant asks it to be at the start. -/
theorem newFriendship_established : Established newFriendship where
  groups := by decide
  distinct := by decide
  sentReq := fun _ h => by cases h
  air := fun _ _ _ h => by cases h
  subList := by decide
  last := fun _ h => by cases h

/-- All sends succeed. -/
def sendAll : CtlSend := ⟨true, true, true⟩

/-- The Friend hears the request and answers; the LPN hears the answer or not. -/
def exchange (heard : Bool) : List FriendshipAct :=
  [.reqSent false, .friendRecv (some 1), .friendTimeout, .bufSendStart heard sendAll]

/-- The LPN waits for the answer in vain, and its timer sends the request again. -/
def retry : List FriendshipAct :=
  [.lpnTimeout 30000 sendAll, .lpnTimeout 30000 sendAll, .lpnTimeout 30000 sendAll]

/-- A group is added and removed; the first confirmation is lost. -/
def lostConfirm : List FriendshipAct :=
  [.groupAdd sendAll 0xC000] ++ exchange false ++ retry ++ exchange true ++
    [.groupDel sendAll [0xC000]] ++ exchange true

/-- After a lost confirmation the Friend keeps a group that the LPN has removed. -/
theorem subscriptions_differ :
    ¬∀ (s₀ s : Friendship) (as : List FriendshipAct), Established s₀ →
      (groupsUsed s₀ as).dedup.length ≤ s₀.frnd.subList.length →
      runSteps friendshipStep s₀ as = some s → s.lpn.sentReq = .none →
      subscribed s.frnd.subList = addedGroups s.lpn.groups := by
  intro h
  obtain ⟨s, hrun, hsent, hsub, hadded⟩ : ∃ s, runSteps friendshipStep newFriendship lostConfirm =
      some s ∧ s.lpn.sentReq = .none ∧ 0xC000 ∈ s.frnd.subList ∧
      ∀ g ∈ s.lpn.groups, g.added = false := ⟨_, rfl, by decide, by decide, by decide⟩
  have heq := h _ s lostConfirm newFriendship_established (by decide) hrun hsent
  have hmem : 0xC000 ∈ subscribed s.frnd.subList := ⟨hsub, by decide⟩
  rw [heq] at hmem
  obtain ⟨g, hg, hga, _⟩ := hmem
  simp [hadded g hg] at hga

/-- Two groups are added, one of them is removed; the first request is lost, and a confirmation of
the Remove. -/
def lostRequest : List FriendshipAct :=
  [.groupAdd sendAll 0xC000, .reqSent false, .lose] ++ retry ++ exchange true ++
    [.groupAdd sendAll 0xC001] ++ exchange true ++
    [.groupDel sendAll [0xC000]] ++ exchange false ++ retry ++ exchange true

/-- In that run the two sides agree in the end, on a list with the group that stays. -/
theorem subscriptions_agree_lostRequest :
    ∃ s, runSteps friendshipStep newFriendship lostRequest = some s ∧
      StepsMeet friendshipStep SubsOk newFriendship lostRequest ∧
      0xC001 ∈ s.frnd.subList ∧ subscribed s.frnd.subList = addedGroups s.lpn.groups := by
  have hmeet : StepsMeet friendshipStep SubsOk newFriendship lostRequest := by decide +kernel
  exact ⟨_, rfl, hmeet, by decide, subscriptions_agree newFriendship_established hmeet rfl rfl⟩

end GenieSdk.Analysis
