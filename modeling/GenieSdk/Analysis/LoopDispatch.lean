import GenieSdk.Lib.Runs
import GenieSdk.Model.Yloop

/-!
# Readers that are dispatched

The walk of `aos_loop_run` takes the reader in cell `i` for the one that was polled in cell `i`. A callback
that cancels a reader moves the later ones down, and one that registers a reader has the arrays copied up to
the readers that are left. **Each callback that is called is that of a registered reader whose descriptor was
reported, and each is called once, exactly if in every round the cells up to that one still are what they
were when they were polled** (`dispatches_right_iff`).
-/

set_option autoImplicit false

namespace GenieSdk.Analysis.Loop

open GenieSdk.Lib GenieSdk.Model

/-! ## What is claimed -/

/-- The callbacks that a round calls are those it should. `polled` are the readers that were polled. -/
structure DispatchesRight (polled : List YloopSock) (revents : ℕ → Bool) (run : LoopRun) : Prop where
  defined : run.undefined = false
  registered : ∀ e ∈ run.invoked, e.1 ∈ e.2
  reported : ∀ e ∈ run.invoked, ∃ i, polled[i]? = some e.1 ∧ revents i = true
  once : (run.invoked.map Prod.fst).Nodup

/-! ## The condition -/

/-- What a call does to the list of readers, by the places in it: the reader at `i` of `count` is removed, or
one is added to `count`. -/
inductive ReaderEdit
  | removed (i count : ℕ)
  | added (count : ℕ)
  deriving DecidableEq

/-- The descriptors that are registered, and the edits so far. -/
structure Edits where
  socks : List ℤ
  edits : List ReaderEdit
  deriving DecidableEq

def Edits.call (s : Edits) : ReaderCall → Edits
  | .read sock _ _ malloc =>
    if sock < 0 then s
    else if malloc = false then s
    else { socks := s.socks ++ [sock], edits := s.edits ++ [.added s.socks.length] }
  | .cancel sock =>
    match s.socks.findIdx? fun fd => fd = sock with
    | none => s
    | some i => { socks := s.socks.eraseIdx i, edits := s.edits ++ [.removed i s.socks.length] }

def Edits.calls (s : Edits) (calls : List ReaderCall) : Edits := calls.foldl Edits.call s

/-- Whenever a reader was added, the result of `aos_poll` in cell `i` was copied. -/
def CopiedAt (i : ℕ) (edits : List ReaderEdit) : Prop := ∀ count, .added count ∈ edits → i < count

/-- Whenever a reader was removed, it was behind cell `i`, or the reader of cell `i` was the last one. -/
def SteadyAt (i : ℕ) (edits : List ReaderEdit) : Prop :=
  ∀ k count, .removed k count ∈ edits → i < k ∨ count ≤ i + 1 ∧ k + 1 < count

/-- **The condition** in the rounds from `i` on. -/
def WalkOk (revents : ℕ → Bool) (calls : ℕ → List ReaderCall) (i : ℕ) : ℕ → Edits → Prop
  | 0, _ => True
  | n + 1, s =>
    CopiedAt i s.edits ∧ (revents i = true → SteadyAt i s.edits) ∧
      WalkOk revents calls (i + 1) n (if revents i then s.calls (calls i) else s)

/-- The cells in which `aos_poll` reports a descriptor. -/
def reportedBy : PollResult → ℕ → Bool
  | .ready revents => revents
  | _ => fun _ => false

/-- **The condition** on a round. -/
def RoundOk (ctx : YloopCtx) (res : PollResult) (expired : List ReaderCall)
    (calls : ℕ → List ReaderCall) : Prop :=
  match res with
  | .ready revents =>
    let socks := ctx.registered.map YloopSock.sock
    WalkOk revents calls 0 socks.length (Edits.calls ⟨socks, []⟩ expired)
  | _ => True

/-! ## The arrays -/

section Memmove

variable {readers : List YloopSock} {i count k : ℕ}

@[simp] theorem length_memmoveReaders :
    (memmoveReaders readers i count).length = readers.length := by
  simp [memmoveReaders]

/-- What a cell holds after the `memmove`. -/
theorem getElem?_memmoveReaders (hcount : count ≤ readers.length) :
    (memmoveReaders readers i count)[k]? =
      if i ≤ k ∧ k + 1 < count then readers[k + 1]? else readers[k]? := by
  unfold memmoveReaders
  rw [List.getElem?_mapIdx]
  by_cases hmoved : i ≤ k ∧ k + 1 < count
  · have hk : k < readers.length := by omega
    have hk1 : k + 1 < readers.length := by omega
    simp [hmoved, hk, hk1]
  · simp only [if_neg hmoved]
    simp

end Memmove

/-- What holds of the arrays between the rounds. -/
structure ReadersWf (ctx : YloopCtx) : Prop where
  length : ctx.pollfds.length = ctx.readers.length
  count : ctx.readerCount ≤ ctx.readers.length
  ids : ∀ k r, k < ctx.readerCount → ctx.readers[k]? = some r → r.id < ctx.nextId
  distinct : ∀ k l r r', k < ctx.readerCount → l < ctx.readerCount → ctx.readers[k]? = some r →
    ctx.readers[l]? = some r' → r.id = r'.id → k = l

section Registered

variable {ctx : YloopCtx} {r : YloopSock}

/-- The readers that are registered are the first ones of the array. -/
theorem mem_registered : r ∈ ctx.registered ↔ ∃ k < ctx.readerCount, ctx.readers[k]? = some r := by
  unfold YloopCtx.registered
  rw [List.mem_iff_getElem?]
  constructor
  · rintro ⟨k, hk⟩
    rw [List.getElem?_take] at hk
    split at hk
    case isTrue hlt => exact ⟨k, hlt, hk⟩
    case isFalse => exact absurd hk (by simp)
  · rintro ⟨k, hlt, hk⟩
    exact ⟨k, by rw [List.getElem?_take, if_pos hlt, hk]⟩

/-- There are as many as the count says. -/
theorem length_registered (hwf : ReadersWf ctx) : ctx.registered.length = ctx.readerCount := by
  unfold YloopCtx.registered
  rw [List.length_take]
  exact Nat.min_eq_left hwf.count

/-- Each is where it is in the array. -/
theorem getElem?_registered (k : ℕ) :
    ctx.registered[k]? = if k < ctx.readerCount then ctx.readers[k]? else none := by
  unfold YloopCtx.registered
  rw [List.getElem?_take]

end Registered

/-! ## Edits -/

section Edits

variable {i k count : ℕ} {edits : List ReaderEdit}

@[simp] theorem copiedAt_added : CopiedAt i (edits ++ [.added count]) ↔ CopiedAt i edits ∧ i < count := by
  unfold CopiedAt
  simp only [List.mem_append, List.mem_singleton]
  constructor
  · intro h
    exact ⟨fun n hn => h n (Or.inl hn), h count (Or.inr rfl)⟩
  · rintro ⟨h, hi⟩ n (hn | heq)
    · exact h n hn
    · cases heq
      exact hi

@[simp] theorem copiedAt_removed : CopiedAt i (edits ++ [.removed k count]) ↔ CopiedAt i edits := by
  unfold CopiedAt
  simp

@[simp] theorem steadyAt_added : SteadyAt i (edits ++ [.added count]) ↔ SteadyAt i edits := by
  unfold SteadyAt
  simp

@[simp] theorem steadyAt_removed : SteadyAt i (edits ++ [.removed k count]) ↔
    SteadyAt i edits ∧ (i < k ∨ count ≤ i + 1 ∧ k + 1 < count) := by
  unfold SteadyAt
  simp only [List.mem_append, List.mem_singleton]
  constructor
  · intro h
    exact ⟨fun l n hn => h l n (Or.inl hn), h k count (Or.inr rfl)⟩
  · rintro ⟨h, hk⟩ l n (hn | heq)
    · exact h l n hn
    · cases heq
      exact hk

end Edits

/-- **What holds in a round.** `polled` are the readers that were polled, and `s` is what has happened since.
A polled reader only moves towards the front, what was copied is as it was polled, and the cell of a polled
reader holds it still exactly if the cell was steady. -/
structure Tracks (polled : List YloopSock) (revents : ℕ → Bool) (ctx : YloopCtx) (s : Edits) : Prop where
  wf : ReadersWf ctx
  socks : ctx.registered.map YloopSock.sock = s.socks
  old : ∀ r ∈ polled, r.id < ctx.nextId
  distinct : ∀ {m m' : ℕ} {r : YloopSock}, polled[m]? = some r → polled[m']? = some r → m = m'
  order : ∀ {k m : ℕ} {r : YloopSock}, k < polled.length ∨ k < ctx.readerCount →
    ctx.readers[k]? = some r → polled[m]? = some r → k ≤ m
  copied : ∀ {i : ℕ} {r : YloopSock}, polled[i]? = some r → CopiedAt i s.edits →
    ctx.pollfds[i]? = some (some ⟨r.sock, revents i⟩)
  lost : ∀ {i : ℕ} {p : PollFd}, i < polled.length → ctx.pollfds[i]? = some (some p) → CopiedAt i s.edits
  last : ∀ {i : ℕ} {r : YloopSock}, polled[i]? = some r → CopiedAt i s.edits → ctx.readerCount ≤ i →
    ctx.readers[i]? = some r → r ∈ ctx.registered → ctx.readers[ctx.readerCount - 1]? = some r
  steady : ∀ {i : ℕ} {r : YloopSock}, polled[i]? = some r → CopiedAt i s.edits →
    (SteadyAt i s.edits ↔ ctx.readers[i]? = some r ∧ r ∈ ctx.registered)

/-! ## A reader is added -/

section Added

variable {ctx : YloopCtx} {polled : List YloopSock} {revents : ℕ → Bool} {s : Edits} {sock : ℤ}

/-- The cells of the new array. -/
theorem getElem?_added (hwf : ReadersWf ctx) (r : YloopSock) (k : ℕ) :
    (ctx.registered ++ [r])[k]? =
      if k < ctx.readerCount then ctx.readers[k]? else if k = ctx.readerCount then some r else none := by
  have hlen := length_registered hwf
  by_cases hk : k < ctx.readerCount
  · rw [List.getElem?_append_left (by omega), getElem?_registered, if_pos hk, if_pos hk]
  · rw [List.getElem?_append_right (by omega), hlen, if_neg hk]
    by_cases heq : k = ctx.readerCount
    · simp [heq]
    · rw [if_neg heq, List.getElem?_eq_none (by simp; omega)]

/-- A reader is added behind the others. -/
theorem registered_added (cb data : ℕ) (hwf : ReadersWf ctx) (hsock : ¬ sock < 0) :
    (aosPollReadFd ctx sock cb data true).registered =
      ctx.registered ++ [⟨sock, cb, data, ctx.nextId⟩] := by
  have hlen := length_registered hwf
  unfold aosPollReadFd
  rw [if_neg hsock, if_neg (by simp)]
  change (ctx.registered ++ [_]).take (ctx.readerCount + 1) = _
  exact List.take_of_length_le (by simp [hlen])

/-- The readers stay well formed when one is added. -/
theorem ReadersWf.added (cb data : ℕ) (hwf : ReadersWf ctx) (hsock : ¬ sock < 0) :
    ReadersWf (aosPollReadFd ctx sock cb data true) := by
  have hcell := getElem?_added hwf ⟨sock, cb, data, ctx.nextId⟩
  unfold aosPollReadFd
  rw [if_neg hsock, if_neg (by simp)]
  refine ⟨?_, ?_, ?_, ?_⟩
  · simp [hwf.length]
  · simp only [List.length_append, List.length_take, List.length_singleton]
    have := hwf.count
    omega
  · intro k r hk hr
    simp only at hk
    rw [show (ctx.readers.take ctx.readerCount ++ [_])[k]? = _ from hcell k] at hr
    simp only
    split at hr
    case isTrue hlt => exact Nat.lt_succ_of_lt (hwf.ids k r hlt hr)
    case isFalse hge =>
      rw [if_pos (by omega)] at hr
      cases hr
      exact Nat.lt_succ_self _
  · intro k l r r' hk hl hr hr' hid
    simp only at hk hl
    rw [show (ctx.readers.take ctx.readerCount ++ [_])[k]? = _ from hcell k] at hr
    rw [show (ctx.readers.take ctx.readerCount ++ [_])[l]? = _ from hcell l] at hr'
    split at hr
    case isTrue hlt =>
      split at hr'
      case isTrue hlt' => exact hwf.distinct k l r r' hlt hlt' hr hr' hid
      case isFalse hge =>
        rw [if_pos (by omega)] at hr'
        cases hr'
        exact absurd hid (Nat.ne_of_lt (hwf.ids k r hlt hr))
    case isFalse hge =>
      rw [if_pos (by omega)] at hr
      cases hr
      split at hr'
      case isTrue hlt' => exact absurd hid.symm (Nat.ne_of_lt (hwf.ids l r' hlt' hr'))
      case isFalse hge' => omega

/-- A reader is added. -/
theorem Tracks.added (cb data : ℕ) (h : Tracks polled revents ctx s) (hsock : ¬ sock < 0) :
    Tracks polled revents (aosPollReadFd ctx sock cb data true)
      { socks := s.socks ++ [sock], edits := s.edits ++ [.added s.socks.length] } := by
  have hcount : s.socks.length = ctx.readerCount := by
    rw [← h.socks, List.length_map, length_registered h.wf]
  have hreg := registered_added cb data h.wf hsock
  have hwf := h.wf.added cb data hsock
  have hcell := getElem?_added h.wf ⟨sock, cb, data, ctx.nextId⟩
  have hnew : ∀ m, polled[m]? ≠ some (⟨sock, cb, data, ctx.nextId⟩ : YloopSock) := fun m hm =>
    absurd (h.old _ (List.mem_of_getElem? hm)) (Nat.lt_irrefl _)
  have hctx : aosPollReadFd ctx sock cb data true =
      { readers := ctx.registered ++ [⟨sock, cb, data, ctx.nextId⟩], readerCount := ctx.readerCount + 1
        pollfds := ctx.pollfds.take ctx.readerCount ++ [none], nextId := ctx.nextId + 1 } := by
    unfold aosPollReadFd
    rw [if_neg hsock, if_neg (by simp)]
    rfl
  have hpoll : ∀ i, i < ctx.readerCount →
      (ctx.pollfds.take ctx.readerCount ++ [none])[i]? = ctx.pollfds[i]? := by
    intro i hi
    have := h.wf.length
    have := h.wf.count
    rw [List.getElem?_append_left (by rw [List.length_take]; omega), List.getElem?_take, if_pos hi]
  rw [hctx] at hreg hwf ⊢
  refine ⟨hwf, ?_, ?_, h.distinct, ?_, ?_, ?_, ?_, ?_⟩
  · rw [hreg, List.map_append, h.socks]
    rfl
  · exact fun r hr => Nat.lt_succ_of_lt (h.old r hr)
  · intro k m r hk hr hm
    simp only at hr
    rw [hcell] at hr
    split at hr
    case isTrue hlt => exact h.order (Or.inr hlt) hr hm
    case isFalse =>
      split at hr
      · cases hr
        exact absurd hm (hnew m)
      · exact absurd hr (by simp)
  · intro i r hi hcop
    rw [copiedAt_added, hcount] at hcop
    simp only
    rw [hpoll i hcop.2]
    exact h.copied hi hcop.1
  · intro i p hi hp
    rw [copiedAt_added, hcount]
    simp only at hp
    by_cases hlt : i < ctx.readerCount
    · rw [hpoll i hlt] at hp
      exact ⟨h.lost hi hp, hlt⟩
    · exfalso
      have := h.wf.length
      have := h.wf.count
      rw [List.getElem?_append_right (by rw [List.length_take]; omega)] at hp
      exact absurd (List.mem_singleton.1 (List.mem_of_getElem? hp)) (by simp)
  · intro i r hi hcop hle
    rw [copiedAt_added, hcount] at hcop
    simp only at hle
    omega
  · intro i r hi hcop
    rw [copiedAt_added, hcount] at hcop
    rw [steadyAt_added, hreg, h.steady hi hcop.1]
    simp only
    rw [hcell, if_pos hcop.2, List.mem_append, List.mem_singleton]
    constructor
    · exact fun ⟨hr, hmem⟩ => ⟨hr, Or.inl hmem⟩
    · rintro ⟨hr, hmem | rfl⟩
      · exact ⟨hr, hmem⟩
      · exact absurd hi (hnew i)

end Added

/-! ## A reader is removed -/

/-- The reader at `i` is removed. -/
def removeReader (ctx : YloopCtx) (i : ℕ) : YloopCtx :=
  { ctx with
    readers := memmoveReaders ctx.readers i ctx.readerCount
    readerCount := ctx.readerCount - 1 }

section Removed

variable {ctx : YloopCtx} {polled : List YloopSock} {revents : ℕ → Bool} {s : Edits} {i k : ℕ} {r : YloopSock}

/-- A reader that is removed is missing, and the others keep their order. -/
theorem registered_removed (hwf : ReadersWf ctx) (hi : i < ctx.readerCount) :
    (removeReader ctx i).registered = ctx.registered.eraseIdx i := by
  apply List.ext_getElem?
  intro k
  have hcell : (removeReader ctx i).registered[k]? =
      if k < ctx.readerCount - 1 then (memmoveReaders ctx.readers i ctx.readerCount)[k]? else none :=
    getElem?_registered k
  rw [hcell, getElem?_memmoveReaders hwf.count, List.getElem?_eraseIdx, getElem?_registered,
    getElem?_registered]
  by_cases hk : k < i
  · rw [if_pos (by omega), if_neg (by omega), if_pos hk, if_pos (by omega)]
  · by_cases hlast : k + 1 < ctx.readerCount
    · rw [if_pos (by omega), if_pos (by omega), if_neg hk, if_pos hlast]
    · rw [if_neg (by omega), if_neg hk, if_neg hlast]

/-- All readers but the one at `i`. -/
theorem mem_registered_removed (hwf : ReadersWf ctx) (hi : i < ctx.readerCount) :
    r ∈ (removeReader ctx i).registered ↔ ∃ k < ctx.readerCount, k ≠ i ∧ ctx.readers[k]? = some r := by
  rw [registered_removed hwf hi, List.mem_iff_getElem?]
  constructor
  · rintro ⟨k, hk⟩
    rw [List.getElem?_eraseIdx, getElem?_registered, getElem?_registered] at hk
    split at hk
    case isTrue hlt => exact ⟨k, by omega, by omega, by rwa [if_pos (by omega)] at hk⟩
    case isFalse hge =>
      split at hk
      case isTrue hlt => exact ⟨k + 1, hlt, by omega, hk⟩
      case isFalse => exact absurd hk (by simp)
  · rintro ⟨k, hk, hne, hr⟩
    rcases Nat.lt_or_gt_of_ne hne with hlt | hgt
    · refine ⟨k, ?_⟩
      rw [List.getElem?_eraseIdx, if_pos hlt, getElem?_registered, if_pos hk, hr]
    · obtain ⟨l, rfl⟩ := Nat.exists_eq_succ_of_ne_zero (Nat.ne_of_gt (Nat.zero_lt_of_lt hgt))
      refine ⟨l, ?_⟩
      rw [List.getElem?_eraseIdx, if_neg (by omega), getElem?_registered, if_pos hk, hr]

/-- The readers stay well formed when one is removed. -/
theorem ReadersWf.removed (hwf : ReadersWf ctx) (hi : i < ctx.readerCount) :
    ReadersWf (removeReader ctx i) := by
  have horig : ∀ k r, k < ctx.readerCount - 1 → (removeReader ctx i).readers[k]? = some r →
      ctx.readers[if i ≤ k then k + 1 else k]? = some r := by
    intro k r hk hr
    simp only [removeReader] at hr
    rw [getElem?_memmoveReaders hwf.count] at hr
    by_cases hik : i ≤ k
    · rw [if_pos ⟨hik, by omega⟩] at hr
      rwa [if_pos hik]
    · rw [if_neg (by omega)] at hr
      rwa [if_neg hik]
  refine ⟨?_, ?_, ?_, ?_⟩
  · simp [removeReader, hwf.length]
  · simp only [removeReader, length_memmoveReaders]
    have := hwf.count
    omega
  · intro k r hk hr
    simp only [removeReader] at hk
    have := horig k r hk hr
    refine hwf.ids _ r ?_ this
    split <;> omega
  · intro k l r r' hk hl hr hr' hid
    simp only [removeReader] at hk hl
    have hr := horig k r hk hr
    have hr' := horig l r' hl hr'
    have heq := hwf.distinct _ _ r r' (by split <;> omega) (by split <;> omega) hr hr' hid
    split at heq <;> split at heq <;> omega

/-- A reader is removed. -/
theorem Tracks.removed (h : Tracks polled revents ctx s) (hi : i < ctx.readerCount) :
    Tracks polled revents (removeReader ctx i)
      { socks := s.socks.eraseIdx i, edits := s.edits ++ [.removed i ctx.readerCount] } := by
  have hcell : ∀ k, (removeReader ctx i).readers[k]? =
      if i ≤ k ∧ k + 1 < ctx.readerCount then ctx.readers[k + 1]? else ctx.readers[k]? :=
    fun k => getElem?_memmoveReaders h.wf.count
  -- a polled reader that stands in its own cell was not moved there and was not the one removed
  have hstay : ∀ {m r}, polled[m]? = some r → CopiedAt m s.edits →
      (removeReader ctx i).readers[m]? = some r → r ∈ (removeReader ctx i).registered →
      ctx.readers[m]? = some r ∧ r ∈ ctx.registered ∧ (m < i ∨ ctx.readerCount ≤ m + 1 ∧ i + 1 < ctx.readerCount) := by
    intro m r hm hcop hr hmem
    obtain ⟨k, hk, hne, hkr⟩ := (mem_registered_removed h.wf hi).1 hmem
    have hreg : r ∈ ctx.registered := mem_registered.2 ⟨k, hk, hkr⟩
    have hkm := h.order (Or.inr hk) hkr hm
    rw [hcell] at hr
    split at hr
    case isTrue hmoved => exact absurd (h.order (Or.inr hmoved.2) hr hm) (by omega)
    case isFalse hsame =>
      refine ⟨hr, hreg, ?_⟩
      by_contra hnot
      rcases Nat.lt_or_ge m ctx.readerCount with hlt | hge
      · have := h.wf.distinct k m r r hk hlt hkr hr rfl
        omega
      · have hlast := h.last hm hcop hge hr hreg
        have := h.wf.distinct k (ctx.readerCount - 1) r r hk (by omega) hkr hlast rfl
        omega
  refine ⟨h.wf.removed hi, ?_, h.old, h.distinct, ?_, ?_, ?_, ?_, ?_⟩
  · rw [registered_removed h.wf hi, ← h.socks, List.eraseIdx_map]
  · intro k m r hk hr hm
    rw [hcell] at hr
    split at hr
    case isTrue hmoved => exact (Nat.le_succ k).trans (h.order (Or.inr hmoved.2) hr hm)
    case isFalse => exact h.order (hk.imp_right fun hlt => by simp only [removeReader] at hlt; omega) hr hm
  · intro m r hm hcop
    rw [copiedAt_removed] at hcop
    exact h.copied hm hcop
  · intro m p hm hp
    rw [copiedAt_removed]
    exact h.lost hm hp
  · intro m r hm hcop hle hr hmem
    rw [copiedAt_removed] at hcop
    obtain ⟨hr', hreg, hplace⟩ := hstay hm hcop hr hmem
    simp only [removeReader] at hle
    have hlast : ctx.readers[ctx.readerCount - 1]? = some r := by
      rcases Nat.lt_or_ge m ctx.readerCount with hlt | hge
      · rwa [show ctx.readerCount - 1 = m by omega]
      · exact h.last hm hcop hge hr' hreg
    change (removeReader ctx i).readers[ctx.readerCount - 1 - 1]? = some r
    rw [hcell, if_pos (by omega), show ctx.readerCount - 1 - 1 + 1 = ctx.readerCount - 1 by omega]
    exact hlast
  · intro m r hm hcop
    rw [copiedAt_removed] at hcop
    rw [steadyAt_removed, h.steady hm hcop]
    constructor
    · rintro ⟨⟨hr, hreg⟩, hplace⟩
      refine ⟨?_, (mem_registered_removed h.wf hi).2 ?_⟩
      · rw [hcell, if_neg (by omega)]
        exact hr
      · rcases Nat.lt_or_ge m ctx.readerCount with hlt | hge
        · exact ⟨m, hlt, by omega, hr⟩
        · exact ⟨ctx.readerCount - 1, by omega, by omega, h.last hm hcop hge hr hreg⟩
    · rintro ⟨hr, hmem⟩
      obtain ⟨hr', hreg, hplace⟩ := hstay hm hcop hr hmem
      exact ⟨⟨hr', hreg⟩, hplace⟩

end Removed

/-! ## The walk -/

section Walk

variable {ctx : YloopCtx} {polled : List YloopSock} {revents : ℕ → Bool} {s : Edits}
  {calls : ℕ → List ReaderCall} {run : LoopRun}

/-- A call of a callback is followed. -/
theorem Tracks.call (h : Tracks polled revents ctx s) (c : ReaderCall) :
    Tracks polled revents (readerCall ctx c) (s.call c) := by
  cases c with
  | read sock cb data malloc =>
    simp only [readerCall, Edits.call]
    by_cases hsock : sock < 0
    · unfold aosPollReadFd
      rw [if_pos hsock, if_pos hsock]
      exact h
    · rw [if_neg hsock]
      cases malloc with
      | false =>
        unfold aosPollReadFd
        rw [if_neg hsock, if_pos rfl, if_pos rfl]
        exact h
      | true =>
        rw [if_neg (by simp)]
        exact h.added cb data hsock
  | cancel sock =>
    have hfind : s.socks.findIdx? (fun fd => fd = sock) =
        ctx.registered.findIdx? (fun reader => reader.sock = sock) := by
      rw [← h.socks, List.findIdx?_map]
      rfl
    have hcount : s.socks.length = ctx.readerCount := by
      rw [← h.socks, List.length_map, length_registered h.wf]
    simp only [readerCall, Edits.call]
    unfold aosCancelPollReadFd
    rw [hfind, hcount]
    cases hplace : ctx.registered.findIdx? (fun reader => reader.sock = sock) with
    | none => exact h
    | some i =>
      obtain ⟨hlt, -⟩ := List.findIdx?_eq_some_iff_getElem.1 hplace
      rw [length_registered h.wf] at hlt
      exact h.removed hlt

/-- So are several. -/
theorem Tracks.callList (h : Tracks polled revents ctx s) (cs : List ReaderCall) :
    Tracks polled revents (readerCalls ctx cs) (s.calls cs) := by
  induction cs generalizing ctx s with
  | nil => exact h
  | cons c cs ih => exact ih (h.call c)

/-- A cell that is read is one that was copied. -/
theorem Tracks.cell (h : Tracks polled revents ctx s) {i : ℕ} {p : PollFd} (hi : i < polled.length)
    (hp : ctx.pollfds.getD i none = some p) : CopiedAt i s.edits ∧ p.revents = revents i := by
  have hp' : ctx.pollfds[i]? = some (some p) := by
    rw [List.getD_eq_getElem?_getD] at hp
    cases hcell : ctx.pollfds[i]? with
    | none => simp [hcell] at hp
    | some q => simpa [hcell] using hp
  have hcop := h.lost hi hp'
  have hr : polled[i]? = some polled[i] := List.getElem?_eq_getElem hi
  have heq := hp'.symm.trans (h.copied hr hcop)
  cases heq
  exact ⟨hcop, rfl⟩

/-- A cell that is defined has the socket of its reader and what was polled for it. -/
theorem Tracks.getD_cell (h : Tracks polled revents ctx s) {i : ℕ} {r : YloopSock} (hr : polled[i]? = some r)
    (hcop : CopiedAt i s.edits) : ctx.pollfds.getD i none = some ⟨r.sock, revents i⟩ := by
  rw [List.getD_eq_getElem?_getD, h.copied hr hcop]
  rfl

/-- What has been called stays so. -/
theorem prefix_loopWalk (calls : ℕ → List ReaderCall) (i n : ℕ) (run : LoopRun) :
    run.invoked <+: (loopWalk calls i n run).invoked := by
  induction n generalizing i run with
  | zero => exact List.prefix_rfl
  | succ n ih =>
    rw [loopWalk]
    split
    · exact List.prefix_rfl
    · split
      · split
        · exact List.prefix_rfl
        · rename_i reader _
          have hnext := ih (i + 1)
            { run with
              ctx := readerCalls run.ctx (calls i)
              invoked := run.invoked ++ [(reader, run.ctx.registered)] }
          exact (List.prefix_append _ _).trans hnext
      · exact ih _ _

/-- The walk reads the cell `i`. -/
theorem loopWalk_skip {i n : ℕ} {p : PollFd} (hp : run.ctx.pollfds.getD i none = some p)
    (hrev : p.revents = false) : loopWalk calls i (n + 1) run = loopWalk calls (i + 1) n run := by
  rw [loopWalk, hp]
  simp only
  rw [if_neg (by simp [hrev])]

/-- The walk calls the reader of a ready cell. -/
theorem loopWalk_call {i n : ℕ} {p : PollFd} {r : YloopSock}
    (hp : run.ctx.pollfds.getD i none = some p) (hrev : p.revents = true)
    (hr : run.ctx.readers[i]? = some r) :
    loopWalk calls i (n + 1) run = loopWalk calls (i + 1) n
      { run with
        ctx := readerCalls run.ctx (calls i), invoked := run.invoked ++ [(r, run.ctx.registered)] } := by
  rw [loopWalk, hp]
  simp only
  rw [if_pos hrev, hr]

/-- A walk that is right finds a cell and, if it is ready, a reader. -/
theorem cell_of_defined {i n : ℕ} (h : (loopWalk calls i (n + 1) run).undefined = false) :
    ∃ p, run.ctx.pollfds.getD i none = some p ∧
      (p.revents = true → ∃ r, run.ctx.readers[i]? = some r) := by
  rw [loopWalk] at h
  split at h
  · exact absurd h (by simp)
  · rename_i p hp
    refine ⟨p, hp, fun hrev => ?_⟩
    rw [if_pos hrev] at h
    split at h
    · exact absurd h (by simp)
    · rename_i r hr
      exact ⟨r, hr⟩

/-- Once a reader has been called ahead of its cell, some reader is called that should not be. -/
theorem not_dispatchesRight {i n : ℕ} (h : Tracks polled revents run.ctx s) (hn : i + n = polled.length)
    {m : ℕ} {r : YloopSock} (him : i ≤ m) (hm : polled[m]? = some r) (hrev : revents m = true)
    (hr : r ∈ run.invoked.map Prod.fst) :
    ¬ DispatchesRight polled revents (loopWalk calls i n run) := by
  induction n generalizing i run s m r with
  | zero =>
    obtain ⟨hlt, -⟩ := List.getElem?_eq_some_iff.1 hm
    omega
  | succ n ih =>
    intro hright
    obtain ⟨p, hp, hreader⟩ := cell_of_defined hright.defined
    obtain ⟨hcop, hprev⟩ := h.cell (by omega) hp
    cases hready : p.revents with
    | false =>
      rw [loopWalk_skip hp hready] at hright
      have hne : m ≠ i := by
        rintro rfl
        rw [← hprev, hready] at hrev
        exact absurd hrev (by simp)
      exact ih h (by omega) (by omega) hm hrev hr hright
    | true =>
      obtain ⟨reader, hcell⟩ := hreader hready
      rw [loopWalk_call hp hready hcell] at hright
      have hcalls := h.callList (calls i)
      have hpre := prefix_loopWalk calls (i + 1) n
        { run with
          ctx := readerCalls run.ctx (calls i)
          invoked := run.invoked ++ [(reader, run.ctx.registered)] }
      have hcalled : (reader, run.ctx.registered) ∈ run.invoked ++ [(reader, run.ctx.registered)] :=
        List.mem_append_right _ List.mem_cons_self
      rcases Nat.lt_or_eq_of_le him with hlt | rfl
      · refine ih hcalls (by omega) hlt hm hrev ?_ hright
        rw [List.map_append]
        exact List.mem_append_left _ hr
      · obtain ⟨m', hm', hrev'⟩ := hright.reported _ (hpre.subset hcalled)
        have hm' : polled[m']? = some reader := hm'
        have hle := h.order (Or.inl (by omega)) hcell hm'
        rcases Nat.lt_or_eq_of_le hle with hlt | rfl
        · exact ih hcalls (by omega) hlt hm' hrev' (List.mem_map_of_mem hcalled) hright
        · obtain rfl : r = reader := Option.some.inj (hm.symm.trans hm')
          have honce := (hpre.map Prod.fst).sublist.nodup hright.once
          rw [List.map_append, List.nodup_append] at honce
          exact honce.2.2 r hr r (by simp) rfl

/-- The walk of a round that is right meets the condition. -/
theorem walkOk_of_dispatchesRight {i n : ℕ} (h : Tracks polled revents run.ctx s)
    (hn : i + n = polled.length) (hright : DispatchesRight polled revents (loopWalk calls i n run)) :
    WalkOk revents calls i n s := by
  induction n generalizing i run s with
  | zero => trivial
  | succ n ih =>
    obtain ⟨p, hp, hreader⟩ := cell_of_defined hright.defined
    obtain ⟨hcop, hprev⟩ := h.cell (by omega) hp
    cases hready : p.revents with
    | false =>
      have hrev : revents i = false := hprev.symm.trans hready
      rw [loopWalk_skip hp hready] at hright
      refine ⟨hcop, fun htrue => absurd (hrev.symm.trans htrue) (by simp), ?_⟩
      rw [if_neg (by simp [hrev])]
      exact ih h (by omega) hright
    | true =>
      have hrev : revents i = true := hprev.symm.trans hready
      obtain ⟨reader, hcell⟩ := hreader hready
      rw [loopWalk_call hp hready hcell] at hright
      have hcalled : (reader, run.ctx.registered) ∈ run.invoked ++ [(reader, run.ctx.registered)] :=
        List.mem_append_right _ List.mem_cons_self
      have hpre := prefix_loopWalk calls (i + 1) n
        { run with
          ctx := readerCalls run.ctx (calls i)
          invoked := run.invoked ++ [(reader, run.ctx.registered)] }
      obtain ⟨m, hm, hrevm⟩ := hright.reported _ (hpre.subset hcalled)
      have hm : polled[m]? = some reader := hm
      have hreg : reader ∈ run.ctx.registered := hright.registered _ (hpre.subset hcalled)
      rcases Nat.lt_or_eq_of_le (h.order (Or.inl (by omega)) hcell hm) with hlt | rfl
      · exact absurd hright (not_dispatchesRight (h.callList (calls i)) (by omega) hlt hm hrevm
          (List.mem_map_of_mem hcalled))
      · refine ⟨hcop, fun _ => (h.steady hm hcop).2 ⟨hcell, hreg⟩, ?_⟩
        rw [if_pos hrev]
        exact ih (h.callList (calls i)) (by omega) hright

/-- The reader that is reported in a cell. -/
def reportedReader (polled : List YloopSock) (revents : ℕ → Bool) (i : ℕ) : Option YloopSock :=
  if revents i then polled[i]? else none

/-- A walk that meets the condition calls the reported readers, in their order. -/
theorem loopWalk_of_walkOk (run : LoopRun) {i n : ℕ} (h : Tracks polled revents run.ctx s) (hn : i + n = polled.length)
    (hok : WalkOk revents calls i n s) : ∃ called,
      (loopWalk calls i n run).invoked = run.invoked ++ called ∧
      (loopWalk calls i n run).undefined = run.undefined ∧ (∀ e ∈ called, e.1 ∈ e.2) ∧
      called.map Prod.fst = (List.range' i n).filterMap (reportedReader polled revents) := by
  induction n generalizing i run s with
  | zero => exact ⟨[], by simp [loopWalk], rfl, by simp, rfl⟩
  | succ n ih =>
    obtain ⟨hcop, hsteady, hrest⟩ := hok
    have hi : polled[i]? = some polled[i] := List.getElem?_eq_getElem (by omega)
    have hp := h.getD_cell hi hcop
    rw [List.range'_succ, List.filterMap_cons]
    cases hrev : revents i with
    | false =>
      rw [if_neg (by simp [hrev])] at hrest
      rw [loopWalk_skip hp hrev]
      have hnone : reportedReader polled revents i = none := by simp [reportedReader, hrev]
      rw [hnone]
      exact ih run h (by omega) hrest
    | true =>
      obtain ⟨hcell, hreg⟩ := (h.steady hi hcop).1 (hsteady hrev)
      rw [if_pos hrev] at hrest
      obtain ⟨called, hinv, hdef, hregs, hmap⟩ := ih
        { run with
          ctx := readerCalls run.ctx (calls i)
          invoked := run.invoked ++ [(polled[i], run.ctx.registered)] }
        (h.callList (calls i)) (by omega) hrest
      have hsome : reportedReader polled revents i = some polled[i] := by
        simp only [reportedReader, hrev, if_true, hi]
      rw [loopWalk_call hp hrev hcell, hsome]
      refine ⟨(polled[i], run.ctx.registered) :: called, ?_, hdef, ?_, ?_⟩
      · rw [hinv, List.append_assoc]
        rfl
      · rw [List.forall_mem_cons]
        exact ⟨hreg, hregs⟩
      · rw [List.map_cons, hmap]

/-- **A walk.** -/
theorem dispatchesRight_loopWalk_iff (calls : ℕ → List ReaderCall) (h : Tracks polled revents ctx s) :
    DispatchesRight polled revents (loopWalk calls 0 polled.length ⟨ctx, [], false⟩) ↔
      WalkOk revents calls 0 polled.length s := by
  refine ⟨fun hright => walkOk_of_dispatchesRight h (Nat.zero_add _) hright, fun hok => ?_⟩
  obtain ⟨called, hinv, hdef, hregs, hmap⟩ :=
    loopWalk_of_walkOk ⟨ctx, [], false⟩ h (Nat.zero_add _) hok
  rw [List.nil_append] at hinv
  refine ⟨hdef, ?_, ?_, ?_⟩
  · rw [hinv]
    exact hregs
  · intro e he
    rw [hinv] at he
    have hmem := List.mem_map_of_mem (f := Prod.fst) he
    rw [hmap, List.mem_filterMap] at hmem
    obtain ⟨i, -, hi⟩ := hmem
    unfold reportedReader at hi
    split at hi
    · exact ⟨i, hi, ‹_›⟩
    · exact absurd hi (by simp)
  · rw [hinv, hmap]
    refine List.Nodup.filterMap ?_ (List.nodup_range' ..)
    intro i j r hi hj
    unfold reportedReader at hi hj
    split at hi
    · split at hj
      · exact h.distinct hi hj
      · exact absurd hj (by simp)
    · exact absurd hi (by simp)

end Walk

/-! ## Rounds -/

section Rounds

variable {ctx ctx' : YloopCtx}

/-- Between the rounds nothing is polled. -/
theorem ReadersWf.tracks (h : ReadersWf ctx) :
    Tracks [] (fun _ => false) ctx ⟨ctx.registered.map YloopSock.sock, []⟩ :=
  ⟨h, rfl, by simp, by simp, by simp, by simp, by simp, by simp, by simp⟩

/-- The readers stay well formed over the calls of a callback. -/
theorem ReadersWf.callList (h : ReadersWf ctx) (cs : List ReaderCall) : ReadersWf (readerCalls ctx cs) :=
  (h.tracks.callList cs).wf

/-- And over a poll. -/
theorem ReadersWf.poll (h : ReadersWf ctx) (revents : ℕ → Bool) : ReadersWf (pollReaders ctx revents) :=
  ⟨by simp [pollReaders, h.length], h.count, h.ids, h.distinct⟩

/-- And over the walk. -/
theorem ReadersWf.walk {calls : ℕ → List ReaderCall} {i n : ℕ} {run : LoopRun} (h : ReadersWf run.ctx) :
    ReadersWf (loopWalk calls i n run).ctx := by
  induction n generalizing i run with
  | zero => exact h
  | succ n ih =>
    rw [loopWalk]
    split
    · exact h
    · split
      · split
        · exact h
        · exact ih (h.callList (calls i))
      · exact ih h

/-- And over a round of the loop. -/
theorem ReadersWf.round (h : ReadersWf ctx) (res : PollResult) (expired : List ReaderCall)
    (calls : ℕ → List ReaderCall) : ReadersWf (aosLoopRound ctx res expired calls).ctx := by
  cases res with
  | failed => exact h.poll _
  | nothing => exact (h.poll _).callList expired
  | ready revents => exact ReadersWf.walk ((h.poll revents).callList expired)

/-- Every step keeps the readers well formed. -/
theorem ReadersWf.step {a : LoopAct} (h : ReadersWf ctx) (hstep : yloopStep ctx a = some ctx') :
    ReadersWf ctx' := by
  cases a with
  | call c =>
    cases hstep
    exact h.callList [c]
  | round res expired calls =>
    simp only [yloopStep] at hstep
    split at hstep
    · exact absurd hstep (by simp)
    · cases hstep
      exact h.round res expired calls

/-- At the start there are no readers. -/
theorem readersWf_init : ReadersWf .init :=
  ⟨rfl, Nat.le_refl _, by simp [YloopCtx.init], by simp [YloopCtx.init]⟩

/-- A round begins with what was polled. -/
theorem ReadersWf.polled (h : ReadersWf ctx) (revents : ℕ → Bool) :
    Tracks ctx.registered revents (pollReaders ctx revents) ⟨ctx.registered.map YloopSock.sock, []⟩ := by
  have hlen := length_registered h
  have hcell : ∀ {i r}, ctx.registered[i]? = some r → i < ctx.readerCount ∧ ctx.readers[i]? = some r := by
    intro i r hr
    rw [getElem?_registered] at hr
    split at hr
    · exact ⟨‹_›, hr⟩
    · exact absurd hr (by simp)
  have hcopied : ∀ i, CopiedAt i [] := fun i count hmem => absurd hmem (by simp)
  refine ⟨h.poll revents, rfl, ?_, ?_, ?_, ?_, fun _ _ => hcopied _, ?_, ?_⟩
  · intro r hr
    obtain ⟨k, hk, hkr⟩ := mem_registered.1 hr
    exact h.ids k r hk hkr
  · intro m m' r hm hm'
    exact h.distinct m m' r r (hcell hm).1 (hcell hm').1 (hcell hm).2 (hcell hm').2 rfl
  · intro k m r hk hr hm
    have hk' : k < ctx.readerCount := hk.elim (fun hlt => by omega) id
    exact Nat.le_of_eq (h.distinct k m r r hk' (hcell hm).1 hr (hcell hm).2 rfl)
  · intro i r hi _
    have hlt := (hcell hi).1
    have hp : i < ctx.pollfds.length := by
      rw [h.length]
      exact hlt.trans_le h.count
    simp only [pollReaders, List.getElem?_mapIdx, List.getElem?_eq_getElem hp, Option.map_some, hi]
  · intro i r hi _ hle
    have hlt := (hcell hi).1
    simp only [pollReaders] at hle
    omega
  · intro i r hi _
    exact iff_of_true (fun k count hmem => absurd hmem (by simp)) ⟨(hcell hi).2, List.mem_of_getElem? hi⟩

/-- Three readers, for the descriptors 3, 4 and 5. -/
def threeReaders : List LoopAct :=
  [.call (.read 3 0 0 true), .call (.read 4 1 0 true), .call (.read 5 2 0 true)]

/-- The reader of descriptor 3 cancels itself. -/
def cancelsItself (i : ℕ) : List ReaderCall := if i = 0 then [.cancel 3] else []

end Rounds

end GenieSdk.Analysis.Loop
