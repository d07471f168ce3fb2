import GenieSdk.Analysis.MutexOwner

/-!
# Handing over mutexes

The functions that edit the lists of mutexes: `mutex_pri_look`, which unlinks a mutex and finds the
priority that is left, the link of a mutex to its new owner, and `task_mutex_free`.
-/

set_option autoImplicit false

namespace GenieSdk.Analysis.Rhino

open GenieSdk.Model.Rhino
open GenieSdk.Model (AllocFlag BlkState KStat)
open GenieSdk.Lib

section Look

variable {s s' : Kern} {fuel pri newPri p : ℕ} {prev : MutexListPtr} {rel : Option ℕ} {l : List ℕ}

/-- The priorities of the first waiters of the mutexes `l`. -/
def firstPrios (s : Kern) (l : List ℕ) : Set ℕ :=
  {q | ∃ m ∈ l, ∃ w rest, (s.objs m).blkList = w :: rest ∧ (s.tasks w).prio = q}

/-- A link is written and read. -/
theorem readPtr_writePtr (s : Kern) (ptr : MutexListPtr) (v : Option ℕ) :
    (s.writePtr ptr v).readPtr ptr = v := by
  cases ptr with
  | ofTask task => simp [Kern.writePtr, Kern.readPtr]
  | ofMutex mutex => simp [Kern.writePtr, Kern.readPtr]

/-- Writing a link leaves the other tasks. -/
theorem writePtr_task {t : ℕ} {ptr : MutexListPtr} (h : ptr ≠ .ofTask t) (v : Option ℕ) :
    (s.writePtr ptr v).tasks t = s.tasks t := by
  cases ptr with
  | ofTask task =>
    simp only [Kern.writePtr, setTask_tasks]
    apply Function.update_of_ne
    rintro rfl
    exact h rfl
  | ofMutex mutex => rfl

/-- And the other mutexes. -/
theorem writePtr_obj {m : ℕ} {ptr : MutexListPtr} (h : ptr ≠ .ofMutex m) (v : Option ℕ) :
    (s.writePtr ptr v).objs m = s.objs m := by
  cases ptr with
  | ofTask task => rfl
  | ofMutex mutex =>
    simp only [Kern.writePtr, setObj_objs]
    apply Function.update_of_ne
    rintro rfl
    exact h rfl

/-- No link is part of the waiters' priorities. -/
theorem firstPrios_writePtr (s : Kern) (ptr : MutexListPtr) (v : Option ℕ) (l : List ℕ) :
    firstPrios (s.writePtr ptr v) l = firstPrios s l := by
  have hprio : ∀ t, ((s.writePtr ptr v).tasks t).prio = (s.tasks t).prio := by
    intro t
    by_cases h : ptr = .ofTask t
    · simp [h, Kern.writePtr]
    · rw [writePtr_task h]
  have hlist : ∀ m, ((s.writePtr ptr v).objs m).blkList = (s.objs m).blkList := by
    intro m
    by_cases h : ptr = .ofMutex m
    · simp [h, Kern.writePtr]
    · rw [writePtr_obj h]
  unfold firstPrios
  simp only [hprio, hlist]

/-- One more mutex is looked at. -/
theorem least_firstPrios_cons {a : ℕ} (hle : newPri ≤ pri)
    (h : IsLeast (insert (if firstBlkPrio s a pri < newPri then firstBlkPrio s a pri else newPri)
      (firstPrios s l)) p) : IsLeast (insert newPri (firstPrios s (a :: l))) p := by
  unfold firstBlkPrio at h
  cases hlist : (s.objs a).blkList with
  | nil =>
    have hsame : firstPrios s (a :: l) = firstPrios s l := by
      ext q
      simp [firstPrios, hlist]
    rw [hlist] at h
    simp only [if_neg (not_lt.2 hle)] at h
    rw [hsame]
    exact h
  | cons w rest =>
    have hcons : firstPrios s (a :: l) = insert (s.tasks w).prio (firstPrios s l) := by
      ext q
      simp only [firstPrios, Set.mem_ofPred_eq, Set.mem_insert_iff, List.mem_cons]
      constructor
      · rintro ⟨m, rfl | hm, w', rest', hl', rfl⟩
        · rw [hlist] at hl'
          cases hl'
          exact .inl rfl
        · exact .inr ⟨m, hm, w', rest', hl', rfl⟩
      · rintro (rfl | ⟨m, hm, hrest⟩)
        · exact ⟨a, .inl rfl, w, rest, hlist, rfl⟩
        · exact ⟨m, .inr hm, hrest⟩
    rw [hlist] at h
    rw [hcons]
    obtain ⟨hmem, hlow⟩ := h
    simp only at hmem hlow
    constructor
    · rw [Set.mem_insert_iff] at hmem
      split at hmem
      · obtain rfl | hmem := hmem
        · simp
        · exact .inr (.inr hmem)
      · obtain rfl | hmem := hmem
        · simp
        · exact .inr (.inr hmem)
    · rintro q (rfl | rfl | hq)
      · have := hlow (Set.mem_insert _ _)
        split at this
        · omega
        · exact this
      · have := hlow (Set.mem_insert _ _)
        split at this
        · exact this
        · omega
      · exact hlow (.inr hq)

/-- **`mutex_pri_look`** unlinks the released mutex and finds the least priority among the first
waiters of the others. The induction is on the rest of the list behind `prev`. -/
theorem mutexPriLookLoop_spec (hl : SList (links s) (s.readPtr prev) l) (hnodup : l.Nodup)
    (hprev : ∀ a, prev = .ofMutex a → a ∉ l) (hle : newPri ≤ pri)
    (hc : mutexPriLookLoop rel fuel s prev pri newPri = some (p, s')) :
    SList (links s') (s'.readPtr prev) (l.filter fun m => rel ≠ some m) ∧
      (∀ t, prev ≠ .ofTask t → (s'.tasks t).mutexList = (s.tasks t).mutexList) ∧
      (∀ m, prev ≠ .ofMutex m → m ∉ l → (s'.objs m).mutexList = (s.objs m).mutexList) ∧
      IsLeast (insert newPri (firstPrios s (l.filter fun m => rel ≠ some m))) p := by
  induction l generalizing s prev pri newPri fuel with
  | nil =>
    cases fuel with
    | zero => cases hc
    | succ fuel =>
      unfold mutexPriLookLoop at hc
      rw [hl] at hc
      cases hc
      refine ⟨hl, fun _ _ => rfl, fun _ _ _ => rfl, ?_⟩
      simp [firstPrios]
  | cons a l ih =>
    cases fuel with
    | zero => cases hc
    | succ fuel =>
      obtain ⟨hread, hrest⟩ := hl
      obtain ⟨hal, hnodup⟩ := List.nodup_cons.1 hnodup
      unfold mutexPriLookLoop at hc
      rw [hread] at hc
      simp only at hc
      split at hc
      case isTrue hrel =>
        -- the mutex is unlinked and `prev` stays
        have hwrite : ∀ m ∈ l, (s.writePtr prev (s.objs a).mutexList).objs m = s.objs m := by
          intro m hm
          apply writePtr_obj
          intro heq
          exact hprev m heq (List.mem_cons_of_mem _ hm)
        have hrest' : SList (links (s.writePtr prev (s.objs a).mutexList))
            ((s.writePtr prev (s.objs a).mutexList).readPtr prev) l := by
          rw [readPtr_writePtr]
          apply hrest.congr
          intro m hm
          simp only [links, hwrite m hm]
        obtain ⟨hl', htasks, hobjs, hleast⟩ := ih hrest' hnodup
          (fun b hb hbl => hprev b hb (List.mem_cons_of_mem _ hbl)) hle hc
        have hfilter : (a :: l).filter (fun m => rel ≠ some m) =
            l.filter fun m => rel ≠ some m := by
          simp [hrel]
        rw [hfilter]
        refine ⟨hl', ?_, ?_, ?_⟩
        · intro t ht
          rw [htasks t ht, writePtr_task ht]
        · intro m hm hml
          rw [hobjs m hm fun h => hml (List.mem_cons_of_mem _ h), writePtr_obj hm]
        · rw [firstPrios_writePtr] at hleast
          exact hleast
      case isFalse hrel =>
        have hrest' : SList (links s) (s.readPtr (.ofMutex a)) l := hrest
        obtain ⟨hl', htasks, hobjs, hleast⟩ := ih hrest' hnodup
          (by rintro b hb; cases hb; exact hal) (by split <;> omega) hc
        have hfilter : (a :: l).filter (fun m => rel ≠ some m) =
            a :: l.filter fun m => rel ≠ some m := by
          simp [hrel]
        have hkeep : s'.readPtr prev = some a := by
          rw [← hread]
          cases prev with
          | ofTask t => exact htasks t (by simp)
          | ofMutex b =>
            have hb := hprev b rfl
            rw [List.mem_cons, not_or] at hb
            exact hobjs b (by simpa using Ne.symm hb.1) hb.2
        rw [hfilter]
        refine ⟨⟨hkeep, hl'⟩, ?_, ?_, least_firstPrios_cons hle hleast⟩
        · intro t _
          exact htasks t (by simp)
        · intro m _ hml
          rw [List.mem_cons, not_or] at hml
          exact hobjs m (by simpa using Ne.symm hml.1) hml.2

/-- **`mutex_pri_limit`** finds the least priority among the first waiters. -/
theorem mutexPriLimitLoop_spec {m : Option ℕ} (hl : SList (links s) m l) (hle : newPri ≤ pri)
    (hc : mutexPriLimitLoop s fuel m pri newPri = some p) :
    IsLeast (insert newPri (firstPrios s l)) p := by
  induction l generalizing m pri newPri fuel with
  | nil =>
    cases fuel with
    | zero => cases hc
    | succ fuel =>
      rw [show m = none from hl] at hc
      cases hc
      simp [firstPrios]
  | cons a l ih =>
    cases fuel with
    | zero => cases hc
    | succ fuel =>
      obtain ⟨rfl, hrest⟩ := hl
      unfold mutexPriLimitLoop at hc
      exact least_firstPrios_cons hle (ih hrest (by split <;> omega) hc)

end Look

section Owners

variable {s s' : Kern} {own own' : ℕ → ℕ → Prop} {dying del : Option ℕ} {task mutex fuel : ℕ}

/-- The priorities of the first waiters of the mutexes that the task owns. -/
def waiterPrios (s : Kern) (own : ℕ → ℕ → Prop) (task : ℕ) : Set ℕ :=
  {q | ∃ m, own task m ∧ ∃ w rest, (s.objs m).blkList = w :: rest ∧ (s.tasks w).prio = q}

/-- The same lists under another name for what they hold. -/
theorem OwnOk.congr (h : OwnOk s own dying)
    (hiff : ∀ t m, Live (s.tasks t) → some t ≠ dying → (own' t m ↔ own t m))
    (hunique : ∀ t u m, own' t m → own' u m → t = u) : OwnOk s own' dying where
  chain t ht hne := by
    obtain ⟨l, hl, hnodup, hmem⟩ := h.chain t ht hne
    refine ⟨l, hl, hnodup, ?_⟩
    intro m
    rw [hmem, hiff t m ht hne]
  unique := hunique
  seed := h.seed
  live := h.live
  free := h.free
  self := h.self

/-- A mutex has one owner. -/
theorem owns_unique (s : Kern) (t u m : ℕ) (ht : Owns s t m) (hu : Owns s u m) : t = u := by
  have := ht.2.symm.trans hu.2
  exact Option.some.inj this

/-- A frame of the kernel keeps who exists and who owns what. -/
theorem Frame.live (h : Frame s s') (t : ℕ) : Live (s'.tasks t) ↔ Live (s.tasks t) := by
  rw [h.task]
  rfl

/-- A step that changes priorities and lists leaves the owners. -/
theorem Frame.owns (h : Frame s s') (t m : ℕ) : Owns s' t m ↔ Owns s t m := by
  unfold Owns
  rw [h.obj]

/-- **The search for a priority** in the list of a task, and the unlinking of the released mutex. -/
theorem OwnOk.look {rel : Option ℕ} {s₁ : Kern} {p : ℕ} (h : OwnOk s own dying)
    (hlive : Live (s.tasks task)) (hne : some task ≠ dying)
    (hrel : ∀ u m, rel = some m → own u m → u = task)
    (hc : mutexPriLook fuel s task rel = some (p, s₁)) :
    OwnOk s₁ (fun t m => own t m ∧ rel ≠ some m) dying ∧
      IsLeast (insert (s.tasks task).bPrio
        (waiterPrios s (fun t m => own t m ∧ rel ≠ some m) task)) p := by
  obtain ⟨l, hl, hnodup, hmem⟩ := h.chain task hlive hne
  have hframe := mutexPriLookLoop_frame hc
  have hread : SList (links s) (s.readPtr (.ofTask task)) l := hl
  obtain ⟨hl', htasks, hobjs, hleast⟩ :=
    mutexPriLookLoop_spec hread hnodup (fun a ha => by cases ha) le_rfl hc
  have hmem' : ∀ m, m ∈ (l.filter fun m => rel ≠ some m) ↔ own task m ∧ rel ≠ some m := by
    intro m
    rw [List.mem_filter, hmem, decide_eq_true_eq]
  constructor
  · constructor
    case chain =>
      intro t ht htne
      by_cases htt : t = task
      · subst htt
        exact ⟨_, hl', hnodup.filter _, hmem'⟩
      · -- another task's list shares no mutex with that of `task`
        obtain ⟨k, hk, hknodup, hkmem⟩ := h.chain t ((hframe.live t).1 ht) htne
        refine ⟨k, ?_, hknodup, ?_⟩
        · rw [htasks t (by simpa using Ne.symm htt)]
          apply hk.congr
          intro m hm
          apply hobjs m (by simp)
          intro hml
          exact htt (h.unique t task m ((hkmem m).1 hm) ((hmem m).1 hml))
        · intro m
          rw [hkmem]
          constructor
          · intro hm
            exact ⟨hm, fun hr => htt (hrel t m hr hm)⟩
          · exact And.left
    case unique =>
      intro t u m ht hu
      exact h.unique t u m ht.1 hu.1
    case seed =>
      intro t ht
      have hst : (s.tasks t).taskState = .seed := by
        rw [hframe.task] at ht
        exact ht
      have htt : MutexListPtr.ofTask task ≠ .ofTask t := by
        intro heq
        cases heq
        exact hlive.1 hst
      rw [htasks t htt]
      exact h.seed t hst
    case live =>
      intro t m hm
      exact (hframe.live t).2 (h.live t m ((hframe.owns t m).1 hm))
    case free =>
      intro m hm hfree
      rw [hframe.obj] at hm hfree
      have := hframe.perm m
      rw [h.free m hm hfree] at this
      exact List.perm_nil.1 this
    case self =>
      intro t m hm
      rw [(hframe.perm m).mem_iff]
      exact h.self t m ((hframe.owns t m).1 hm)
  · have hset : waiterPrios s (fun t m => own t m ∧ rel ≠ some m) task =
        firstPrios s (l.filter fun m => rel ≠ some m) := by
      ext q
      simp only [waiterPrios, firstPrios, hmem']
    rw [hset]
    exact hleast

/-- A mutex that is in no list is linked to its new owner. -/
theorem OwnOk.hand (h : OwnOk s own dying) (hlive : Live (s.tasks task)) (hne : some task ≠ dying)
    (hself : task ∉ (s.objs mutex).blkList)
    (hnone : ∀ t, Live (s.tasks t) → some t ≠ dying → ¬ own t mutex) :
    OwnOk (mutexHandTo s mutex task) (fun t m => if m = mutex then t = task else own t m) dying := by
  have htasks : (mutexHandTo s mutex task).tasks = Function.update s.tasks task
      { s.tasks task with mutexList := some mutex } := rfl
  have hobjs : (mutexHandTo s mutex task).objs = Function.update s.objs mutex
      { s.objs mutex with mutexTask := some task, mutexList := (s.tasks task).mutexList } := rfl
  have hlinks : links (mutexHandTo s mutex task) =
      Function.update (links s) mutex (s.tasks task).mutexList := by
    funext m
    simp only [links, hobjs, Function.update_apply]
    split
    · rfl
    · rfl
  have hlive' : ∀ t, Live ((mutexHandTo s mutex task).tasks t) ↔ Live (s.tasks t) := by
    intro t
    rw [htasks, Function.update_apply]
    split
    case isTrue ht => rw [ht]; rfl
    case isFalse => rfl
  constructor
  case chain =>
    intro t ht htne
    rw [hlive'] at ht
    obtain ⟨l, hl, hnodup, hmem⟩ := h.chain t ht htne
    have hml : mutex ∉ l := by
      rw [hmem]
      exact hnone t ht htne
    rw [hlinks, htasks]
    by_cases htt : t = task
    · subst htt
      refine ⟨mutex :: l, ?_, List.nodup_cons.2 ⟨hml, hnodup⟩, ?_⟩
      · rw [Function.update_self]
        exact hl.push hml
      · intro m
        rw [List.mem_cons, hmem]
        by_cases hm : m = mutex
        · simp [hm]
        · simp [hm]
    · refine ⟨l, ?_, hnodup, ?_⟩
      · rw [Function.update_of_ne htt]
        exact hl.update hml _
      · intro m
        rw [hmem]
        by_cases hm : m = mutex
        · subst hm
          simp [htt, hnone t ht htne]
        · simp [hm]
  case unique =>
    intro t u m ht hu
    by_cases hm : m = mutex
    · simp only [hm, if_true] at ht hu
      rw [ht, hu]
    · simp only [hm, if_false] at ht hu
      exact h.unique t u m ht hu
  case seed =>
    intro t ht
    rw [htasks, Function.update_apply] at ht ⊢
    split at ht
    case isTrue htt =>
      exact absurd ht hlive.1
    case isFalse htt =>
      rw [if_neg htt]
      exact h.seed t ht
  case live =>
    intro t m hm
    rw [hlive']
    unfold Owns at hm
    rw [hobjs, Function.update_apply] at hm
    split at hm
    case isTrue =>
      obtain rfl : task = t := Option.some.inj hm.2
      exact hlive
    case isFalse => exact h.live t m hm
  case free =>
    intro m hm hfree
    rw [hobjs, Function.update_apply] at hm hfree ⊢
    split at hm
    case isTrue hmm =>
      rw [if_pos hmm] at hfree
      cases hfree
    case isFalse hmm =>
      rw [if_neg hmm] at hfree ⊢
      exact h.free m hm hfree
  case self =>
    intro t m hm
    unfold Owns at hm
    rw [hobjs, Function.update_apply] at hm ⊢
    split at hm
    case isTrue hmm =>
      rw [if_pos hmm]
      obtain rfl : task = t := Option.some.inj hm.2
      exact hself
    case isFalse hmm =>
      rw [if_neg hmm]
      exact h.self t m hm

/-- An object is written and its owner, its link, its type and its list stay. -/
theorem OwnOk.setObj {o : KObj} (h : OwnOk s own dying)
    (htype : o.objType = (s.objs mutex).objType) (howner : o.mutexTask = (s.objs mutex).mutexTask)
    (hlink : o.mutexList = (s.objs mutex).mutexList) (hlist : o.blkList = (s.objs mutex).blkList) :
    OwnOk (s.setObj mutex o) own dying := by
  have hobj : ∀ m, ((s.setObj mutex o).objs m).objType = (s.objs m).objType ∧
      ((s.setObj mutex o).objs m).mutexTask = (s.objs m).mutexTask ∧
      ((s.setObj mutex o).objs m).mutexList = (s.objs m).mutexList ∧
      ((s.setObj mutex o).objs m).blkList = (s.objs m).blkList := by
    intro m
    rw [setObj_objs, Function.update_apply]
    split
    case isTrue hm =>
      rw [hm]
      exact ⟨htype, howner, hlink, hlist⟩
    case isFalse => exact ⟨rfl, rfl, rfl, rfl⟩
  have howns : ∀ t m, Owns (s.setObj mutex o) t m ↔ Owns s t m := by
    intro t m
    unfold Owns
    rw [(hobj m).1, (hobj m).2.1]
  have hlinks : links (s.setObj mutex o) = links s := by
    funext m
    exact (hobj m).2.2.1
  constructor
  case chain =>
    rw [hlinks]
    exact h.chain
  case unique => exact h.unique
  case seed => exact h.seed
  case live =>
    intro t m hm
    exact h.live t m ((howns t m).1 hm)
  case free =>
    intro m hm hfree
    rw [(hobj m).1] at hm
    rw [(hobj m).2.1] at hfree
    rw [(hobj m).2.2.2]
    exact h.free m hm hfree
  case self =>
    intro t m hm
    rw [(hobj m).2.2.2]
    exact h.self t m ((howns t m).1 hm)

/-- Recording an event leaves the owners right. -/
theorem OwnOk.record (h : OwnOk s own dying) (e : LockEvent) : OwnOk (s.record e) own dying :=
  ⟨h.chain, h.unique, h.seed, h.live, h.free, h.self⟩

/-- A mutex that is in no list, and for which nobody waits, has no owner any more. -/
theorem OwnOk.setFree (h : OwnOk s own dying) (hnil : (s.objs mutex).blkList = []) :
    OwnOk (s.setObj mutex { s.objs mutex with mutexTask := none }) own dying := by
  have hlinks : links (s.setObj mutex { s.objs mutex with mutexTask := none }) = links s := by
    funext m
    simp only [links, setObj_objs, Function.update_apply]
    split
    case isTrue hm => rw [hm]
    case isFalse => rfl
  have howns : ∀ t m, Owns (s.setObj mutex { s.objs mutex with mutexTask := none }) t m →
      Owns s t m := by
    intro t m hm
    unfold Owns at hm
    rw [setObj_objs, Function.update_apply] at hm
    split at hm
    case isTrue => cases hm.2
    case isFalse => exact hm
  constructor
  case chain =>
    rw [hlinks]
    exact h.chain
  case unique => exact h.unique
  case seed => exact h.seed
  case live =>
    intro t m hm
    exact h.live t m (howns t m hm)
  case free =>
    intro m hm hfree
    rw [setObj_objs, Function.update_apply] at hm hfree ⊢
    split at hm
    case isTrue hmm =>
      rw [if_pos hmm]
      exact hnil
    case isFalse hmm =>
      rw [if_neg hmm] at hfree ⊢
      exact h.free m hm hfree
  case self =>
    intro t m hm
    have hself := h.self t m (howns t m hm)
    rw [setObj_objs, Function.update_apply]
    split
    case isTrue hmm =>
      rw [← hmm]
      exact hself
    case isFalse => exact hself

/-- Between calls: the list of each task holds what the task owns. -/
def Owned (s : Kern) : Prop := OwnOk s (Owns s) none

/-- The owners stay right if they stay. -/
theorem Owned.same (h : Owned s) (hsame : SameOwn s s') : Owned s' := by
  have h' : OwnOk s' (Owns s) none := OwnOk.same h hsame
  exact h'.congr (fun t m _ _ => hsame.owns t m) (owns_unique s')

/-- **A mutex is released**: it leaves the list of its owner, whose priority is found anew. -/
theorem OwnOk.release {m₀ : ℕ} (h : OwnOk s own dying) (hk : KernOk s del)
    (hlive : Live (s.tasks task)) (hne : some task ≠ dying) (hown : ∀ u, own u m₀ → u = task)
    (hc : mutexRelease fuel s task (some m₀) = some s') :
    OwnOk s' (fun t m => own t m ∧ m ≠ m₀) dying := by
  obtain ⟨newPri, s₁, hlook, hchange⟩ := mutexRelease_cases hc
  obtain ⟨hk₁, hp⟩ := mutexPriLook_ok hk hlook
  obtain ⟨h₁, -⟩ := h.look hlive hne (fun u m hm hu => hown u (by cases hm; exact hu)) hlook
  have h₂ : OwnOk s₁ (fun t m => own t m ∧ m ≠ m₀) dying := by
    apply h₁.congr
    · intro t m _ _
      simp [eq_comm]
    · intro t u m ht hu
      exact h.unique t u m ht.1 hu.1
  exact h₂.same (hchange.sameOwn hk₁ hp)

end Owners

end GenieSdk.Analysis.Rhino
