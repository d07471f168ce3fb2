import GenieSdk.Lib.Runs
import GenieSdk.Model.Vfs

/-!
# Names and reference counts of the virtual file system

The `refs` of a node is the number of files that are open on it, in every run. What a path stands for is the
first node in the order of the slots that has it as its name or is a file system over it, for opening and for
unregistering alike. **A path is unregistered, and the path of a device opened, as they should exactly when no
file system over the path lies in a slot before the node's own**, unless open files protect it
(`vfs_calls_right_iff`).
-/

set_option autoImplicit false

namespace GenieSdk.Analysis

open GenieSdk.Lib GenieSdk.Model

/-! ## What is claimed -/

/-- The node in slot `e` is registered under the path. -/
def RegisteredAt (s : Vfs) (path : CStr) (e : ℕ) : Prop :=
  ∃ node, s.nodes[e]? = some node ∧ node.iName = some path

/-- It is a character device. -/
def CharDevAt (s : Vfs) (path : CStr) (e : ℕ) : Prop :=
  ∃ node, s.nodes[e]? = some node ∧ node.iName = some path ∧ node.type = .charDev

/-- The node in slot `e` is a file system whose name and a `/` begin the path. -/
def FsOver (s : Vfs) (path : CStr) (e : ℕ) : Prop :=
  ∃ node name, s.nodes[e]? = some node ∧ node.iName = some name ∧ node.type = .fsDev ∧
    name ++ ['/'] <+: path

/-- The number of open files that refer to slot `e`. -/
def openFiles (s : Vfs) (e : ℕ) : ℕ := s.files.count (some e)

def RefsRight (s : Vfs) : Prop := ∀ e node, s.nodes[e]? = some node → node.refs = openFiles s e

def DistinctPaths (s : Vfs) : Prop :=
  ∀ path e e', RegisteredAt s path e → RegisteredAt s path e' → e = e'

/-- The name of the node in slot `e`, if it has one. -/
def nameAt (s : Vfs) (e : ℕ) : Option CStr := (s.nodes[e]?).bind Inode.iName

/-- The name at a node is the path that is registered there. -/
theorem nameAt_eq_some {s : Vfs} {path : CStr} {e : ℕ} :
    nameAt s e = some path ↔ RegisteredAt s path e := by
  rw [nameAt, Option.bind_eq_some_iff]
  rfl

/-- No two nodes have the same path. -/
theorem distinctPaths_iff {s : Vfs} :
    DistinctPaths s ↔ ∀ e < s.nodes.length, ∀ e' < s.nodes.length,
      nameAt s e ≠ none → nameAt s e = nameAt s e' → e = e' := by
  constructor
  · intro h e _ e' _ hne heq
    obtain ⟨path, hpath⟩ := Option.ne_none_iff_exists'.1 hne
    exact h path e e' (nameAt_eq_some.1 hpath) (nameAt_eq_some.1 (heq ▸ hpath))
  · intro h path e e' he he'
    have hlt : ∀ k, RegisteredAt s path k → k < s.nodes.length := by
      rintro k ⟨node, hnode, -⟩
      exact (List.getElem?_eq_some_iff.1 hnode).1
    rw [← nameAt_eq_some] at he he'
    refine h e (hlt e (nameAt_eq_some.1 he)) e' (hlt e' (nameAt_eq_some.1 he')) ?_ ?_
    · rw [he]
      exact Option.some_ne_none path
    · rw [he, he']

instance (s : Vfs) : Decidable (DistinctPaths s) := decidable_of_iff _ distinctPaths_iff.symm

/-- A node after it has been removed. -/
def removed (node : Inode) : Inode :=
  { node with iName := none, iArg := 0, iFlags := 0, type := .notInit }

/-- The node registered under the path is removed, which has no open file, or nothing changes. -/
def UnregisterRight (s : Vfs) (path : CStr) (p : ℤ × Vfs) : Prop :=
  (p.1 = 0 ∧ ∃ e node, s.nodes[e]? = some node ∧ node.iName = some path ∧ openFiles s e = 0 ∧
    p.2 = { s with nodes := s.nodes.set e (removed node) }) ∨
  (p.1 < 0 ∧ p.2 = s)

/-- Opening the path of a device gives a file on that device, if there is one to give and the driver does
not fail. -/
def OpenRight (s : Vfs) (path : CStr) (ret : ℤ) (p : ℤ × Vfs) : Prop :=
  ret = 0 → none ∈ s.files → ∀ e, CharDevAt s path e →
    ∃ f, p.1 = getFd f ∧ p.2.files[f]? = some (some e)

def CallRight (pathMax : ℕ) (s : Vfs) (a : VfsAct) : Prop :=
  match a with
  | .unregisterDriver path => UnregisterRight s path (vfsCall pathMax s a)
  | .unregisterFs path => UnregisterRight s path (vfsCall pathMax s a)
  | .open path _ ret => OpenRight s path ret (vfsCall pathMax s a)
  | _ => True

/-- The first file system over the path, if it comes before the path's own node, has open files. -/
def UnregisterOk (s : Vfs) (path : CStr) : Prop :=
  ∀ e, FsOver s path e → (∀ k, FsOver s path k → e ≤ k) → (∀ k, RegisteredAt s path k → e < k) →
    0 < openFiles s e

/-- The path of a device is not too long, and no file system over it comes before the device. -/
def OpenOk (pathMax : ℕ) (s : Vfs) (path : CStr) (ret : ℤ) : Prop :=
  ret = 0 → none ∈ s.files → ∀ e, CharDevAt s path e →
    path.length ≤ pathMax ∧ ∀ k < e, ¬ FsOver s path k

/-- **The condition.** No call to unregister a path finds a file system without open files over it before the path's
own node (`UnregisterOk`), and none to open the path of a device is too long or finds a file system first
(`OpenOk`). -/
def CallOk (pathMax : ℕ) (s : Vfs) : VfsAct → Prop
  | .unregisterDriver path => UnregisterOk s path
  | .unregisterFs path => UnregisterOk s path
  | .open path _ ret => OpenOk pathMax s path ret
  | _ => True

/-! ## Looking a path up -/

/-- What `strncmp` and the character after the name say together. -/
theorem strncmpEq_slash {name path : CStr} :
    (strncmpEq name path name.length && path[name.length]? = some '/') = true ↔
      name ++ ['/'] <+: path := by
  unfold strncmpEq
  rw [Bool.and_eq_true, decide_eq_true_eq, decide_eq_true_eq, List.take_length]
  constructor
  · rintro ⟨htake, hslash⟩
    refine ⟨path.drop (name.length + 1), ?_⟩
    obtain ⟨hlt, hget⟩ := List.getElem?_eq_some_iff.1 hslash
    calc name ++ ['/'] ++ path.drop (name.length + 1)
        = path.take name.length ++ path.drop name.length := by
          rw [List.drop_eq_getElem_cons hlt, hget, ← htake, List.append_assoc]
          rfl
      _ = path := List.take_append_drop _ _
  · rintro ⟨rest, rfl⟩
    simp

/-- A node matches its own path, and a file system all paths below it. -/
theorem inodeMatches_iff {path : CStr} {node : Inode} :
    inodeMatches path node = true ↔ ∃ name, node.iName = some name ∧
      ((node.type = .fsDev ∧ name ++ ['/'] <+: path) ∨ name = path) := by
  unfold inodeMatches
  cases node.iName with
  | none => simp
  | some name =>
    simp only [Option.any_some, Bool.or_eq_true, Bool.and_eq_true (decide _), strncmpEq_slash,
      decide_eq_true_eq, Option.some.injEq, exists_eq_left']

/-- **What a path stands for**: the first node that is a file system over it or registered under it. -/
theorem inodeOpen_eq_some {s : Vfs} {path : CStr} {e : ℕ} :
    inodeOpen s path = some e ↔ (FsOver s path e ∨ RegisteredAt s path e) ∧
      ∀ k < e, ¬ FsOver s path k ∧ ¬ RegisteredAt s path k := by
  have hmatch : ∀ k, (∃ node, s.nodes[k]? = some node ∧ inodeMatches path node = true) ↔
      FsOver s path k ∨ RegisteredAt s path k := by
    intro k
    simp only [inodeMatches_iff, FsOver, RegisteredAt]
    constructor
    · rintro ⟨node, hnode, name, hname, ⟨hfs, hpre⟩ | rfl⟩
      · exact Or.inl ⟨node, name, hnode, hname, hfs, hpre⟩
      · exact Or.inr ⟨node, hnode, hname⟩
    · rintro (⟨node, name, hnode, hname, hfs, hpre⟩ | ⟨node, hnode, hname⟩)
      · exact ⟨node, hnode, name, hname, Or.inl ⟨hfs, hpre⟩⟩
      · exact ⟨node, hnode, path, hname, Or.inr rfl⟩
  unfold inodeOpen
  rw [List.findIdx?_eq_some_iff_getElem]
  simp only [← not_or, ← hmatch]
  constructor
  · rintro ⟨hlt, he, hbefore⟩
    refine ⟨⟨_, List.getElem?_eq_getElem hlt, he⟩, ?_⟩
    rintro k hk ⟨node, hnode, hk'⟩
    rw [List.getElem?_eq_getElem (hk.trans hlt), Option.some.injEq] at hnode
    rw [← hnode] at hk'
    exact hbefore k hk hk'
  · rintro ⟨⟨node, hnode, he⟩, hbefore⟩
    obtain ⟨hlt, rfl⟩ := List.getElem?_eq_some_iff.1 hnode
    refine ⟨hlt, he, fun k hk hk' => ?_⟩
    exact hbefore k hk ⟨_, List.getElem?_eq_getElem (hk.trans hlt), hk'⟩

/-- Where no node matches, nothing is registered for the path. -/
theorem inodeOpen_eq_none {s : Vfs} {path : CStr} (h : inodeOpen s path = none) (e : ℕ) :
    ¬ FsOver s path e ∧ ¬ RegisteredAt s path e := by
  unfold inodeOpen at h
  rw [List.findIdx?_eq_none_iff] at h
  constructor
  · rintro ⟨node, name, hnode, hname, hfs, hpre⟩
    have := h node (List.mem_of_getElem? hnode)
    rw [inodeMatches_iff.2 ⟨name, hname, Or.inl ⟨hfs, hpre⟩⟩] at this
    cases this
  · rintro ⟨node, hnode, hname⟩
    have := h node (List.mem_of_getElem? hnode)
    rw [inodeMatches_iff.2 ⟨path, hname, Or.inr rfl⟩] at this
    cases this

/-- A device is registered at its node. -/
theorem CharDevAt.registered {s : Vfs} {path : CStr} {e : ℕ} (h : CharDevAt s path e) :
    RegisteredAt s path e := by
  obtain ⟨node, hnode, hname, -⟩ := h
  exact ⟨node, hnode, hname⟩

/-! ## Reference counts -/

/-- The files of a node after one of them has been set. -/
theorem openFiles_set {s : Vfs} {f : ℕ} {a b : Option ℕ} (h : s.files[f]? = some a) (e : ℕ) :
    (s.files.set f b).count (some e) + (if a = some e then 1 else 0) =
      openFiles s e + (if b = some e then 1 else 0) := by
  have := countP_set_add b (fun x => x == some e) h
  simpa [openFiles, List.count] using this

/-- `findIdx?` finds a file that is free. -/
theorem newFile_cases (s : Vfs) (e : ℕ) :
    (newFile s e = none ∧ none ∉ s.files) ∨
      ∃ f, s.files[f]? = some none ∧ none ∈ s.files ∧
        newFile s e = some (f, { nodes := s.nodes.modify e inodeRef, files := s.files.set f (some e) }) := by
  unfold newFile
  cases hfind : s.files.findIdx? Option.isNone with
  | none =>
    rw [List.findIdx?_eq_none_iff] at hfind
    refine Or.inl ⟨rfl, fun hmem => ?_⟩
    have := hfind none hmem
    cases this
  | some f =>
    obtain ⟨hlt, hnone, -⟩ := List.findIdx?_eq_some_iff_getElem.1 hfind
    have hget : s.files[f]? = some none := by
      rw [List.getElem?_eq_getElem hlt, Option.some.injEq]
      exact Option.isNone_iff_eq_none.1 hnone
    exact Or.inr ⟨f, hget, List.mem_of_getElem? hget, rfl⟩

/-- A node after one of them has been changed. -/
theorem getElem?_modify_some {nodes : List Inode} {e k : ℕ} {g : Inode → Inode} {node' : Inode}
    (h : (nodes.modify e g)[k]? = some node') :
    ∃ node, nodes[k]? = some node ∧ node' = if e = k then g node else node := by
  rw [List.getElem?_modify, Option.map_eq_map, Option.map_eq_some_iff] at h
  obtain ⟨node, hnode, heq⟩ := h
  exact ⟨node, hnode, heq.symm⟩

/-- A node is changed, but not its `refs`. -/
theorem RefsRight.modify {s : Vfs} (h : RefsRight s) (e : ℕ) {g : Inode → Inode}
    (hg : ∀ node, (g node).refs = node.refs) : RefsRight { s with nodes := s.nodes.modify e g } := by
  intro k node' hnode'
  obtain ⟨node, hnode, rfl⟩ := getElem?_modify_some hnode'
  have hk : node.refs = openFiles s k := h k node hnode
  change _ = openFiles s k
  split
  · rw [hg, hk]
  · exact hk

/-- The references are right when a file is opened on a node. -/
theorem RefsRight.open {s : Vfs} (h : RefsRight s) (hlen : s.files.length ≤ 255) {e f : ℕ}
    (hf : s.files[f]? = some none) :
    RefsRight { nodes := s.nodes.modify e inodeRef, files := s.files.set f (some e) } := by
  intro k node' hnode'
  obtain ⟨node, hnode, rfl⟩ := getElem?_modify_some hnode'
  have hk : node.refs = openFiles s k := h k node hnode
  have hset := openFiles_set (b := some e) hf k
  change _ = (s.files.set f (some e)).count (some k)
  rw [if_neg (by simp)] at hset
  by_cases hek : e = k
  · rw [if_pos (by rw [hek])] at hset
    have hle : (s.files.set f (some e)).count (some k) ≤ 255 := by
      have := List.count_le_length (a := some k) (l := s.files.set f (some e))
      rw [List.length_set] at this
      omega
    rw [if_pos hek]
    change (node.refs + 1) % 2 ^ 8 = _
    omega
  · rw [if_neg (fun h => hek (Option.some.inj h))] at hset
    rw [if_neg hek]
    omega

/-- And when it is given back. -/
theorem RefsRight.del {s : Vfs} (h : RefsRight s) {e f : ℕ} (hf : s.files[f]? = some (some e)) :
    RefsRight { nodes := s.nodes.modify e inodeUnref, files := s.files.set f none } := by
  intro k node' hnode'
  obtain ⟨node, hnode, rfl⟩ := getElem?_modify_some hnode'
  have hk : node.refs = openFiles s k := h k node hnode
  have hset := openFiles_set (b := none) hf k
  change _ = (s.files.set f none).count (some k)
  rw [if_neg (show ¬ (none : Option ℕ) = some k by simp)] at hset
  by_cases hek : e = k
  · rw [if_pos (by rw [hek])] at hset
    rw [if_pos hek, inodeUnref, if_pos (by omega)]
    change node.refs - 1 = _
    omega
  · rw [if_neg (fun h => hek (Option.some.inj h))] at hset
    rw [if_neg hek]
    omega

/-- The counts are right and fit into 8 bits. -/
structure RefsInv (s : Vfs) : Prop where
  refs : RefsRight s
  files : s.files.length ≤ 255

/-- And when a node changes in other fields. -/
theorem RefsInv.modify {s : Vfs} (h : RefsInv s) (e : ℕ) {g : Inode → Inode}
    (hg : ∀ node, (g node).refs = node.refs) : RefsInv { s with nodes := s.nodes.modify e g } :=
  ⟨h.refs.modify e hg, h.files⟩

/-- A new file keeps the references right. -/
theorem RefsInv.newFile {s s' : Vfs} {e f : ℕ} (h : RefsInv s) (hnew : newFile s e = some (f, s')) :
    RefsInv s' := by
  obtain ⟨hnone, -⟩ | ⟨f', hf', -, hsome⟩ := newFile_cases s e
  · rw [hnone] at hnew
    cases hnew
  · rw [hsome] at hnew
    cases hnew
    exact ⟨h.refs.open h.files hf', by simpa using h.files⟩

/-- Giving a file back keeps them right. -/
theorem RefsInv.delFile {s : Vfs} (h : RefsInv s) (f : ℕ) : RefsInv (delFile s f) := by
  unfold Model.delFile
  split
  · rename_i e hf
    exact ⟨h.refs.del hf, by simpa using h.files⟩
  · exact h

/-- Registering a driver or a file system keeps them right. -/
theorem RefsInv.register {s : Vfs} (h : RefsInv s) (type : VfsType) (path : CStr) (ops arg : ℕ)
    (memOk : Bool) : RefsInv (vfsRegister type s path ops arg memOk).2 := by
  unfold vfsRegister inodeReserve
  split
  · exact h
  · rename_i e s' hres
    split at hres
    · cases hres
    · split at hres
      · cases hres
      · rename_i e' _
        cases memOk with
        | false => cases hres
        | true =>
          cases hres
          refine RefsInv.modify ?_ e ?_
          · refine RefsInv.modify h e ?_
            intro node
            rfl
          · intro node
            rfl

/-- What a removal does. -/
theorem inodeRelease_eq {s : Vfs} {path : CStr} {e : ℕ} {node : Inode}
    (h : inodeOpen s path = some e) (hnode : s.nodes[e]? = some node) :
    inodeRelease s path =
      if 0 < node.refs then (-ebusy, s)
      else (0, { s with nodes := s.nodes.set e (removed node) }) := by
  obtain ⟨hlt, rfl⟩ := List.getElem?_eq_some_iff.1 hnode
  unfold inodeRelease
  simp only [h, hnode, inodeDel]
  split
  · rw [List.set_getElem_self]
  · rfl

/-- Unregistering keeps them right. -/
theorem RefsInv.release {s : Vfs} (h : RefsInv s) (path : CStr) : RefsInv (inodeRelease s path).2 := by
  cases hopen : inodeOpen s path with
  | none =>
    unfold inodeRelease
    rw [hopen]
    exact h
  | some e =>
    have hlt : e < s.nodes.length := by
      obtain ⟨hlt, -, -⟩ := List.findIdx?_eq_some_iff_getElem.1 hopen
      exact hlt
    rw [inodeRelease_eq hopen (List.getElem?_eq_getElem hlt)]
    split
    · exact h
    · have hmod := h.modify e (g := removed) fun node => rfl
      rw [List.modify_eq_set_getElem?, List.getElem?_eq_getElem hlt] at hmod
      exact hmod

/-- Every call keeps them right. -/
theorem RefsInv.call {s : Vfs} (h : RefsInv s) (pathMax : ℕ) (a : VfsAct) :
    RefsInv (vfsCall pathMax s a).2 := by
  cases a with
  | registerDriver path ops arg memOk => exact h.register .charDev path ops arg memOk
  | registerFs path ops arg memOk => exact h.register .fsDev path ops arg memOk
  | unregisterDriver path => exact h.release path
  | unregisterFs path => exact h.release path
  | «open» path flags ret =>
    simp only [vfsCall, aosOpen]
    split
    · exact h
    · split
      · exact h
      · rename_i e _
        have hflags : RefsInv { s with nodes := s.nodes.modify e fun node =>
            { node with iFlags := flags } } := h.modify e fun node => rfl
        split
        · exact hflags
        · rename_i f s' hnew
          split
          · exact (hflags.newFile hnew).delFile f
          · exact hflags.newFile hnew
  | close fd =>
    simp only [vfsCall, aosClose]
    split
    · exact h
    · exact h.delFile _

/-! ## Unregistering and opening -/

/-- The name of a file system over a path is not the path. -/
theorem FsOver.not_registered {s : Vfs} {path : CStr} {e : ℕ} (h : FsOver s path e) :
    ¬ RegisteredAt s path e := by
  obtain ⟨node, name, hnode, hname, -, hpre⟩ := h
  rintro ⟨node', hnode', hname'⟩
  obtain rfl := Option.some.inj (hnode.symm.trans hnode')
  obtain rfl := Option.some.inj (hname.symm.trans hname')
  have := hpre.length_le
  simp at this

/-- The node found is a file system over the path, and it has no open files. -/
theorem not_unregisterRight {s : Vfs} {path : CStr} {e : ℕ} (hrefs : RefsRight s)
    (hopen : inodeOpen s path = some e) (hover : FsOver s path e) (hidle : openFiles s e = 0) :
    ¬ UnregisterRight s path (inodeRelease s path) := by
  have hnot := hover.not_registered
  obtain ⟨node, name, hnode, -⟩ := hover
  have hzero : node.refs = 0 := (hrefs e node hnode).trans hidle
  rw [inodeRelease_eq hopen hnode, if_neg (by omega)]
  rintro (⟨-, e', node', hnode', hname', -, heq⟩ | ⟨hlt, -⟩)
  · have hne : e ≠ e' := fun h => hnot ⟨node', by rw [h]; exact hnode', hname'⟩
    -- the node under the path is there still, under its name
    have hget : (s.nodes.set e (removed node))[e']? = (s.nodes.set e' (removed node'))[e']? := by
      rw [(Vfs.mk.inj heq).1]
    rw [List.getElem?_set_ne hne, List.getElem?_set_self (List.getElem?_eq_some_iff.1 hnode').1,
      hnode', Option.some.injEq] at hget
    rw [hget] at hname'
    cases hname'
  · exact absurd hlt (lt_irrefl 0)

/-- Unregistering a path takes the right node if and only if no file system without open files comes
before it. -/
theorem unregisterRight_iff {s : Vfs} {path : CStr} (hrefs : RefsRight s) :
    UnregisterRight s path (inodeRelease s path) ↔ UnregisterOk s path := by
  cases hopen : inodeOpen s path with
  | none =>
    refine ⟨fun _ e hover => absurd hover (inodeOpen_eq_none hopen e).1, fun _ => Or.inr ?_⟩
    unfold inodeRelease
    rw [hopen]
    exact ⟨by norm_num [enodev], rfl⟩
  | some e =>
    obtain ⟨hmatch, hbefore⟩ := inodeOpen_eq_some.1 hopen
    by_cases hreg : RegisteredAt s path e
    · refine ⟨fun _ k hover _ hlt => absurd hover (hbefore k (hlt e hreg)).1, fun _ => ?_⟩
      obtain ⟨node, hnode, hname⟩ := hreg
      rw [inodeRelease_eq hopen hnode]
      by_cases hbusy : 0 < node.refs
      · rw [if_pos hbusy]
        exact Or.inr ⟨by norm_num [ebusy], rfl⟩
      · rw [if_neg hbusy]
        have hidle : openFiles s e = 0 := by
          rw [← hrefs e node hnode]
          omega
        exact Or.inl ⟨rfl, e, node, hnode, hname, hidle, rfl⟩
    · have hover : FsOver s path e := hmatch.resolve_right hreg
      have hfirst : ∀ k, FsOver s path k → e ≤ k := fun k hk => by
        by_contra hlt
        exact (hbefore k (by omega)).1 hk
      have hlater : ∀ k, RegisteredAt s path k → e < k := fun k hk => by
        by_contra hle
        obtain rfl | hlt := (Nat.lt_or_eq_of_le (Nat.le_of_not_lt hle)).symm
        · exact hreg hk
        · exact (hbefore k hlt).2 hk
      constructor
      · intro hright k hk hkfirst _
        obtain rfl : e = k := le_antisymm (hfirst k hk) (hkfirst e hover)
        by_contra hidle
        exact not_unregisterRight hrefs hopen hover (by omega) hright
      · intro hok
        have hbusy := hok e hover hfirst hlater
        obtain ⟨node, name, hnode, -⟩ := hover
        rw [inodeRelease_eq hopen hnode, if_pos (by rw [hrefs e node hnode]; exact hbusy)]
        exact Or.inr ⟨by norm_num [ebusy], rfl⟩

/-- What opening a path gives when nothing stands in its way. -/
theorem aosOpen_eq {pathMax : ℕ} {s : Vfs} {path : CStr} {e : ℕ} (flags : ℤ)
    (hlen : path.length ≤ pathMax) (hopen : inodeOpen s path = some e) (hfree : none ∈ s.files) :
    ∃ f, (aosOpen pathMax s path flags 0).1 = getFd f ∧
      (aosOpen pathMax s path flags 0).2.files[f]? = some (some e) := by
  unfold aosOpen
  rw [if_neg (by omega), hopen]
  simp only
  obtain ⟨-, hnot⟩ | ⟨f, hf, -, hnew⟩ := newFile_cases
    { s with nodes := s.nodes.modify e fun node => { node with iFlags := flags } } e
  · exact absurd hfree hnot
  · rw [hnew]
    refine ⟨f, rfl, ?_⟩
    exact List.getElem?_set_self (List.getElem?_eq_some_iff.1 hf).1

/-- Opening the path of a device gives a file on it if and only if the path is not too long and no file
system comes before it. -/
theorem openRight_iff {pathMax : ℕ} {s : Vfs} {path : CStr} (flags ret : ℤ) (hdist : DistinctPaths s) :
    OpenRight s path ret (aosOpen pathMax s path flags ret) ↔ OpenOk pathMax s path ret := by
  unfold OpenRight OpenOk
  refine forall_congr' fun hret => forall_congr' fun hfree => forall₂_congr fun e hdev => ?_
  subst hret
  by_cases hlen : path.length ≤ pathMax
  · obtain ⟨e', hopen⟩ : ∃ e', inodeOpen s path = some e' := by
      cases hopen : inodeOpen s path with
      | none => exact absurd hdev.registered (inodeOpen_eq_none hopen e).2
      | some e' => exact ⟨e', rfl⟩
    obtain ⟨hmatch, hbefore⟩ := inodeOpen_eq_some.1 hopen
    obtain ⟨f, hfd, hfile⟩ := aosOpen_eq flags hlen hopen hfree
    constructor
    · rintro ⟨f', hfd', hfile'⟩
      have hff : f' = f := by
        rw [hfd] at hfd'
        unfold getFd at hfd'
        omega
      rw [hff, hfile, Option.some.injEq, Option.some.injEq] at hfile'
      subst hfile'
      exact ⟨hlen, fun k hk => (hbefore k hk).1⟩
    · rintro ⟨-, hnone⟩
      have hle : e' ≤ e := by
        by_contra hlt
        exact (hbefore e (by omega)).2 hdev.registered
      obtain rfl : e' = e := by
        obtain hover | hreg := hmatch
        · by_contra hne
          exact hnone e' (by omega) hover
        · exact hdist path e' e hreg hdev.registered
      exact ⟨f, hfd, hfile⟩
  · refine ⟨?_, fun h => absurd h.1 hlen⟩
    rintro ⟨f, hfd, -⟩
    rw [aosOpen, if_pos (by omega)] at hfd
    unfold getFd vfsFdOffset enametoolong at hfd
    omega

/-- A call is right if and only if it meets the condition. -/
theorem callRight_iff {pathMax : ℕ} {s : Vfs} (a : VfsAct) (hrefs : RefsRight s)
    (hdist : DistinctPaths s) : CallRight pathMax s a ↔ CallOk pathMax s a := by
  cases a with
  | registerDriver path ops arg memOk => exact Iff.rfl
  | registerFs path ops arg memOk => exact Iff.rfl
  | unregisterDriver path => exact unregisterRight_iff hrefs
  | unregisterFs path => exact unregisterRight_iff hrefs
  | «open» path flags ret => exact openRight_iff flags ret hdist
  | close fd => exact Iff.rfl

/-- At the start there are no references. -/
theorem inodeInit_refsInv (devNodes : ℕ) {maxFileNum : ℕ} (h : maxFileNum ≤ 255) :
    RefsInv (inodeInit devNodes maxFileNum) := by
  refine ⟨fun e node hnode => ?_, by simpa [inodeInit] using h⟩
  obtain ⟨-, hnode⟩ := List.mem_replicate.1 (List.mem_of_getElem? hnode)
  rw [hnode, openFiles]
  simp [inodeInit, List.count_replicate]

/-- **Names and reference counts.** Along every run in which no two nodes have one path, the reference counts
are right in every state, and every call does what it should if and only if every call meets the condition. -/
theorem vfs_calls_right_iff {pathMax devNodes maxFileNum : ℕ} (hmax : maxFileNum ≤ 255)
    {as : List VfsAct}
    (hdist : StepsMeet (vfsStep pathMax) (fun s _ => DistinctPaths s)
      (inodeInit devNodes maxFileNum) as) :
    (∀ pre t, pre <+: as →
      runSteps (vfsStep pathMax) (inodeInit devNodes maxFileNum) pre = some t → RefsRight t) ∧
    (StepsMeet (vfsStep pathMax) (CallRight pathMax) (inodeInit devNodes maxFileNum) as ↔
      StepsMeet (vfsStep pathMax) (CallOk pathMax) (inodeInit devNodes maxFileNum) as) := by
  have hinit := inodeInit_refsInv devNodes hmax
  have hstep : ∀ s a s', RefsInv s → vfsStep pathMax s a = some s' → RefsInv s' :=
    fun s a s' h hs' => Option.some.inj hs' ▸ h.call pathMax a
  refine ⟨fun pre t _ hrun => ?_, ?_⟩
  · have hall : StepsMeet (vfsStep pathMax) (fun _ _ => True) (inodeInit devNodes maxFileNum) pre :=
      stepsMeet_of_forall (fun _ _ _ => trivial) _
    exact (runSteps_inv (fun s a s' h _ => hstep s a s' h) hinit hall hrun).refs
  · exact stepsMeet_congr hstep (fun s a h hd => callRight_iff a h.refs hd) hinit hdist

/-- A file system, a device whose path lies below it, and the calls that take the device away. -/
def fsOverDevice : List VfsAct :=
  [.registerFs ['/', 'a'] 1 0 true, .registerDriver ['/', 'a', '/', 'b'] 2 0 true,
    .open ['/', 'a', '/', 'b'] 0 0, .close 512, .unregisterDriver ['/', 'a', '/', 'b']]

/-- The theorem for a run in which a file system is registered over a device. -/
theorem vfs_calls_right_fsOverDevice :
    (∀ pre t, pre <+: fsOverDevice →
      runSteps (vfsStep 256) (inodeInit 5 10) pre = some t → RefsRight t) ∧
    (StepsMeet (vfsStep 256) (CallRight 256) (inodeInit 5 10) fsOverDevice ↔
      StepsMeet (vfsStep 256) (CallOk 256) (inodeInit 5 10) fsOverDevice) :=
  vfs_calls_right_iff (by norm_num) (by decide +kernel)

/-- The device is registered under its path, but the file system is unregistered. -/
theorem unregister_takes_the_wrong_node :
    StepsMeet (vfsStep 256) (fun s _ => DistinctPaths s) (inodeInit 5 10) fsOverDevice ∧
      ¬ StepsMeet (vfsStep 256) (CallRight 256) (inodeInit 5 10) fsOverDevice := by
  refine ⟨by decide +kernel, fun hall => ?_⟩
  have hright := ((((hall.2 _ rfl).2 _ rfl).2 _ rfl).2 _ rfl).1
  have hinv : RefsInv (inodeInit 5 10) := inodeInit_refsInv 5 (by norm_num)
  refine not_unregisterRight (e := 0) ?_ ?_ ?_ ?_ hright
  · exact ((((hinv.call 256 _).call 256 _).call 256 _).call 256 _).refs
  · decide +kernel
  · exact ⟨_, ['/', 'a'], rfl, rfl, rfl, by decide⟩
  · decide +kernel

end GenieSdk.Analysis
