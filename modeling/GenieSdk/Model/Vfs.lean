import Mathlib.Tactic

/-!
# The virtual file system

`kernel/rhino/vfs`: the table of nodes that drivers and file systems are registered in, and the table of open
files. A node is looked up by its name, a file system also by the paths below its name, in the order of the
slots. The mutex is created and calls come one after the other, so taking it does not fail; what
`krhino_mm_alloc` and the `open` of a driver or file system return is part of the call.
-/

set_option autoImplicit false

namespace GenieSdk.Model

/-- A C string, without the NUL at its end. -/
abbrev CStr := List Char

inductive VfsType
  | notInit
  | charDev
  | blockDev
  | fsDev
  deriving DecidableEq

/-- `inode_t`; `ops` and `iArg` are pointers. -/
structure Inode where
  ops : ℕ
  iArg : ℕ
  iName : Option CStr
  iFlags : ℤ
  type : VfsType
  refs : ℕ
  deriving DecidableEq

/-- `g_vfs_dev_nodes`, and the `node` of each entry of `files`. -/
structure Vfs where
  nodes : List Inode
  files : List (Option ℕ)
  deriving DecidableEq

def enoent : ℤ := 2
def enomem : ℤ := 12
def ebusy : ℤ := 16
def enodev : ℤ := 19
def einval : ℤ := 22
def enfile : ℤ := 23
def enametoolong : ℤ := 36

/-- `AOS_CONFIG_VFS_FD_OFFSET` -/
def vfsFdOffset : ℤ := 512

/-- `inode_init`, with `AOS_CONFIG_VFS_DEV_NODES` nodes and `MAX_FILE_NUM` files.
SRCLINE: vfs_inode.c:14-18 -/
def inodeInit (devNodes maxFileNum : ℕ) : Vfs :=
  { nodes := List.replicate devNodes
      { ops := 0, iArg := 0, iName := none, iFlags := 0, type := .notInit, refs := 0 }
    files := List.replicate maxFileNum none }

/-! ## Nodes -/

/-- The first slot that is free. SRCLINE: vfs_inode.c:20-31 -/
def inodeAlloc (s : Vfs) : Option ℕ := s.nodes.findIdx? fun node => node.type = .notInit

/-- A node with open files stays as it is. SRCLINE: vfs_inode.c:33-51 -/
def inodeDel (node : Inode) : ℤ × Inode :=
  if 0 < node.refs then (-ebusy, node)
  else (0, { node with iName := none, iArg := 0, iFlags := 0, type := .notInit })

/-- `strncmp` finds no difference. -/
def strncmpEq (s t : CStr) (n : ℕ) : Bool := s.take n = t.take n

/-- The path is the name of the node or, of a file system, goes on with `/` after it.
SRCLINE: vfs_inode.c:61-72 -/
def inodeMatches (path : CStr) (node : Inode) : Bool :=
  node.iName.any fun name =>
    (node.type = .fsDev && (strncmpEq name path name.length && path[name.length]? = some '/')) ||
      name = path

/-- SRCLINE: vfs_inode.c:53-76 -/
def inodeOpen (s : Vfs) (path : CStr) : Option ℕ := s.nodes.findIdx? (inodeMatches path)

/-- `refs` has 8 bits. SRCLINE: vfs_inode.c:89-92 -/
def inodeRef (node : Inode) : Inode := { node with refs := (node.refs + 1) % 2 ^ 8 }

/-- SRCLINE: vfs_inode.c:94-99 -/
def inodeUnref (node : Inode) : Inode :=
  if 0 < node.refs then { node with refs := node.refs - 1 } else node

/-- The node that is reserved has its name already. SRCLINE: vfs_inode.c:120-169 -/
def inodeReserve (s : Vfs) (path : CStr) (memOk : Bool) : Except ℤ (ℕ × Vfs) :=
  if path.head? ≠ some '/' then .error (-einval)
  else
    match inodeAlloc s with
    | none => .error (-enomem)
    | some e =>
      if memOk then
        .ok (e, { s with nodes := s.nodes.modify e fun node => { node with iName := some path } })
      else .error (-enomem)

/-- SRCLINE: vfs_inode.c:171-189 -/
def inodeRelease (s : Vfs) (path : CStr) : ℤ × Vfs :=
  match inodeOpen s path with
  | none => (-enodev, s)
  | some e =>
    match s.nodes[e]? with
    | none => (-enodev, s)
    | some node => ((inodeDel node).1, { s with nodes := s.nodes.set e (inodeDel node).2 })

/-! ## Registration -/

/-- What the two registrations have in common. -/
def vfsRegister (type : VfsType) (s : Vfs) (path : CStr) (ops arg : ℕ) (memOk : Bool) : ℤ × Vfs :=
  match inodeReserve s path memOk with
  | .error ret => (ret, s)
  | .ok (e, s) =>
    (0, { s with nodes := s.nodes.modify e fun node => { node with type, ops, iArg := arg } })

/-- SRCLINE: vfs_register.c:12-43 -/
def aosRegisterDriver : Vfs → CStr → ℕ → ℕ → Bool → ℤ × Vfs := vfsRegister .charDev

/-- SRCLINE: vfs_register.c:64-93 -/
def aosRegisterFs : Vfs → CStr → ℕ → ℕ → Bool → ℤ × Vfs := vfsRegister .fsDev

/-- SRCLINE: vfs_register.c:45-62 -/
def aosUnregisterDriver : Vfs → CStr → ℤ × Vfs := inodeRelease

/-- SRCLINE: vfs_register.c:95-112 -/
def aosUnregisterFs : Vfs → CStr → ℤ × Vfs := inodeRelease

/-! ## Files -/

/-- The first file that is free, if any. SRCLINE: vfs_file.c:12-33 -/
def newFile (s : Vfs) (e : ℕ) : Option (ℕ × Vfs) :=
  (s.files.findIdx? Option.isNone).map fun f =>
    (f, { nodes := s.nodes.modify e inodeRef, files := s.files.set f (some e) })

/-- SRCLINE: vfs_file.c:35-39 -/
def delFile (s : Vfs) (f : ℕ) : Vfs :=
  match s.files[f]? with
  | some (some e) => { nodes := s.nodes.modify e inodeUnref, files := s.files.set f none }
  | _ => s

/-- SRCLINE: vfs_file.c:41-44 -/
def getFd (f : ℕ) : ℤ := f + vfsFdOffset

/-- The open file of a descriptor. SRCLINE: vfs_file.c:47-62 -/
def getFile (s : Vfs) (fd : ℤ) : Option ℕ :=
  if fd - vfsFdOffset < 0 then none
  else if (s.files[(fd - vfsFdOffset).toNat]?).join.isSome then some (fd - vfsFdOffset).toNat
  else none

/-- `ret` is what the `open` of the driver or file system returns, 0 if it has none.
SRCLINE: vfs.c:46-104 -/
def aosOpen (pathMax : ℕ) (s : Vfs) (path : CStr) (flags ret : ℤ) : ℤ × Vfs :=
  if path.length > pathMax then (-enametoolong, s)
  else
    match inodeOpen s path with
    | none => (-enoent, s)
    | some e =>
      let s := { s with nodes := s.nodes.modify e fun node => { node with iFlags := flags } }
      match newFile s e with
      | none => (-enfile, s)
      | some (f, s) => if ret ≠ 0 then (ret, delFile s f) else (getFd f, s)

/-- The result of the `close` of the driver or file system is overwritten. SRCLINE: vfs.c:106-145 -/
def aosClose (s : Vfs) (fd : ℤ) : ℤ × Vfs :=
  match getFile s fd with
  | none => (-enoent, s)
  | some f => (0, delFile s f)

/-! ## Runs -/

inductive VfsAct
  | registerDriver (path : CStr) (ops arg : ℕ) (memOk : Bool)
  | registerFs (path : CStr) (ops arg : ℕ) (memOk : Bool)
  | unregisterDriver (path : CStr)
  | unregisterFs (path : CStr)
  | open (path : CStr) (flags ret : ℤ)
  | close (fd : ℤ)
  deriving DecidableEq

/-- What a call returns, and the tables after it. -/
def vfsCall (pathMax : ℕ) (s : Vfs) : VfsAct → ℤ × Vfs
  | .registerDriver path ops arg memOk => aosRegisterDriver s path ops arg memOk
  | .registerFs path ops arg memOk => aosRegisterFs s path ops arg memOk
  | .unregisterDriver path => aosUnregisterDriver s path
  | .unregisterFs path => aosUnregisterFs s path
  | .open path flags ret => aosOpen pathMax s path flags ret
  | .close fd => aosClose s fd

def vfsStep (pathMax : ℕ) (s : Vfs) (a : VfsAct) : Option Vfs := some (vfsCall pathMax s a).2

end GenieSdk.Model
