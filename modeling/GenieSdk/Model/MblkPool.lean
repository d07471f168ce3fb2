import GenieSdk.Model.Mm

/-!
# A fixed-block pool on its own

`k_mm_blk.c` without a heap around it: the pool that `krhinoMblkPoolInit` makes, and the calls on it.
Its free list goes through the first words of the free blocks. The blocks handed out are kept next to
the pool; who has one may write to it.
-/

set_option autoImplicit false

namespace GenieSdk.Model

/-- The initialisation with its check for `RHINO_NULL_PTR`, which the call from a heap always passes.
SRCLINE: k_mm_blk.c:20-22 -/
def mblkPoolInit (m : Words) (poolStart blkSize poolSize : ℕ) : Option (Option (Words × MblkPool)) :=
  if poolStart = 0 then some none else krhinoMblkPoolInit m poolStart blkSize poolSize

/-- The block and the pool, or `none` for `RHINO_NO_MEM`. SRCLINE: k_mm_blk.c:85-110 -/
def mblkAlloc (m : Words) (pool : MblkPool) : Option (ℕ × MblkPool) :=
  if 0 < pool.blkAvail then
    some (pool.availList,
      { pool with availList := m pool.availList, blkAvail := pool.blkAvail - 1 })
  else none

/-- SRCLINE: k_mm_blk.c:112-127 -/
def mblkFree (m : Words) (pool : MblkPool) (blk : ℕ) : Words × MblkPool :=
  (setWord m blk pool.availList, { pool with availList := blk, blkAvail := pool.blkAvail + 1 })

/-- The pool inside a heap is used by the same code. -/
theorem krhinoMblkAlloc_eq (s : MmHead) :
    krhinoMblkAlloc s = (mblkAlloc s.mem s.pool).map fun r => (r.1, { s with pool := r.2 }) := by
  unfold krhinoMblkAlloc mblkAlloc
  split <;> rfl

/-- Freeing changes the words and the pool only. -/
theorem krhinoMblkFree_eq (s : MmHead) (blk : ℕ) :
    krhinoMblkFree s blk =
      { s with mem := (mblkFree s.mem s.pool blk).1, pool := (mblkFree s.mem s.pool blk).2 } := rfl

/-- A pool, and the blocks that are handed out. -/
structure MblkSys where
  mem : Words
  pool : MblkPool
  live : List ℕ

inductive MblkAct
  | alloc
  | free (blk : ℕ)
  /-- Whoever has a block writes a word of it. -/
  | write (addr val : ℕ)

/-- A word of a block that is handed out. -/
def InLive (s : MblkSys) (addr : ℕ) : Prop :=
  ∃ p ∈ s.live, p ≤ addr ∧ addr < p + s.pool.blkSize

instance (s : MblkSys) (addr : ℕ) : Decidable (InLive s addr) :=
  inferInstanceAs (Decidable (∃ p ∈ s.live, _))

/-- `none` for a call that no owner of a block makes. -/
def mblkStep (s : MblkSys) : MblkAct → Option MblkSys
  | .alloc =>
    match mblkAlloc s.mem s.pool with
    | none => some s
    | some (blk, pool) => some { s with pool := pool, live := blk :: s.live }
  | .free blk =>
    if blk ∈ s.live then
      let r := mblkFree s.mem s.pool blk
      some { mem := r.1, pool := r.2, live := s.live.erase blk }
    else none
  | .write addr val =>
    if InLive s addr then some { s with mem := setWord s.mem addr val } else none

end GenieSdk.Model
