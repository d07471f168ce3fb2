import Mathlib.Data.List.Basic
import Mathlib.Tactic

/-!
# The readers of the event loop

One round of `aos_loop_run`, with what the callbacks in it register and cancel. `readers` and `pollfds` are
the arrays as they are allocated, which may be longer than `reader_count`; a cell of `pollfds` that was never
written is `none`, and a round that reads one, or a cell that is not there, has no defined outcome.
-/

set_option autoImplicit false

namespace GenieSdk.Model

/-- `yloop_sock_t`. `id` numbers the registrations; the code keeps no such number. -/
structure YloopSock where
  sock : ℤ
  cb : ℕ
  privateData : ℕ
  id : ℕ
  deriving DecidableEq, Repr

/-- `struct pollfd`; `revents` says whether `POLLIN` is set. -/
structure PollFd where
  fd : ℤ
  revents : Bool
  deriving DecidableEq, Repr

/-- `yloop_ctx_t`; `nextId` is the number of the next registration. -/
structure YloopCtx where
  readers : List YloopSock
  readerCount : ℕ
  pollfds : List (Option PollFd)
  nextId : ℕ
  deriving DecidableEq, Repr

namespace YloopCtx

/-- SRCLINE: yloop.c:67-90 -/
def init : YloopCtx := { readers := [], readerCount := 0, pollfds := [], nextId := 0 }

/-- What is registered. -/
def registered (ctx : YloopCtx) : List YloopSock := ctx.readers.take ctx.readerCount

end YloopCtx

/-- `malloc` says whether there was memory for both arrays. SRCLINE: yloop.c:92-136 -/
def aosPollReadFd (ctx : YloopCtx) (sock : ℤ) (cb privateData : ℕ) (malloc : Bool) : YloopCtx :=
  if sock < 0 then ctx
  else if malloc = false then ctx
  else
    { readers := ctx.readers.take ctx.readerCount ++ [⟨sock, cb, privateData, ctx.nextId⟩]
      readerCount := ctx.readerCount + 1
      pollfds := ctx.pollfds.take ctx.readerCount ++ [none]
      nextId := ctx.nextId + 1 }

/-- The `memmove` over entry `i` of `count`. The cells behind `count` stay, and so does the last one. -/
def memmoveReaders (readers : List YloopSock) (i count : ℕ) : List YloopSock :=
  readers.mapIdx fun k reader => if i ≤ k ∧ k + 1 < count then readers.getD (k + 1) reader else reader

/-- SRCLINE: yloop.c:138-163 -/
def aosCancelPollReadFd (ctx : YloopCtx) (sock : ℤ) : YloopCtx :=
  match ctx.registered.findIdx? fun reader => reader.sock = sock with
  | none => ctx
  | some i =>
    { ctx with
      readers := memmoveReaders ctx.readers i ctx.readerCount
      readerCount := ctx.readerCount - 1 }

/-- What a callback may do to the readers. -/
inductive ReaderCall
  | read (sock : ℤ) (cb privateData : ℕ) (malloc : Bool)
  | cancel (sock : ℤ)
  deriving DecidableEq

def readerCall (ctx : YloopCtx) : ReaderCall → YloopCtx
  | .read sock cb privateData malloc => aosPollReadFd ctx sock cb privateData malloc
  | .cancel sock => aosCancelPollReadFd ctx sock

def readerCalls (ctx : YloopCtx) (calls : List ReaderCall) : YloopCtx := calls.foldl readerCall ctx

/-- What `aos_poll` returns: an error that is not `EINTR`, nothing to read, or the descriptors that are
ready, by their place in the array. -/
inductive PollResult
  | failed
  | nothing
  | ready (revents : ℕ → Bool)

/-- The walk over `pollfds`. `invoked` are the readers whose callbacks were called, each with what was
registered then. -/
structure LoopRun where
  ctx : YloopCtx
  invoked : List (YloopSock × List YloopSock)
  undefined : Bool
  deriving DecidableEq

/-- The rounds from `i` on; `calls i` are the calls that the callback makes which is called in round `i`.
SRCLINE: yloop.c:268-274 -/
def loopWalk (calls : ℕ → List ReaderCall) (i : ℕ) : ℕ → LoopRun → LoopRun
  | 0, run => run
  | n + 1, run =>
    match run.ctx.pollfds.getD i none with
    | none => { run with undefined := true }
    | some pollfd =>
      if pollfd.revents then
        match run.ctx.readers[i]? with
        | none => { run with undefined := true }
        | some reader =>
          loopWalk calls (i + 1) n
            { run with
              ctx := readerCalls run.ctx (calls i)
              invoked := run.invoked ++ [(reader, run.ctx.registered)] }
      else loopWalk calls (i + 1) n run

/-- `pollfds` as the loop fills it and `aos_poll` returns it. SRCLINE: yloop.c:240-245 -/
def pollReaders (ctx : YloopCtx) (revents : ℕ → Bool) : YloopCtx :=
  { ctx with
    pollfds := ctx.pollfds.mapIdx fun i pollfd =>
      match ctx.registered[i]? with
      | none => pollfd
      | some reader => some ⟨reader.sock, revents i⟩ }

/-- One round of `aos_loop_run`; `expired` are the calls that the callback of the expired timeout makes, if
there is one. SRCLINE: yloop.c:225-275 -/
def aosLoopRound (ctx : YloopCtx) (res : PollResult) (expired : List ReaderCall)
    (calls : ℕ → List ReaderCall) : LoopRun :=
  match res with
  | .failed => ⟨pollReaders ctx fun _ => false, [], false⟩
  | .nothing => ⟨readerCalls (pollReaders ctx fun _ => false) expired, [], false⟩
  | .ready revents =>
    loopWalk calls 0 ctx.readerCount ⟨readerCalls (pollReaders ctx revents) expired, [], false⟩

/-- What happens to the readers: a call from outside the loop, or a round. -/
inductive LoopAct
  | call (call : ReaderCall)
  | round (res : PollResult) (expired : List ReaderCall) (calls : ℕ → List ReaderCall)

/-- A round without a defined outcome does not return. -/
def yloopStep (ctx : YloopCtx) : LoopAct → Option YloopCtx
  | .call call => some (readerCall ctx call)
  | .round res expired calls =>
    let run := aosLoopRound ctx res expired calls
    if run.undefined then none else some run.ctx

end GenieSdk.Model
