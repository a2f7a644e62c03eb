import Aios.Sched.Machine

/-!
`process_exit` and `process_wait`, `kernel/src/task/process.rs`.

Every access to `EXIT_CODES`, every section that holds a lock, `block_current` and each `unblock` is
one step, and between two steps of a thread any other thread may run. A thread that has called
`block_current` runs again after an `unblock` only; an `unblock` that finds the thread not blocked
does nothing. `process_exit` holds the lock of `PROCESS_WAITERS` while it unblocks the waiter.

The threads that `process_exit` finds on channels are part of the step that collects them, as the
channel table is not modelled here. What it does to shared memory and services wakes nobody.
-/

namespace Aios.Task

open Aios.Lib Aios.Sched Function

/-- `i32::MIN`, which stands for a process that has not exited. -/
def i32Min : ℤ := -2 ^ 31

inductive Pc
  | idle
  -- process_wait
  | waitLookup (pid : ProcessId)
  | waitRegister (pid : ProcessId)
  | waitBlock (pid : ProcessId)
  | waitWoken (pid : ProcessId)
  -- process_exit
  | exitCheck (pid : ProcessId) (code : ℤ)
  | exitStore (pid : ProcessId) (code : ℤ)
  | exitMark (pid : ProcessId) (hasProcess : Bool)
  | exitScan (pid : ProcessId) (hasProcess : Bool)
  | exitEpipe (pid : ProcessId) (hasProcess : Bool) (wakeups : List ThreadId)
  | exitTake (pid : ProcessId)
  | exitUnblock (pid : ProcessId) (waiter : ThreadId)
  deriving DecidableEq

structure Sys where
  /-- The occupied slots of `PROCESS_TABLE`; an exited process keeps its slot. -/
  process : ProcessId → Bool
  owner : ThreadId → Option ProcessId
  exitCodes : ProcessId → ℤ
  waiters : ProcessId → Option ThreadId
  /-- The thread that holds the lock of `PROCESS_WAITERS` from one step to the next. -/
  lock : Option ThreadId
  state : ThreadId → ThreadState
  /-- The thread has been switched out by `block_current`. -/
  parked : ThreadId → Bool
  pc : ThreadId → Pc
  /-- The codes with which `process_exit` was called. -/
  calls : ProcessId → List ℤ
  /-- Some `process_exit` has taken the waiter. -/
  taken : ProcessId → Bool
  /-- Some `process_exit` has returned. -/
  exited : ProcessId → Bool
  /-- What the calls of `process_wait` have returned, newest first. -/
  answers : List (ProcessId × Except IpcError ℤ)

namespace Sys

def setPc (s : Sys) (tid : ThreadId) (p : Pc) : Sys :=
  { s with pc := update s.pc tid p }

/-- The wait of a thread returns. -/
def answer (s : Sys) (tid : ThreadId) (pid : ProcessId) (r : Except IpcError ℤ) : Sys :=
  { s with pc := update s.pc tid .idle, answers := (pid, r) :: s.answers }

/-- A `process_exit` returns. -/
def exit (s : Sys) (tid : ThreadId) (pid : ProcessId) : Sys :=
  { s with pc := update s.pc tid .idle, exited := update s.exited pid true }

def blockCurrent (s : Sys) (tid : ThreadId) (st : ThreadState) : Sys :=
  { s with
    state := update s.state tid st
    parked := update s.parked tid true }

def unblock (s : Sys) (tid : ThreadId) : Sys :=
  if (s.state tid).isReady then s
  else
    { s with
      state := update s.state tid .runnable
      parked := update s.parked tid false }

def markDead (s : Sys) (pid : ProcessId) : Sys :=
  { s with state := fun t => if s.owner t = some pid then .dead else s.state t }

/-- `process_wait` up to its first load. -/
def wait (s : Sys) (tid : ThreadId) (pid : ProcessId) : Sys :=
  if pid < maxProcesses then
    if s.exitCodes pid ≠ i32Min then s.answer tid pid (.ok (s.exitCodes pid))
    else s.setPc tid (.waitLookup pid)
  else s.answer tid pid (.error .einval)

/-- The next step of a thread inside an operation; `none` when it has to wait for the lock. -/
def advance (s : Sys) (tid : ThreadId) (found : List ThreadId) : Option Sys :=
  match s.pc tid with
  | .idle => none
  | .waitLookup pid =>
    some (if s.process pid then s.setPc tid (.waitRegister pid)
      else s.answer tid pid (.error .eperm))
  | .waitRegister pid =>
    if s.lock = none then
      some ({ s with waiters := update s.waiters pid (some tid) }.setPc tid
        (.waitBlock pid))
    else none
  | .waitBlock pid =>
    some ((s.blockCurrent tid (.blockedProcessWait pid)).setPc tid (.waitWoken pid))
  | .waitWoken pid =>
    some (s.answer tid pid
      (if s.exitCodes pid ≠ i32Min then .ok (s.exitCodes pid) else .error .eperm))
  | .exitCheck pid code =>
    some (if s.process pid then s.setPc tid (.exitStore pid code)
      else s.setPc tid (.exitMark pid false))
  | .exitStore pid code =>
    some ({ s with exitCodes := update s.exitCodes pid code }.setPc tid
      (.exitMark pid true))
  | .exitMark pid hasProcess => some ((s.markDead pid).setPc tid (.exitScan pid hasProcess))
  | .exitScan pid hasProcess => some (s.setPc tid (.exitEpipe pid hasProcess (found.take 16)))
  | .exitEpipe pid hasProcess (w :: ws) =>
    some ((s.unblock w).setPc tid (.exitEpipe pid hasProcess ws))
  | .exitEpipe pid hasProcess [] =>
    some (if hasProcess then s.setPc tid (.exitTake pid) else s.exit tid pid)
  | .exitTake pid =>
    if s.lock = none then
      let s' := { s with
        waiters := update s.waiters pid none
        taken := update s.taken pid true }
      match s.waiters pid with
      | some w => some ({ s' with lock := some tid }.setPc tid (.exitUnblock pid w))
      | none => some (s'.exit tid pid)
    else none
  | .exitUnblock pid w => some ({ s.unblock w with lock := none }.exit tid pid)

/-- A thread calls `process_wait` or `process_exit`, or makes its next step; `found` is what the
scan of the channel table finds, when that is the step. -/
inductive Act
  | wait (tid : ThreadId) (pid : ProcessId)
  | exit (tid : ThreadId) (pid : ProcessId) (code : ℤ)
  | run (tid : ThreadId) (found : List ThreadId)
  deriving DecidableEq

def next (s : Sys) : Act → Option Sys
  | .wait tid pid =>
    if s.parked tid = false ∧ s.pc tid = .idle then some (s.wait tid pid) else none
  | .exit tid pid code =>
    if s.parked tid = false ∧ s.pc tid = .idle then
      -- a pid out of range names no process, and the call does nothing
      some (if pid < maxProcesses then
        { s with calls := update s.calls pid (code :: s.calls pid) }.setPc tid
          (.exitCheck pid code)
      else s)
    else none
  | .run tid found => if s.parked tid = false then s.advance tid found else none

abbrev Step (s : Sys) (a : Act) (s' : Sys) : Prop := s.next a = some s'

structure Boot (s : Sys) : Prop where
  exitCodes : ∀ p, s.exitCodes p = i32Min
  waiters : ∀ p, s.waiters p = none
  lock : s.lock = none
  state : ∀ t p, s.state t ≠ .blockedProcessWait p
  parked : ∀ t, s.parked t = false
  pc : ∀ t, s.pc t = .idle
  exited : ∀ p, s.exited p = false
  taken : ∀ p, s.taken p = false
  answers : s.answers = []

/-- The condition on the step of a thread that is inside an operation: a waiter finds the slot free,
and no exit has looked into it yet; the waiter that an exit unblocks is blocked by then; and the
wakes for the channels of a process hit nobody who waits for a process. -/
def OrderlyAt (s : Sys) : Pc → Prop
  | .waitRegister pid => s.waiters pid = none ∧ s.taken pid = false
  | .exitEpipe _ _ (w :: _) => s.parked w = false
  | .exitUnblock _ w => s.parked w = true
  | _ => True

def Orderly (s : Sys) : Act → Prop
  | .wait _ _ => True
  | .exit _ _ code => code ≠ i32Min
  | .run tid _ => s.OrderlyAt (s.pc tid)

instance (s : Sys) (p : Pc) : Decidable (s.OrderlyAt p) := by
  unfold OrderlyAt
  split <;> infer_instance

instance (s : Sys) (a : Act) : Decidable (s.Orderly a) := by
  cases a <;> unfold Orderly <;> infer_instance

end Sys

end Aios.Task
