import Aios.Types
import Aios.Lib.Slots
import Aios.Lib.Runs

/-!
The scheduler: `kernel/src/sched` with the two switches of `kernel/src/ipc/direct.rs` that
bypass its run queues, and the part of `process_exit` that marks threads.

One step is one section that holds a lock: a CPU's program counter (`Pc`) says what it will do
next when it is inside an operation. While it is there its interrupts are masked; between
operations (`Pc.user`) the current thread may call the scheduler, and an interrupt may.
The number of CPUs is not fixed.
-/

namespace Aios.Sched

open Aios.Lib Function

abbrev Tid := Fin maxThreads

abbrev Cpu := ℕ

/-- `MAX_CORES`, how far `unblock` looks for a CPU. -/
def maxCores : ℕ := 8

inductive ThreadState
  | runnable
  | running
  | blockedIpc (channel : ChannelId)
  | blockedTimer (wakeAt : ℕ)
  | blockedIo
  | blockedNotification (notification : ℕ)
  | blockedSelect
  | blockedProcessWait (child : ProcessId)
  | suspended
  | dead
  deriving DecidableEq, Repr

namespace ThreadState

def isBlocked : ThreadState → Bool
  | blockedIpc _ | blockedTimer _ | blockedIo | blockedNotification _ | blockedSelect
  | blockedProcessWait _ => true
  | _ => false

def isBlockedIpc : ThreadState → Bool
  | blockedIpc _ => true
  | _ => false

def isReady : ThreadState → Bool
  | runnable | running => true
  | _ => false

end ThreadState

inductive SchedulerClass
  | idle
  | normal
  | interactive
  | realTime
  deriving DecidableEq, Repr

namespace SchedulerClass

def rank : SchedulerClass → ℕ
  | idle => 0
  | normal => 1
  | interactive => 2
  | realTime => 3

end SchedulerClass

/-- `default_slice`, in nanoseconds. -/
def defaultSlice : SchedulerClass → ℕ
  | .realTime => 4000000
  | .interactive => 10000000
  | .normal => 50000000
  | .idle => 50000000

def nsPerTick : ℕ := 1000000

abbrev CpuSet := BitVec 64

def CpuSet.contains (set : CpuSet) (cpu : Cpu) : Bool := set.getLsbD cpu

structure Thread where
  state : ThreadState
  timeSliceRemaining : ℕ
  cls : SchedulerClass
  effectiveClass : SchedulerClass
  affinity : CpuSet
  ownerPid : Option ProcessId
  deriving DecidableEq, Repr

/-! ### Run queues -/

/-- `FixedQueue::push_back`: a full queue drops the thread. -/
def pushBack (q : List Tid) (tid : Tid) : List Tid :=
  if q.length < maxThreads then q ++ [tid] else q

structure RunQueue where
  rt : List Tid
  interactive : List Tid
  normal : List Tid
  idle : List Tid

namespace RunQueue

def empty : RunQueue := ⟨[], [], [], []⟩

def enqueue (q : RunQueue) (tid : Tid) : SchedulerClass → RunQueue
  | .realTime => { q with rt := pushBack q.rt tid }
  | .interactive => { q with interactive := pushBack q.interactive tid }
  | .normal => { q with normal := pushBack q.normal tid }
  | .idle => { q with idle := pushBack q.idle tid }

/-- `pick_next`, the highest class first. -/
def pickNext (q : RunQueue) : Option (Tid × RunQueue) :=
  match q.rt with
  | tid :: l => some (tid, { q with rt := l })
  | [] =>
    match q.interactive with
    | tid :: l => some (tid, { q with interactive := l })
    | [] =>
      match q.normal with
      | tid :: l => some (tid, { q with normal := l })
      | [] =>
        match q.idle with
        | tid :: l => some (tid, { q with idle := l })
        | [] => none

/-- Every queued thread, in the order of `pick_next`. -/
def all (q : RunQueue) : List Tid := q.rt ++ q.interactive ++ q.normal ++ q.idle

end RunQueue

/-! ### The machine -/

/-- Where a CPU is inside an operation. A thread read from `CURRENT_THREAD` is part of it. -/
inductive Pc
  /-- Between operations. -/
  | user
  /-- `thread_yield`, before its store. -/
  | yieldStore (cur : Option Tid)
  /-- `block_current`, before its store. -/
  | blockStore (cur : Option Tid) (state : ThreadState)
  /-- `schedule` is entered. -/
  | schedule
  /-- `schedule`, before it looks at the current thread. -/
  | check (cur : Option Tid)
  /-- `schedule`, before it queues the current thread again. -/
  | requeue (tid : Tid) (cls : SchedulerClass)
  /-- `schedule`, before `pick_next`. -/
  | pick (cur : Option Tid)
  /-- `schedule`, with the next thread picked. -/
  | switch (cur : Option Tid) (next : Tid)
  /-- `unblock` or `try_reply_switch`, before the thread is queued. -/
  | enqueue (target : Cpu) (tid : Tid) (cls : SchedulerClass)
  deriving DecidableEq, Repr

/-- The tables behind the scheduler's locks, the number of CPUs that are online and where each
is. -/
structure Sys where
  online : ℕ
  threads : Slots maxThreads Thread
  current : Cpu → Option Tid
  queues : Cpu → RunQueue
  pc : Cpu → Pc

namespace Sys

def setPc (s : Sys) (c : Cpu) (p : Pc) : Sys := { s with pc := update s.pc c p }

def setCurrent (s : Sys) (c : Cpu) (tid : Tid) : Sys :=
  { s with current := update s.current c (some tid) }

def setQueue (s : Sys) (c : Cpu) (q : RunQueue) : Sys :=
  { s with queues := update s.queues c q }

def modify (s : Sys) (tid : Tid) (f : Thread → Thread) : Sys :=
  { s with threads := update s.threads tid ((s.threads tid).map f) }

def modifyCur (s : Sys) (cur : Option Tid) (f : Thread → Thread) : Sys :=
  cur.elim s fun tid => s.modify tid f

/-- `schedule` up to the decision about the current thread. -/
def check (s : Sys) (c : Cpu) : Option Tid → Sys
  | none => s.setPc c (.pick none)
  | some tid =>
    match s.threads tid with
    | none => s.setPc c (.pick (some tid))
    | some th =>
      if th.state = .running ∧ th.timeSliceRemaining = 0 then
        (s.modify tid fun th => { th with
          timeSliceRemaining := defaultSlice th.effectiveClass
          state := .runnable }).setPc c (.requeue tid th.effectiveClass)
      else if th.state = .running then s.setPc c .user
      -- blocked or dead, and also a runnable one
      else s.setPc c (.pick (some tid))

/-- `schedule` with the next thread in hand. -/
def switch (s : Sys) (c : Cpu) (cur : Option Tid) (next : Tid) : Sys :=
  if cur = some next then
    (s.modify next fun th => { th with state := .running }).setPc c .user
  else
    let s := s.modifyCur cur fun th =>
      { th with state := if th.state = .running then .runnable else th.state }
    match s.threads next with
    | none => s.setPc c .user
    | some _ =>
      ((s.modify next fun th => { th with state := .running }).setCurrent c next).setPc c .user

/-- The CPU `unblock` queues a thread on: its own, or the first that the thread may use. -/
def targetCpu (affinity : CpuSet) (c : Cpu) : Cpu :=
  if affinity.contains c then c
  else ((List.range maxCores).find? fun k => affinity.contains k).getD 0

/-- The section of `unblock` under the lock of the thread table. -/
def unblock (s : Sys) (c : Cpu) (tid : Tid) : Sys :=
  match s.threads tid with
  | none => s
  | some th =>
    if th.state.isReady then s
    else
      (s.modify tid fun th => { th with
        state := .runnable
        timeSliceRemaining := defaultSlice th.effectiveClass }).setPc c
          (.enqueue (targetCpu th.affinity c) tid th.effectiveClass)

/-- `try_direct_switch` from a sender to a receiver; `cpu` is the index read before interrupts
were masked. -/
def directSwitch (s : Sys) (cpu : Cpu) (sender receiver : Tid) : Sys :=
  match s.threads sender, s.threads receiver with
  | some sd, some rc =>
    if rc.state.isBlockedIpc then
      let s := s.modify receiver fun th => { th with
        effectiveClass :=
          if sd.effectiveClass.rank > th.cls.rank then sd.effectiveClass else th.effectiveClass
        timeSliceRemaining := sd.timeSliceRemaining
        state := .runnable }
      let s := s.modify sender fun th => { th with
        state := .blockedIpc 0
        timeSliceRemaining := 0 }
      s.setCurrent cpu receiver
    else s
  | _, _ => s

/-- `try_reply_switch` from a replier on CPU `c` to the caller, up to the point where it queues
the replier. -/
def replySwitch (s : Sys) (c cpu : Cpu) (replier caller : Tid) : Sys :=
  match s.threads replier, s.threads caller with
  | some rp, some cl =>
    if cl.state.isBlockedIpc then
      let s := s.modify replier fun th => { th with effectiveClass := th.cls }
      let s := s.modify caller fun th => { th with
        timeSliceRemaining := rp.timeSliceRemaining
        state := .running }
      let s := s.modify replier fun th => { th with
        state := .runnable
        timeSliceRemaining := 0 }
      (s.setCurrent cpu caller).setPc c (.enqueue cpu replier rp.cls)
    else s
  | _, _ => s

/-- `try_load_balance` once both queues are locked. The depths it compared were read before, so
any two queues can be the ones. -/
def loadBalance (s : Sys) (src dst : Cpu) : Sys :=
  match (s.queues src).normal with
  | [] => s
  | tid :: l =>
    if (s.threads tid).any fun th => th.affinity.contains dst then
      (s.setQueue src { s.queues src with normal := l }).setQueue dst
        { s.queues dst with normal := pushBack (s.queues dst).normal tid }
    else s.setQueue src { s.queues src with normal := pushBack l tid }

/-- `timer_tick`, when it gets the locks. -/
def tick (s : Sys) (c : Cpu) : Sys :=
  s.modifyCur (s.current c) fun th =>
    { th with timeSliceRemaining := th.timeSliceRemaining - min nsPerTick th.timeSliceRemaining }

/-- The section of `process_exit` that marks the threads of a process. -/
def markDead (s : Sys) (pid : ProcessId) : Sys :=
  { s with threads := fun tid => (s.threads tid).map fun th =>
      if th.ownerPid = some pid then { th with state := .dead } else th }

def run (s : Sys) (c : Cpu) : Option Sys :=
  match s.pc c with
  | .user => none
  | .yieldStore cur =>
    some ((s.modifyCur cur fun th =>
      { th with timeSliceRemaining := 0, state := .running }).setPc c .schedule)
  | .blockStore cur state =>
    some ((s.modifyCur cur fun th => { th with state := state }).setPc c .schedule)
  | .schedule => some (s.setPc c (.check (s.current c)))
  | .check cur => some (s.check c cur)
  | .requeue tid cls =>
    some ((s.setQueue c ((s.queues c).enqueue tid cls)).setPc c (.pick (some tid)))
  | .pick cur =>
    match (s.queues c).pickNext with
    | none => some (s.setPc c .user)
    | some (next, q) => some ((s.setQueue c q).setPc c (.switch cur next))
  | .switch cur next => some (s.switch c cur next)
  | .enqueue target tid cls =>
    some ((s.setQueue target ((s.queues target).enqueue tid cls)).setPc c .user)

inductive Act
  /-- The thread on the CPU yields. -/
  | yield (c : Cpu)
  /-- The thread on the CPU blocks. -/
  | block (c : Cpu) (state : ThreadState)
  /-- `check_preemption` on the way back from an interrupt. -/
  | preempt (c : Cpu)
  | tick (c : Cpu)
  /-- A CPU calls `unblock`, by itself or through `wake_with_error`. -/
  | unblock (c : Cpu) (tid : Tid)
  | directSwitch (c cpu : Cpu) (receiver : Tid)
  | replySwitch (c cpu : Cpu) (caller : Tid)
  | loadBalance (src dst : Cpu)
  /-- A CPU without a thread looks for one in `enter_scheduler`. -/
  | enter (c : Cpu)
  | processExit (c : Cpu) (pid : ProcessId)
  /-- A CPU makes the next section of its operation. -/
  | run (c : Cpu)
  deriving DecidableEq, Repr

/-- The CPU whose operation an action starts. -/
def Act.starts : Act → Option Cpu
  | yield c | block c _ | preempt c | tick c | unblock c _ | directSwitch c _ _
  | replySwitch c _ _ | enter c | processExit c _ => some c
  | loadBalance _ _ | run _ => none

def Act.cpus : Act → List Cpu
  | yield c | block c _ | preempt c | tick c | unblock c _ | enter c | processExit c _ | run c =>
    [c]
  | directSwitch c cpu _ | replySwitch c cpu _ => [c, cpu]
  | loadBalance src dst => [src, dst]

def next (s : Sys) (a : Act) : Option Sys :=
  if (∀ c ∈ a.cpus, c < s.online) ∧ ∀ c ∈ a.starts, s.pc c = .user then
    match a with
    | .yield c => some (s.setPc c (.yieldStore (s.current c)))
    | .block c state =>
      if state.isBlocked then some (s.setPc c (.blockStore (s.current c) state)) else none
    | .preempt c => some (s.setPc c .schedule)
    | .tick c => some (s.tick c)
    | .unblock c tid => some (s.unblock c tid)
    | .directSwitch c cpu receiver =>
      (s.current c).map fun sender => s.directSwitch cpu sender receiver
    | .replySwitch c cpu caller =>
      (s.current c).map fun replier => s.replySwitch c cpu replier caller
    | .loadBalance src dst => if src = dst then none else some (s.loadBalance src dst)
    | .enter c => if s.current c = none then some (s.setPc c (.pick none)) else none
    | .processExit _ pid => some (s.markDead pid)
    | .run c => s.run c
  else none

end Sys

end Aios.Sched
