import Aios.Types
import Aios.Lib.Slots
import Aios.Lib.Runs

/-!
Notifications and `ipc_select`: `kernel/src/ipc/notify.rs` and `kernel/src/ipc/select.rs`.

One step is one section that holds a lock. A thread is at one point of one operation (`Pc`); it
takes no step while it is blocked. The timer's scan of the deadlines holds their lock for as long
as it runs, so there is one scan at a time.

`raised`, `handed` and `returned` record what happened and are read by nothing: the bits that a
signal newly set, the bits that a signal took out of a word for a thread whose call has not
returned yet, and the bits that calls returned.
-/

namespace Aios.Ipc.Notify

open Aios.Lib Function

def maxNotifications : ℕ := 64
def maxWaitersPerNotification : ℕ := 8
def maxSelectEntries : ℕ := 8

instance : NeZero maxNotifications := ⟨by decide⟩

abbrev Tid := Fin maxThreads
abbrev NotificationId := Fin maxNotifications
abbrev Word := BitVec 64

structure Waiter where
  tid : Tid
  mask : Word
  deriving DecidableEq, Repr

structure NotificationObject where
  word : Word
  waiters : Slots maxWaitersPerNotification Waiter

inductive SelectKind
  | channel (id : ChannelId)
  | notification (id : NotificationId) (mask : Word)
  deriving DecidableEq, Repr

def SelectKind.isFor (i : NotificationId) : SelectKind → Bool
  | channel _ => false
  | notification id _ => id == i

/-- `SelectWaiter`; `ready` is the index and the bits that the waker stored. -/
structure SelectWaiter where
  entries : List SelectKind
  ready : Option (ℕ × Word)
  deriving DecidableEq, Repr

inductive Block
  | notification (id : NotificationId)
  | select
  deriving DecidableEq, Repr

inductive Pc
  | idle
  /-- `notification_signal`, with the waiters taken, before the results are stored. -/
  | sigStore (id : NotificationId) (wakes : List (Tid × Word))
  /-- Before the first of the remaining waiters is looked at. -/
  | sigWake (id : NotificationId) (wakes : List (Tid × Word))
  /-- The waiter is in `ipc_select`; before its record is written. -/
  | sigSelect (id : NotificationId) (tid : Tid) (bits : Word) (wakes : List (Tid × Word))
  /-- Before the waiter is unblocked. -/
  | sigUnblock (id : NotificationId) (tid : Tid) (bits : Word) (wakes : List (Tid × Word))
  /-- `notification_wait`, before the second look and the registration. -/
  | waitRegister (id : NotificationId) (mask : Word) (timed : Bool)
  | waitDeadline (id : NotificationId) (timed : Bool)
  | waitBlock (id : NotificationId)
  /-- Blocked, or woken and before the result is taken. -/
  | waitTake (id : NotificationId)
  | waitCleanup (id : NotificationId)
  /-- `ipc_select`, before the entry at an index is scanned. -/
  | selScan (entries : List SelectKind) (index : ℕ) (timed : Bool)
  | selRecord (entries : List SelectKind) (timed : Bool)
  | selRegister (entries : List SelectKind) (index : ℕ) (timed : Bool)
  | selDeadline (entries : List SelectKind) (timed : Bool)
  | selBlock (entries : List SelectKind)
  /-- Blocked, or woken and before the record is taken. -/
  | selTake (entries : List SelectKind)
  | selUnregister (entries : List SelectKind) (index : ℕ) (ready : Option (ℕ × Word))
  deriving DecidableEq, Repr

/-- Where the scan of the deadlines is. -/
inductive TimerPc
  | idle
  /-- A deadline has passed and is cleared; before the thread's state is read. -/
  | expired (tid : Tid)
  /-- Before the registration is removed. -/
  | cleanup (tid : Tid) (block : Block)
  /-- Before the thread is unblocked. -/
  | unblock (tid : Tid)
  deriving DecidableEq, Repr

/-- Bits of notifications, one event after the other. -/
abbrev BitLog := List (NotificationId × Word)

structure Sys where
  table : Slots maxNotifications NotificationObject
  /-- `NOTIFY_RESULTS`. -/
  results : Tid → Option Word
  /-- `SELECT_WAITERS`. -/
  selects : Tid → Option SelectWaiter
  /-- `NOTIFY_DEADLINES`: has the thread a deadline? -/
  deadlines : Tid → Bool
  /-- The thread's state, `none` when it is not blocked here. -/
  blocked : Tid → Option Block
  pc : Tid → Pc
  timer : TimerPc
  raised : BitLog
  handed : Tid → BitLog
  returned : BitLog

namespace Sys

def setPc (s : Sys) (tid : Tid) (p : Pc) : Sys := { s with pc := update s.pc tid p }

def setBlocked (s : Sys) (tid : Tid) (b : Option Block) : Sys :=
  { s with blocked := update s.blocked tid b }

def setObject (s : Sys) (id : NotificationId) (n : NotificationObject) : Sys :=
  { s with table := update s.table id (some n) }

/-- A call returns without bits of a notification: an error, or a channel that is ready. -/
def fail (s : Sys) (tid : Tid) : Sys :=
  { s with pc := update s.pc tid .idle, handed := update s.handed tid [] }

def answer (s : Sys) (tid : Tid) (id : NotificationId) (bits : Word) : Sys :=
  { s.fail tid with returned := s.returned ++ [(id, bits)] }

def dropWaiter (n : NotificationObject) (tid : Tid) : NotificationObject :=
  match (List.finRange maxWaitersPerNotification).find? fun k =>
      (n.waiters k).any fun w => w.tid == tid with
  | some k => { n with waiters := update n.waiters k none }
  | none => n

def dropWaiterAt (s : Sys) (id : NotificationId) (tid : Tid) : Sys :=
  match s.table id with
  | some n => s.setObject id (dropWaiter n tid)
  | none => s

/-- One slot of the loop of `notification_signal`: a waiter with a bit of its mask set gets the
matching bits, and loses its slot. -/
def signalSlot (acc : NotificationObject × List (Tid × Word))
    (k : Fin maxWaitersPerNotification) : NotificationObject × List (Tid × Word) :=
  match acc.1.waiters k with
  | none => acc
  | some w =>
    let hit := acc.1.word &&& w.mask
    if hit = 0 then acc
    else (⟨acc.1.word &&& ~~~hit, update acc.1.waiters k none⟩,
      acc.2 ++ [(w.tid, hit)])

def signalObject (n : NotificationObject) (bits : Word) :
    NotificationObject × List (Tid × Word) :=
  (List.finRange maxWaitersPerNotification).foldl signalSlot
    ({ n with word := n.word ||| bits }, [])

def hand (id : NotificationId) (handed : Tid → BitLog) (wakes : List (Tid × Word)) :
    Tid → BitLog :=
  fun tid => handed tid ++ (wakes.filter fun w => w.1 == tid).map fun w => (id, w.2)

/-- `notification_signal`, the section under the lock of the table. An empty slot is `EINVAL`. -/
def signal (s : Sys) (u : Tid) (id : NotificationId) (bits : Word) : Sys :=
  match s.table id with
  | none => s
  | some n =>
    let r := signalObject n bits
    let s := { s.setObject id r.1 with
      raised := s.raised ++ [(id, bits &&& ~~~n.word)]
      handed := hand id s.handed r.2 }
    s.setPc u (if r.2 = [] then .idle else .sigStore id r.2)

/-- The loop of `notification_signal` that stores the results. -/
def storeResults (results : Tid → Option Word) (wakes : List (Tid × Word)) : Tid → Option Word :=
  wakes.foldl (fun r w => update r w.1 (some w.2)) results

/-- Matching bits, taken out of the word: both looks of `notification_wait` and the scan of
`ipc_select`. -/
def takeBits (s : Sys) (tid : Tid) (id : NotificationId) (n : NotificationObject) (mask : Word) :
    Option Sys :=
  let hit := n.word &&& mask
  if hit = 0 then none
  else some ((s.setObject id { n with word := n.word &&& ~~~hit }).answer tid id hit)

/-- `notification_wait`, the first look. -/
def wait (s : Sys) (tid : Tid) (id : NotificationId) (mask : Word) (timed : Bool) : Sys :=
  match s.table id with
  | none => s
  | some n => (s.takeBits tid id n mask).getD (s.setPc tid (.waitRegister id mask timed))

/-- `notification_wait`, the second look and the registration; `ENOMEM` when there is no slot. -/
def waitRegister (s : Sys) (tid : Tid) (id : NotificationId) (mask : Word) (timed : Bool) : Sys :=
  match s.table id with
  | none => s.fail tid
  | some n =>
    (s.takeBits tid id n mask).getD <|
      match n.waiters.firstFree with
      | none => s.fail tid
      | some k =>
        (s.setObject id { n with waiters := update n.waiters k (some ⟨tid, mask⟩) }).setPc
          tid (.waitDeadline id timed)

/-- The scan of one entry; `ready` says whether a channel has a message. -/
def selScan (s : Sys) (tid : Tid) (entries : List SelectKind) (index : ℕ) (timed ready : Bool) :
    Sys :=
  let onward := s.setPc tid (.selScan entries (index + 1) timed)
  match entries[index]? with
  | none => s.setPc tid (.selRecord entries timed)
  | some (.channel _) => if ready then s.fail tid else onward
  | some (.notification id mask) =>
    match s.table id with
    | none => onward
    | some n => (s.takeBits tid id n mask).getD onward

def selRegister (s : Sys) (tid : Tid) (entries : List SelectKind) (index : ℕ) (timed : Bool) :
    Sys :=
  let onward := Pc.selRegister entries (index + 1) timed
  match entries[index]? with
  | none => s.setPc tid (.selDeadline entries timed)
  | some (.channel _) => s.setPc tid onward
  | some (.notification id mask) =>
    match s.table id with
    | none => s.setPc tid onward
    | some n =>
      match n.waiters.firstFree with
      | none => s.setPc tid onward
      | some k =>
        (s.setObject id { n with waiters := update n.waiters k (some ⟨tid, mask⟩) }).setPc
          tid onward

/-- What `ipc_select` returns once every source is unregistered. -/
def selReturn (s : Sys) (tid : Tid) (entries : List SelectKind) : Option (ℕ × Word) → Sys
  | none => s.fail tid
  | some (index, bits) =>
    match entries[index]? with
    | some (.notification id _) => s.answer tid id bits
    | _ => s.fail tid

def selUnregister (s : Sys) (tid : Tid) (entries : List SelectKind) (index : ℕ)
    (ready : Option (ℕ × Word)) : Sys :=
  match entries[index]? with
  | none => s.selReturn tid entries ready
  | some (.channel _) => s.setPc tid (.selUnregister entries (index + 1) ready)
  | some (.notification id _) =>
    (s.dropWaiterAt id tid).setPc tid (.selUnregister entries (index + 1) ready)

/-- `try_wake_select`, the section under the lock of the records: the first entry for the
notification becomes the ready one. -/
def wakeSelect (s : Sys) (id : NotificationId) (tid : Tid) (bits : Word) : Sys :=
  match s.selects tid with
  | none => s
  | some sw =>
    match sw.entries.findIdx? (·.isFor id) with
    | none => s
    | some index =>
      { s with
        selects := update s.selects tid (some { sw with ready := some (index, bits) }) }

/-- The next section of the operation a thread is in; `ready` is the state of a channel that
`ipc_select` scans. -/
def run (s : Sys) (tid : Tid) (ready : Bool) : Option Sys :=
  match s.pc tid with
  | .idle => none
  | .sigStore id wakes =>
    some ({ s with results := storeResults s.results wakes }.setPc tid (.sigWake id wakes))
  | .sigWake _ [] => some (s.setPc tid .idle)
  | .sigWake id ((t, bits) :: wakes) =>
    some (s.setPc tid (if s.blocked t = some .select then .sigSelect id t bits wakes
      else .sigUnblock id t bits wakes))
  | .sigSelect id t bits wakes =>
    some ((s.wakeSelect id t bits).setPc tid (.sigUnblock id t bits wakes))
  | .sigUnblock id t _ wakes => some ((s.setBlocked t none).setPc tid (.sigWake id wakes))
  | .waitRegister id mask timed => some (s.waitRegister tid id mask timed)
  | .waitDeadline id timed =>
    if s.timer = .idle then
      some ({ s with deadlines := update s.deadlines tid timed }.setPc tid (.waitBlock id))
    else none
  | .waitBlock id => some ((s.setBlocked tid (some (.notification id))).setPc tid (.waitTake id))
  | .waitTake id =>
    if s.blocked tid = none then
      let s' := { s with results := update s.results tid none }
      match s.results tid with
      | some bits => some (s'.answer tid id bits)
      | none => some (s'.setPc tid (.waitCleanup id))
    else none
  | .waitCleanup id => some ((s.dropWaiterAt id tid).fail tid)
  | .selScan entries index timed => some (s.selScan tid entries index timed ready)
  | .selRecord entries timed =>
    some ({ s with selects := update s.selects tid (some ⟨entries, none⟩) }.setPc tid
      (.selRegister entries 0 timed))
  | .selRegister entries index timed => some (s.selRegister tid entries index timed)
  | .selDeadline entries timed =>
    if s.timer = .idle then
      some ({ s with deadlines := update s.deadlines tid timed }.setPc tid
        (.selBlock entries))
    else none
  | .selBlock entries => some ((s.setBlocked tid (some .select)).setPc tid (.selTake entries))
  | .selTake entries =>
    if s.blocked tid = none then
      some ({ s with selects := update s.selects tid none }.setPc tid
        (.selUnregister entries 0 ((s.selects tid).bind (·.ready))))
    else none
  | .selUnregister entries index r => some (s.selUnregister tid entries index r)

/-- The next section of the timer's scan; `locked` says whether its `try_lock` succeeds. -/
def runTimer (s : Sys) (locked : Bool) : Option Sys :=
  match s.timer with
  | .idle => none
  | .expired tid =>
    match s.blocked tid, locked with
    | some b, true => some { s with timer := .cleanup tid b }
    | _, _ => some { s with timer := .idle }
  | .cleanup tid b =>
    let s := { s with timer := .unblock tid }
    match b, locked with
    | .notification id, true => some (s.dropWaiterAt id tid)
    | .select, true => some { s with selects := update s.selects tid none }
    | _, false => some s
  | .unblock tid => some { s.setBlocked tid none with timer := .idle }

inductive Act
  | signal (u : Tid) (id : NotificationId) (bits : Word)
  | wait (tid : Tid) (id : NotificationId) (mask : Word) (timed : Bool)
  | select (tid : Tid) (entries : List SelectKind) (timed : Bool)
  | run (tid : Tid) (ready : Bool)
  /-- The deadline of a thread has passed. -/
  | expire (tid : Tid)
  | timer (locked : Bool)
  deriving DecidableEq, Repr

/-- One step. A thread starts an operation only when it is in none. -/
def next (s : Sys) : Act → Option Sys
  | .signal u id bits => if s.pc u = .idle then some (s.signal u id bits) else none
  | .wait tid id mask timed => if s.pc tid = .idle then some (s.wait tid id mask timed) else none
  | .select tid entries timed =>
    if s.pc tid = .idle ∧ entries ≠ [] ∧ entries.length ≤ maxSelectEntries then
      some (s.setPc tid (.selScan entries 0 timed))
    else none
  | .run tid ready => s.run tid ready
  | .expire tid =>
    if s.timer = .idle ∧ s.deadlines tid = true then
      some { s with deadlines := update s.deadlines tid false, timer := .expired tid }
    else none
  | .timer locked => s.runTimer locked

/-! ### Bits -/

def count (l : BitLog) (i : NotificationId) (b : ℕ) : ℕ :=
  l.countP fun e => e.1 == i && e.2.getLsbD b

def pending (s : Sys) (i : NotificationId) (b : ℕ) : Bool :=
  (s.table i).any fun n => n.word.getLsbD b

def onTheWay (s : Sys) (i : NotificationId) (b : ℕ) : ℕ := ∑ tid, count (s.handed tid) i b

end Sys

end Aios.Ipc.Notify
