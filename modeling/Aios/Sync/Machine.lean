import Aios.Sync.Stamp

/-!
One `IrqSpinLock` and the streams that acquire it, `kernel/src/sync/irq_spin_lock.rs`.

Every read and write of shared data is one step of the CPU that makes it. A thread has a frame for
its own code and one for each interrupt handler nested on it; the topmost frame runs, and with
interrupts enabled another one may be put on top between any two steps. A dispatch first bumps the
CPU's generation and later resumes some thread, which may have run on another CPU before. In between
(`window`) the code of the thread that is being switched out runs on, with interrupts masked, and it
releases what it acquires there. The holder fields that the lock keeps for its messages are left
out.
-/

namespace Aios.Sync

open Aios.Lib Aios.Sched

abbrev Core := Fin maxCores

/-- `cpu_tpidr`, the id of a CPU as it reads it. -/
def Core.id (c : Core) : BitVec 8 := BitVec.ofNat 8 c

inductive Kind
  | lock | tryLock | tryLockQuiet
  deriving DecidableEq, Repr

inductive Pc
  | idle
  -- whoami, with the three reads of read_stamp
  | readCpu (kind : Kind) (irqsOn : Bool)
  | readGen (kind : Kind) (irqsOn : Bool) (cpu : Core)
  | readAgain (kind : Kind) (irqsOn : Bool) (cpu : Core) (gen : BitVec 64)
  | recheck (kind : Kind) (irqsOn : Bool) (cpu : Core) (gen : BitVec 64)
  -- the CAS, and what follows when it fails
  | cas (kind : Kind) (stamp : OwnerStamp)
  | observe (kind : Kind) (stamp : OwnerStamp)
  | classify (kind : Kind) (stamp : OwnerStamp) (observed : BitVec 64)
  | spin (stamp : OwnerStamp)
  | panicked
  -- hold, with the three reads of current_stamp_or
  | holdCpu (stamp : OwnerStamp)
  | holdGen (stamp : OwnerStamp) (cpu : Core)
  | holdAgain (stamp : OwnerStamp) (cpu : Core) (gen : BitVec 64)
  | restamp (stamp : OwnerStamp)
  deriving DecidableEq

structure Frame where
  irqsOn : Bool
  pc : Pc
  deriving DecidableEq

structure Sys where
  word : BitVec 64
  /-- `SWITCH_GEN`, which starts at 0. -/
  gen : Core → ℕ
  running : Core → ThreadId
  /-- The CPU has bumped its generation and not resumed a thread yet. -/
  window : Core → Bool
  frames : ThreadId → ℕ → Frame
  /-- The number of handlers nested on a thread. -/
  top : ThreadId → ℕ
  /-- The frame that has the guard. -/
  holder : Option (ThreadId × ℕ)
  /-- The guard was taken after the bump of a dispatch that is still under way. -/
  fresh : Bool

namespace Sys

def switchGen (s : Sys) (cpu : BitVec 8) : BitVec 64 :=
  if h : cpu.toNat < maxCores then BitVec.ofNat 64 (s.gen ⟨cpu.toNat, h⟩) else 0

def switchGenMasked (s : Sys) (cpu : BitVec 8) : BitVec 64 :=
  s.switchGen (cpu &&& BitVec.ofNat 8 (maxCores - 1))

/-- The frame that runs on the CPU. -/
def current (s : Sys) (c : Core) : Frame := s.frames (s.running c) (s.top (s.running c))

def setFrame (s : Sys) (t : ThreadId) (l : ℕ) (f : Frame) : Sys :=
  { s with frames := Function.update s.frames t (Function.update (s.frames t) l f) }

def goto (s : Sys) (c : Core) (p : Pc) : Sys :=
  s.setFrame (s.running c) (s.top (s.running c)) { s.current c with pc := p }

/-- The next step of the frame on the CPU inside the lock's code. A weak CAS may fail although the
lock is free. -/
def advance (s : Sys) (c : Core) (spurious : Bool) : Option Sys :=
  match (s.current c).pc with
  | .idle => none
  | .readCpu kind irqsOn => some (s.goto c (.readGen kind irqsOn c))
  | .readGen kind irqsOn cpu => some (s.goto c (.readAgain kind irqsOn cpu (s.switchGen cpu.id)))
  | .readAgain kind irqsOn cpu gen =>
    some (s.goto c (if c = cpu then .recheck kind irqsOn cpu gen else .readCpu kind irqsOn))
  | .recheck kind irqsOn cpu gen =>
    some (s.goto c (if s.switchGen cpu.id = gen then .cas kind (OwnerStamp.new cpu.id gen irqsOn)
      else .readCpu kind irqsOn))
  | .cas kind stamp =>
    if s.word = 0 ∧ ¬ (kind = .lock ∧ spurious = true) then
      some ({ s with
        word := stamp.word
        holder := some (s.running c, s.top (s.running c))
        fresh := s.window c }.goto c (.holdCpu stamp))
    else
      some (s.goto c (match kind with
        | .lock | .tryLock => .observe kind stamp
        | .tryLockQuiet => .idle))
  | .observe kind stamp =>
    some (s.goto c (if kind = .lock ∧ s.word = 0 then .cas kind stamp
      else .classify kind stamp s.word))
  | .classify kind stamp observed =>
    some (s.goto c (match kind with
      | .lock => if Sync.classify observed stamp s.switchGen = .reentry then .panicked
        else .spin stamp
      | _ => .idle))
  | .spin stamp =>
    some (if s.word = 0 then
      s.goto c (if stamp.irqsOn then .readCpu .lock (s.current c).irqsOn else .cas .lock stamp)
    else s)
  | .panicked => none
  | .holdCpu stamp => some (s.goto c (.holdGen stamp c))
  | .holdGen stamp cpu => some (s.goto c (.holdAgain stamp cpu (s.switchGenMasked cpu.id)))
  | .holdAgain stamp cpu gen =>
    some (s.goto c (.restamp (if cpu = c then OwnerStamp.new cpu.id gen stamp.irqsOn else stamp)))
  | .restamp stamp => some ({ s with word := stamp.word }.goto c .idle)

inductive Act
  | acquire (c : Core) (kind : Kind)
  | step (c : Core) (spurious : Bool)
  | release (c : Core)
  | setIrqs (c : Core) (on : Bool)
  | irq (c : Core)
  | eret (c : Core)
  | bump (c : Core)
  | restore (c : Core) (t : ThreadId)

def next (s : Sys) : Act → Option Sys
  | .acquire c kind =>
    if (s.current c).pc = .idle then some (s.goto c (.readCpu kind (s.current c).irqsOn)) else none
  | .step c spurious => s.advance c spurious
  | .release c =>
    if (s.current c).pc = .idle ∧ s.holder = some (s.running c, s.top (s.running c)) then
      some { s with word := 0, holder := none, fresh := false }
    else none
  | .setIrqs c on =>
    if (s.current c).pc = .idle ∧ s.window c = false then
      some (s.setFrame (s.running c) (s.top (s.running c)) { s.current c with irqsOn := on })
    else none
  | .irq c =>
    if (s.current c).irqsOn then
      some { s.setFrame (s.running c) (s.top (s.running c) + 1) ⟨false, .idle⟩ with
        top := Function.update s.top (s.running c) (s.top (s.running c) + 1) }
    else none
  -- a handler has released its guards when it returns
  | .eret c =>
    if (s.current c).pc = .idle ∧ s.window c = false ∧ 0 < s.top (s.running c) ∧
        s.holder ≠ some (s.running c, s.top (s.running c)) then
      some { s with top := Function.update s.top (s.running c) (s.top (s.running c) - 1) }
    else none
  | .bump c =>
    if (s.current c).pc = .idle ∧ (s.current c).irqsOn = false ∧ s.window c = false then
      some { s with
        gen := Function.update s.gen c (s.gen c + 1)
        window := Function.update s.window c true }
    else none
  -- a thread runs on one CPU at a time, and the guards taken since the bump are released
  | .restore c t =>
    if (s.current c).pc = .idle ∧ s.window c = true ∧
        ¬ (s.fresh = true ∧ s.holder.map Prod.fst = some (s.running c)) ∧
        ∀ c', c' ≠ c → s.running c' ≠ t then
      some { s with
        running := Function.update s.running c t
        window := Function.update s.window c false }
    else none

abbrev Step (s : Sys) (a : Act) (s' : Sys) : Prop := s.next a = some s'

/-- No CPU makes `2 ^ 54` dispatches. -/
def Fits (s : Sys) : Act → Prop
  | .bump c => s.gen c + 1 < 2 ^ 54
  | _ => True

instance (s : Sys) (a : Act) : Decidable (s.Fits a) := by
  unfold Fits
  split <;> infer_instance

structure Boot (s : Sys) : Prop where
  word : s.word = 0
  gen : ∀ c, s.gen c = 0
  running : Function.Injective s.running
  window : ∀ c, s.window c = false
  pc : ∀ t l, (s.frames t l).pc = .idle
  holder : s.holder = none
  fresh : s.fresh = false

end Sys

end Aios.Sync
