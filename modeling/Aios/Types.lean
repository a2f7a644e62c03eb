import Mathlib

/-!
Identifiers and error codes that the kernel's subsystems share.

Ids are the bare numbers of the source (`u32`, or `u64` for token ids and ticks); a table
is indexed by an id only after the range check of its `index` function.
-/

namespace Aios

abbrev ThreadId := Nat
abbrev ProcessId := Nat
-- channels and regions are named by their slot in a table
abbrev ChannelId := Nat
abbrev SharedMemoryId := Nat
-- token ids are handed out in increasing order and never reused
abbrev CapabilityTokenId := Nat
abbrev CapabilityHandle := Nat

inductive IpcError
  | etimedout | epipe | eagain | ecanceled | eacces | eperm | enospc | eproto | enotsup
  | ecapDormant | eexist | einval | enomem
  deriving DecidableEq, Repr

def IpcError.code : IpcError → Int
  | .etimedout => -1
  | .epipe => -2
  | .eagain => -3
  | .ecanceled => -4
  | .eacces => -5
  | .eperm => -6
  | .enospc => -7
  | .eproto => -8
  | .enotsup => -9
  | .ecapDormant => -10
  | .eexist => -11
  | .einval => -12
  | .enomem => -13

/-! ### Table sizes (`MAX_PROCESSES` and so on) -/

def maxThreads : Nat := 64
def maxProcesses : Nat := 32
def maxChannels : Nat := 128
def maxSharedRegions : Nat := 64
def maxSharedMappings : Nat := 8
def ringCapacity : Nat := 16
def maxMessageSize : Nat := 256

instance : NeZero maxThreads := ⟨by decide⟩
instance : NeZero maxProcesses := ⟨by decide⟩
instance : NeZero maxChannels := ⟨by decide⟩
instance : NeZero maxSharedRegions := ⟨by decide⟩
instance : NeZero maxSharedMappings := ⟨by decide⟩
instance : NeZero ringCapacity := ⟨by decide⟩

end Aios
