import Aios.Types
import Aios.Lib.Slots
import Aios.Lib.Runs

/-!
The registry of services, `kernel/src/service/mod.rs`, and what `process_exit` does to it.

Entries are never removed: `service_on_death` marks one as dead, and the check for a duplicate name
looks at dead entries too. `gone` records the entries whose process has exited since they were
registered; nothing reads it. The log and the audit ring are left out.
-/

namespace Aios.Kernel.Services

open Aios.Lib Function Slots List Option

def maxServices : ℕ := 16
def maxServiceNameLen : ℕ := 32

instance : NeZero maxServices := ⟨by decide⟩

inductive ServiceState
  | running | dead
  deriving DecidableEq, Repr

/-- `ServiceName`: the bytes in use. -/
structure ServiceName where
  bytes : List UInt8
  length_le : bytes.length ≤ maxServiceNameLen
  deriving DecidableEq

namespace ServiceName

def fromBytes (name : List UInt8) : ServiceName :=
  ⟨name.take maxServiceNameLen, length_take_le _ _⟩

def isFor (n : ServiceName) (other : List UInt8) : Bool := n.bytes == other.take maxServiceNameLen

end ServiceName

structure ServiceEntry where
  name : ServiceName
  pid : ProcessId
  channel : ChannelId
  state : ServiceState
  deriving DecidableEq

/-- `ServiceManager`. -/
structure Sys where
  services : Slots maxServices ServiceEntry
  count : ℕ
  gone : Fin maxServices → Bool

namespace Sys

def new : Sys := ⟨Slots.empty, 0, fun _ => false⟩

def runs (s : Sys) (pid : ProcessId) (i : Fin maxServices) : Bool :=
  (s.services i).any fun e => e.pid == pid && e.state == .running

def serviceRegister (s : Sys) (name : List UInt8) (pid : ProcessId) (channel : ChannelId) :
    Except IpcError Unit × Sys :=
  if s.services.items.any fun e => e.name == .fromBytes name then (.error .eexist, s)
  else
    match s.services.firstFree with
    | none => (.error .enospc, s)
    | some i =>
      (.ok (), {
        services := update s.services i (some ⟨.fromBytes name, pid, channel, .running⟩)
        count := s.count + 1
        gone := update s.gone i false })

def find (s : Sys) (name : List UInt8) : Option (Fin maxServices) :=
  (List.finRange maxServices).find? fun i =>
    (s.services i).any fun e => e.state == .running && e.name.isFor name

def serviceLookup (s : Sys) (name : List UInt8) : Option (ProcessId × ChannelId) :=
  (s.find name).bind fun i => (s.services i).map fun e => (e.pid, e.channel)

/-- `service_on_death`: the first running entry of the process is marked. -/
def serviceOnDeath (s : Sys) (pid : ProcessId) : Sys :=
  match (List.finRange maxServices).find? (s.runs pid) with
  | none => s
  | some i =>
    let entry := (s.services i).map fun e => { e with state := .dead }
    { s with services := update s.services i entry }

/-- `process_exit`. A pid outside the table names no process. -/
def processExit (s : Sys) (pid : ProcessId) : Sys :=
  let s' := if pid < maxProcesses then s.serviceOnDeath pid else s
  { s' with gone := fun i => s.gone i || (s.services i).any fun e => e.pid == pid }

inductive Act
  | register (name : List UInt8) (pid : ProcessId) (channel : ChannelId)
  | exit (pid : ProcessId)

def next (s : Sys) : Act → Sys
  | .register name pid channel => (s.serviceRegister name pid channel).2
  | .exit pid => s.processExit pid

abbrev Step (s : Sys) (a : Act) (s' : Sys) : Prop := s' = s.next a

def Unreachable (s : Sys) : Prop := ∀ name, ∀ i ∈ s.find name, s.gone i = false

def Distinct (s : Sys) : Prop :=
  ∀ i j e e', s.services i = some e → s.services j = some e' → e.name = e'.name → i = j

def Reserved (s : Sys) : Prop :=
  ∀ i e, s.services i = some e → ∀ name pid channel, ServiceName.fromBytes name = e.name →
    s.serviceRegister name pid channel = (.error .eexist, s)

/-- A process exits only with at most one running service, in a slot of the process table. -/
def Single (s : Sys) : Act → Prop
  | .exit pid => ∀ i, s.runs pid i = true → pid < maxProcesses ∧ ∀ j, s.runs pid j = true → i = j
  | _ => True

instance (s : Sys) : (a : Act) → Decidable (s.Single a)
  | .exit pid => inferInstanceAs (Decidable (∀ i, s.runs pid i = true →
      pid < maxProcesses ∧ ∀ j, s.runs pid j = true → i = j))
  | .register .. => isTrue trivial

/-! ### The steps -/

variable {s : Sys} {pid : ProcessId} {i : Fin maxServices}

lemma register_cases (s : Sys) (name : List UInt8) (pid : ProcessId) (channel : ChannelId) :
    (s.serviceRegister name pid channel).2 = s ∨ ∃ i, s.services i = none ∧
      (∀ j e, s.services j = some e → e.name ≠ .fromBytes name) ∧
      (s.serviceRegister name pid channel).2 = {
        services := update s.services i (some ⟨.fromBytes name, pid, channel, .running⟩)
        count := s.count + 1
        gone := update s.gone i false } := by
  unfold serviceRegister
  split_ifs with hdup
  · exact .inl rfl
  · split
    · exact .inl rfl
    · next i hi =>
      refine .inr ⟨i, firstFree_some hi, fun j e he hname => hdup ?_, rfl⟩
      exact any_eq_true.mpr ⟨e, mem_items.mpr ⟨j, he⟩, by simp [hname]⟩

lemma exit_services (s : Sys) (pid : ProcessId) : (s.processExit pid).services =
    s.services ∨ ∃ i e, s.services i = some e ∧ e.pid = pid ∧ e.state = .running ∧
    (s.processExit pid).services = update s.services i (some { e with state := .dead }) := by
  unfold processExit serviceOnDeath
  dsimp only
  split_ifs
  · split
    · exact .inl rfl
    · next i hi =>
      have hrun := (find?_finRange hi).1
      obtain ⟨e, he, hp⟩ := (any_eq_true _ _).mp hrun
      simp only [Bool.and_eq_true, beq_iff_eq] at hp
      exact .inr ⟨i, e, he, hp.1, hp.2, by rw [he]; rfl⟩
  · exact .inl rfl

variable {e : ServiceEntry} {a : Act}

lemma exit_name (h : (s.processExit pid).services i = some e) :
    ∃ e', s.services i = some e' ∧ e'.name = e.name := by
  rcases exit_services s pid with heq | ⟨j, e', he', -, -, heq⟩
  · exact ⟨e, heq ▸ h, rfl⟩
  · rw [heq, update_eq_some] at h
    rcases h with ⟨rfl, he⟩ | ⟨-, he⟩
    · cases he
      exact ⟨e', he', rfl⟩
    · exact ⟨e, he, rfl⟩

lemma Distinct.next (h : s.Distinct) (a : Act) : (s.next a).Distinct := by
  cases a with
  | register name pid channel =>
    show (s.serviceRegister name pid channel).2.Distinct
    rcases register_cases s name pid channel with heq | ⟨k, -, hnew, heq⟩
    · rwa [heq]
    · rw [heq]
      intro i j e e' he he' hname
      rw [update_eq_some] at he he'
      rcases he with ⟨rfl, he⟩ | ⟨-, he⟩ <;> rcases he' with ⟨rfl, he'⟩ | ⟨-, he'⟩
      · rfl
      · cases he
        exact absurd hname.symm (hnew j e' he')
      · cases he'
        exact absurd hname (hnew i e he)
      · exact h i j e e' he he' hname
  | exit pid =>
    intro i j e e' he he' hname
    obtain ⟨f, hf, hfn⟩ := exit_name he
    obtain ⟨f', hf', hfn'⟩ := exit_name he'
    exact h i j f f' hf hf' (by rw [hfn, hfn', hname])

/-- What `gone` says of a running entry. -/
def Fresh (s : Sys) : Prop :=
  ∀ i e, s.services i = some e → e.state = .running → s.gone i = false

lemma Fresh.unreachable (h : s.Fresh) : s.Unreachable := by
  intro name i hi
  obtain ⟨e, he, hp⟩ := (any_eq_true _ _).mp (find?_finRange hi).1
  simp only [Bool.and_eq_true, beq_iff_eq] at hp
  exact h i e he hp.1

lemma exit_running (he : (s.processExit pid).services i = some e) (hst : e.state = .running) :
    s.services i = some e := by
  rcases exit_services s pid with heq | ⟨j, e', -, -, -, heq⟩
  · rwa [heq] at he
  · rw [heq, update_eq_some] at he
    rcases he with ⟨-, he⟩ | ⟨-, he⟩
    · cases he
      cases hst
    · exact he

lemma exit_not_running (hok : s.Single (.exit pid)) (he : (s.processExit pid).services i = some e)
    (hst : e.state = .running) : e.pid ≠ pid := by
  intro hpid
  have hrun : s.runs pid i = true := by simp [runs, exit_running he hst, hpid, hst]
  obtain ⟨hlt, huniq⟩ := hok i hrun
  unfold processExit serviceOnDeath at he
  rw [if_pos hlt] at he
  split at he
  · next hnone => exact find?_eq_none.mp hnone i (mem_finRange i) hrun
  · next k hk =>
    obtain rfl := huniq k (find?_finRange hk).1
    dsimp only at he
    rw [update_self] at he
    obtain ⟨e', -, rfl⟩ := map_eq_some_iff.mp he
    cases hst

lemma Fresh.next (h : s.Fresh) (hok : s.Single a) : (s.next a).Fresh := by
  cases a with
  | register name pid channel =>
    show (s.serviceRegister name pid channel).2.Fresh
    rcases register_cases s name pid channel with heq | ⟨k, -, -, heq⟩
    · rwa [heq]
    · rw [heq]
      intro i e he hst
      dsimp only at he ⊢
      rw [update_eq_some] at he
      rcases he with ⟨rfl, -⟩ | ⟨hne, he⟩
      · exact update_self ..
      · rw [update_of_ne hne]
        exact h i e he hst
  | exit pid =>
    intro i e he hst
    have hne := exit_not_running hok he hst
    have he' := exit_running he hst
    show (s.gone i || (s.services i).any fun e => e.pid == pid) = false
    simpa [he', h i e he' hst] using hne

lemma reserved (s : Sys) : s.Reserved := by
  intro i e he name pid channel hname
  have hdup : (s.services.items.any fun e => e.name == .fromBytes name) = true :=
    any_eq_true.mpr ⟨e, mem_items.mpr ⟨i, he⟩, by simp [hname]⟩
  rw [serviceRegister, if_pos hdup]

end Sys

/-! ### Runs -/

/-- **Dead services.** In every run names are different, and the name of an entry stays reserved
when its service dies. As long as a process exits with at most one running service, no lookup finds
an entry whose process has exited since it was registered. -/
theorem services_sound {s : Sys} :
    (Runs Sys.Step (fun _ _ => True) .new s → s.Distinct ∧ s.Reserved) ∧
    (Runs Sys.Step Sys.Single .new s → s.Unreachable) := by
  refine ⟨fun h => ⟨?_, s.reserved⟩, fun h => ?_⟩
  · refine h.inv Sys.Distinct (fun _ _ _ _ he => by cases he) ?_
    rintro s a _ hd - rfl
    exact hd.next a
  · refine (h.inv Sys.Fresh (fun _ _ he => by cases he) ?_).unreachable
    rintro s a _ hf hok rfl
    exact hf.next hok

def echo : List UInt8 := [101, 99, 104, 111]
def disk : List UInt8 := [100, 105, 115, 107]

/-- Processes 7 and 8 register a service each, and process 7 exits. -/
theorem services_sound_exit : ∃ s, Runs Sys.Step Sys.Single .new s ∧ s.gone 0 = true ∧
    s.serviceLookup echo = none ∧ s.serviceLookup disk = some (8, 2) ∧ s.Unreachable := by
  have hrun : Runs Sys.Step Sys.Single .new
      ([.register echo 7 1, .register disk 8 2, .exit 7].foldl Sys.next .new) :=
    Runs.of_foldl (fun _ _ _ => rfl) (by decide)
  exact ⟨_, hrun, by decide, by decide, by decide, services_sound.2 hrun⟩

/-- **What a dead process leaves.** Of two services of a process only the first is marked, so that a
lookup still finds the second one after the exit. -/
theorem services_left_behind : ∃ s, Runs Sys.Step (fun _ _ => True) .new s ∧ s.gone 1 = true ∧
    s.find disk = some 1 ∧ s.serviceLookup disk = some (7, 2) := by
  have hrun : Runs Sys.Step (fun _ _ => True) .new
      ([.register echo 7 1, .register disk 7 2, .exit 7].foldl Sys.next .new) :=
    Runs.of_foldl (fun _ _ _ => rfl) (by decide)
  exact ⟨_, hrun, by decide, by decide, by decide⟩

end Aios.Kernel.Services
