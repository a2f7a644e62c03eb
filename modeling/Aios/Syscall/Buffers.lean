import Aios.Syscall.Dispatch

/-!
Which user memory a syscall touches, and what happens to a call with a malformed argument.

`buffers`, `ids`, `handles` and `flags` say which registers of a call name a user buffer or are to
be decoded, by the number of the syscall. A handler copies to and from the buffers of its own call
only; and a call with a malformed argument is refused before its handler runs an operation that
could change a table.
-/

namespace Aios.Syscall

open Aios.Lib Aios.Lib.Shared Aios.Lib.Fallible List
open Aios.Ipc.Notify (Word maxSelectEntries)

structure Buffer where
  access : Access
  ptr : ℕ
  len : ℕ
  limit : ℕ

def buffers (x : Frame) : List Buffer :=
  match (x 8).toNat with
  | 0 =>
    [⟨.read, (x 1).toNat, (x 2).toNat, maxMessageSize⟩,
      ⟨.write, (x 3).toNat, (x 4).toNat, maxMessageSize⟩]
  | 1 => [⟨.read, (x 1).toNat, (x 2).toNat, maxMessageSize⟩]
  | 2 => [⟨.write, (x 1).toNat, (x 2).toNat, maxMessageSize⟩]
  | 3 => [⟨.read, (x 1).toNat, (x 2).toNat, maxMessageSize⟩]
  | 5 => [⟨.read, (x 0).toNat, 16 * (x 1).toNat, 16 * maxSelectEntries⟩]
  | 17 => [⟨.write, (x 0).toNat, 8 * (x 1).toNat, userVaLimit⟩]
  | 29 => [⟨.read, (x 0).toNat, (x 1).toNat, 48⟩]
  | 30 => [⟨.read, (x 0).toNat, (x 1).toNat, 256⟩]
  | _ => []

def ids (x : Frame) : List Word :=
  match (x 8).toNat with
  | 0 | 1 | 2 | 3 | 4 | 7 | 11 | 12 | 21 | 25 => [x 0]
  | 15 => if (x 1).toNat = 1 ∨ (x 1).toNat = 3 then [x 3] else []
  | 22 => [x 0, x 1]
  | _ => []

def handles (x : Frame) : List Word :=
  match (x 8).toNat with
  | 15 | 16 => [x 0]
  | _ => []

def flags (x : Frame) : List Word :=
  match (x 8).toNat with
  | 18 | 20 | 21 => [x 1]
  | _ => []

def InUser (ptr len : ℕ) : Prop := userVaMin ≤ ptr ∧ ptr + len ≤ userVaLimit

def Malformed (x : Frame) (user : Mem) : Prop :=
  (∃ r ∈ ids x, 2 ^ 32 ≤ r.toNat) ∨
  (∃ r ∈ handles x, Cap.maxCapsPerProcess ≤ r.toNat) ∨
  (∃ r ∈ flags x, r &&& ~~~memoryFlagsMask ≠ 0) ∨
  (∃ b ∈ buffers x, b.limit < b.len ∨ ¬InUser b.ptr b.len) ∨
  -- a select entry starts with its kind
  ((x 8).toNat = 5 ∧ ∃ i < (x 1).toNat, 2 ≤ user.readLe ((x 0).toNat + 16 * i) 4)

/-! ### Copies -/

lemma inUser_of_validate {ptr len : ℕ} (h : validateUserVa ptr len = true) : InUser ptr len := by
  unfold validateUserVa at h
  simp only [Bool.and_eq_true, decide_eq_true_eq] at h
  exact ⟨h.2.1.1, h.2.2⟩

def Inside (x : Frame) (cp : Copy) : Prop :=
  InUser cp.ptr cp.len ∧
    ∃ b ∈ buffers x, b.access = cp.access ∧ b.ptr ≤ cp.ptr ∧ cp.ptr + cp.len ≤ b.ptr + b.len

def CopiesInside (x : Frame) (w : Shared Tables Cpu) : Prop := ∀ cp ∈ w.own.copies, Inside x cp

section Copies

variable {α : Type} {x : Frame}

@[grind ←] lemma keeps_op (m : OpM α) : Keeps (CopiesInside x) (op m) := by
  intro w hw
  unfold op zoom
  cases m ⟨w.own.thread, w.state, w.others⟩ with
  | ok a v => exact hw
  | error e v => exact hw

@[grind ←] lemma keeps_setX1 (v : Word) : Keeps (CopiesInside x) (setX1 v) :=
  Spec.modify fun _ hw => hw

lemma CopiesInside.log {w : Shared Tables Cpu} {k : Tables} {cp : Copy} (hw : CopiesInside x w)
    (hcp : Inside x cp) : CopiesInside x ⟨logCopy cp.access cp.ptr cp.len w.own, k, w.others⟩ := by
  intro cp' hcp'
  rcases mem_append.mp hcp' with h | h
  · exact hw cp' h
  · rw [mem_singleton] at h
    rw [h]
    exact hcp

lemma keeps_copyFromUser {ptr len : ℕ}
    (hb : ∃ b ∈ buffers x, b.access = .read ∧ b.ptr ≤ ptr ∧ ptr + len ≤ b.ptr + b.len) :
    Keeps (CopiesInside x) (copyFromUser ptr len) := by
  intro w hw
  unfold copyFromUser
  by_cases hv : validateUserVa ptr len = true
  · rw [if_pos hv]
    have hcp : Inside x ⟨.read, ptr, len⟩ := ⟨inUser_of_validate hv, hb⟩
    exact hw.log hcp
  · rw [if_neg hv]
    exact hw

lemma keeps_copyToUser {ptr : ℕ} {src : List UInt8}
    (hb : ∃ b ∈ buffers x, b.access = .write ∧ b.ptr ≤ ptr ∧ ptr + src.length ≤ b.ptr + b.len) :
    Keeps (CopiesInside x) (copyToUser ptr src) := by
  intro w hw
  unfold copyToUser
  by_cases hv : validateUserVa ptr src.length = true
  · rw [if_pos hv]
    have hcp : Inside x ⟨.write, ptr, src.length⟩ := ⟨inUser_of_validate hv, hb⟩
    exact hw.log hcp
  · rw [if_neg hv]
    exact hw

lemma spec_op {m : OpM α} {V : α → Prop} (hm : Returns m V) :
    Spec (CopiesInside x) (op m) (fun a w => V a ∧ CopiesInside x w) (CopiesInside x) := by
  intro w hw
  have hrun := hm ⟨w.own.thread, w.state, w.others⟩ trivial
  unfold op zoom
  cases hv : m ⟨w.own.thread, w.state, w.others⟩ with
  | ok a v =>
    rw [hv] at hrun
    exact ⟨hrun, hw⟩
  | error e v => exact hw

/-! ### The handlers keep to their buffers -/

lemma returns_ipcRecv (channel : ChannelId) (recvLen timeout : ℕ) :
    Returns (ipcRecv channel recvLen timeout) fun r => r.1.length ≤ recvLen := by
  refine .after fun tid => .after fun pid => .after fun _ => .after fun r => ?_
  obtain ⟨msg, deadline⟩ := r
  cases msg with
  | some msg => exact .pure (length_take_le _ _)
  | none =>
    refine .after fun _ => .after fun _ => .after fun _ => .after fun _ => .after fun error => ?_
    cases error with
    | some e => exact .throw
    | none => exact .after fun msg => .pure (length_take_le _ _)

lemma returns_listSection (pid : ProcessId) (limit : ℕ) :
    Returns (locked (listSection pid limit) : OpM _) fun ids => ids.length ≤ limit := by
  refine returns_locked fun k ids k' h => ?_
  unfold listSection at h
  cases hT : k.kernel.processRef pid with
  | error e =>
    rw [hT] at h
    cases h
  | ok T =>
    rw [hT] at h
    cases h
    exact length_take_le _ _

variable (x)

lemma keeps_sysIpcCall
    (hb : buffers x = [⟨.read, (x 1).toNat, (x 2).toNat, maxMessageSize⟩,
      ⟨.write, (x 3).toNat, (x 4).toNat, maxMessageSize⟩]) :
    Keeps (CopiesInside x) (sysIpcCall x) := by
  refine .bind (keeps_idArg _) fun channel => .failIf_bind fun _ => .failIf_bind fun _ => ?_
  refine .bind (keeps_copyFromUser ?_) fun sendBuf => .bind (keeps_op _) fun reply => ?_
  · exact ⟨_, by rw [hb]; exact mem_cons_self, rfl, le_refl _, le_refl _⟩
  refine .bind (keeps_copyToUser ?_) fun _ => .pure _
  refine ⟨_, by rw [hb]; exact mem_cons_of_mem _ mem_cons_self, rfl, le_refl _, ?_⟩
  exact Nat.add_le_add_left (length_take_le _ _) _

section

variable (hb : buffers x = [⟨.read, (x 1).toNat, (x 2).toNat, maxMessageSize⟩])
include hb

lemma keeps_sysIpcSend : Keeps (CopiesInside x) (sysIpcSend x) := by
  refine .bind (keeps_idArg _) fun channel => .failIf_bind fun _ => ?_
  refine .bind (keeps_copyFromUser ?_) fun sendBuf => .bind (keeps_op _) fun _ => .pure _
  exact ⟨_, by rw [hb]; exact mem_cons_self, rfl, le_refl _, le_refl _⟩

lemma keeps_sysIpcReply : Keeps (CopiesInside x) (sysIpcReply x) := by
  refine .bind (keeps_idArg _) fun channel => .failIf_bind fun _ => ?_
  refine .bind (keeps_copyFromUser ?_) fun sendBuf => .bind (keeps_op _) fun _ => .pure _
  exact ⟨_, by rw [hb]; exact mem_cons_self, rfl, le_refl _, le_refl _⟩

end

lemma keeps_sysIpcRecv (hb : buffers x = [⟨.write, (x 1).toNat, (x 2).toNat, maxMessageSize⟩]) :
    Keeps (CopiesInside x) (sysIpcRecv x) := by
  refine .bind (keeps_idArg _) fun channel => .failIf_bind fun _ => .failIf_bind fun _ => ?_
  refine Spec.bind (spec_op (returns_ipcRecv _ _ _)) fun r => Spec.assume fun hlen => ?_
  refine Keeps.bind (keeps_copyToUser ?_) fun _ => .bind (keeps_setX1 _) fun _ => .pure _
  exact ⟨_, by rw [hb]; exact mem_cons_self, rfl, le_refl _, Nat.add_le_add_left hlen _⟩

lemma keeps_sysIpcSelect
    (hb : buffers x = [⟨.read, (x 0).toNat, 16 * (x 1).toNat, 16 * maxSelectEntries⟩]) :
    Keeps (CopiesInside x) (sysIpcSelect x) := by
  refine .failIf_bind fun _ => .bind (keeps_copyFromUser ?_) fun wire => ?_
  · refine ⟨_, by rw [hb]; exact mem_cons_self, rfl, le_refl _, ?_⟩
    rw [Nat.mul_comm]
    exact le_refl _
  exact .bind (keeps_ofExcept _) fun entries => .bind (keeps_op _) fun r =>
    .bind (keeps_setX1 _) fun _ => .pure _

lemma keeps_copyIds {b : Buffer} (hb : b ∈ buffers x) (hw : b.access = .write)
    (ids : List CapabilityTokenId) (ptr : ℕ) (hptr : b.ptr ≤ ptr)
    (hlen : ptr + 8 * ids.length ≤ b.ptr + b.len) : Keeps (CopiesInside x) (copyIds ptr ids) := by
  induction ids generalizing ptr with
  | nil => exact .pure _
  | cons id ids ih =>
    rw [length_cons] at hlen
    refine .bind (keeps_copyToUser ⟨b, hb, hw, hptr, ?_⟩) fun _ => ih _ ?_ ?_
    · rw [Bytes.length_le]
      omega
    · omega
    · omega

lemma keeps_sysCapabilityList
    (hb : buffers x = [⟨.write, (x 0).toNat, 8 * (x 1).toNat, userVaLimit⟩]) :
    Keeps (CopiesInside x) (sysCapabilityList x) := by
  refine .failIf_bind fun _ => .bind (keeps_op _) fun pid => ?_
  refine Spec.bind (spec_op (returns_listSection _ _)) fun ids => Spec.assume fun hlen => ?_
  have hmem : ⟨.write, (x 0).toNat, 8 * (x 1).toNat, userVaLimit⟩ ∈ buffers x := by
    rw [hb]
    exact mem_cons_self
  refine Keeps.bind (keeps_copyIds x hmem rfl ids _ (le_refl _) ?_) fun _ => .pure _
  have : ids.length ≤ (x 1).toNat := le_trans hlen (min_le_left _ _)
  show (x 0).toNat + 8 * ids.length ≤ (x 0).toNat + 8 * (x 1).toNat
  omega

lemma keeps_readBuffer {limit : ℕ} {f : List UInt8 → SysM Word}
    (hb : buffers x = [⟨.read, (x 0).toNat, (x 1).toNat, limit⟩])
    (hf : ∀ buf, Keeps (CopiesInside x) (f buf)) :
    Keeps (CopiesInside x)
      (failIf (limit < (x 1).toNat) .enospc >>= fun _ =>
        copyFromUser (x 0).toNat (x 1).toNat >>= f) := by
  refine .failIf_bind fun _ => .bind (keeps_copyFromUser ?_) hf
  exact ⟨_, by rw [hb]; exact mem_cons_self, rfl, le_refl _, le_refl _⟩

end Copies

lemma keeps_handle (c : Trap) : Keeps (CopiesInside c.x) (handle c) := by
  unfold handle
  split
  case h_1 hnr => exact keeps_sysIpcCall c.x (by simp only [buffers, hnr])
  case h_2 hnr => exact keeps_sysIpcSend c.x (by simp only [buffers, hnr])
  case h_3 hnr => exact keeps_sysIpcRecv c.x (by simp only [buffers, hnr])
  case h_4 hnr => exact keeps_sysIpcReply c.x (by simp only [buffers, hnr])
  case h_6 hnr => exact keeps_sysIpcSelect c.x (by simp only [buffers, hnr])
  case h_14 hnr => exact keeps_sysCapabilityList c.x (by simp only [buffers, hnr])
  case h_24 hnr =>
    exact keeps_readBuffer c.x (by simp only [buffers, hnr]) fun event =>
      .bind (keeps_op _) fun pid => .bind (keeps_op _) fun _ => .pure _
  case h_25 hnr =>
    exact keeps_readBuffer c.x (by simp only [buffers, hnr]) fun buf =>
      .bind (keeps_op _) fun _ => .pure _
  -- the others copy nothing
  all_goals
    clear * -
    grind -order -ring -linarith [sysIpcCancel, sysChannelCreate, sysChannelDestroy,
      sysNotificationCreate, sysNotificationSignal, sysNotificationWait, sysCapabilityAttenuate,
      sysCapabilityRevoke, sysMemoryMap, sysMemoryUnmap, sysSharedMemoryCreate, sysSharedMemoryMap,
      sysSharedMemoryShare, sysProcessExit, sysProcessWait, sysTimeSleep]

/-! ### Malformed calls -/

def Refused (m : SysM Word) (w : Shared Tables Cpu) : Prop :=
  isOk (m w) = false ∧ (state (m w)).state = w.state ∧
    (state (m w)).own.thread = w.own.thread

section Refused

variable {α : Type} {f : α → SysM Word} {w : Shared Tables Cpu}

lemma Refused.failIf {p : Prop} [Decidable p] {e : IpcError} {f : Unit → SysM Word}
    (hf : ¬p → Refused (f ()) w) : Refused (failIf p e >>= f) w := by
  by_cases hp : p
  · have : Fallible.failIf p e w = .error e w := by simp only [Fallible.failIf, if_pos hp]; rfl
    unfold Refused
    rw [bind_eq_error this]
    exact ⟨rfl, rfl, rfl⟩
  · have : Fallible.failIf p e w = .ok () w := by simp only [Fallible.failIf, if_neg hp]; rfl
    unfold Refused
    rw [bind_eq this]
    exact hf hp

lemma Refused.decode {p : Prop} [Decidable p] {a : α} {e : IpcError}
    (hf : p → Refused (f a) w) : Refused ((if p then pure a else throw e) >>= f) w := by
  by_cases hp : p
  · rw [if_pos hp]
    exact hf hp
  · rw [if_neg hp]
    exact ⟨rfl, rfl, rfl⟩

lemma Refused.ofExcept {r : Except IpcError α} (hf : ∀ a, r = .ok a → Refused (f a) w) :
    Refused (ofExcept r >>= f) w := by
  cases r with
  | ok a => exact hf a rfl
  | error e => exact ⟨rfl, rfl, rfl⟩

lemma Refused.currentProcess {f : ProcessId → SysM Word} (hf : ∀ pid, Refused (f pid) w) :
    Refused (op currentProcess >>= f) w := by
  unfold Refused
  rcases op_currentProcess w with h | ⟨tid, pid, -, -, h⟩
  · rw [bind_eq_error h]
    exact ⟨rfl, rfl, rfl⟩
  · rw [bind_eq h]
    exact hf pid

lemma Refused.copyFromUser {ptr len : ℕ} {f : List UInt8 → SysM Word}
    (hf : InUser ptr len →
      Refused (f (w.state.user.read ptr len)) { w with own := logCopy .read ptr len w.own }) :
    Refused (copyFromUser ptr len >>= f) w := by
  by_cases hv : validateUserVa ptr len = true
  · have hrun : Syscall.copyFromUser ptr len w =
        .ok (w.state.user.read ptr len) { w with own := logCopy .read ptr len w.own } := by
      unfold Syscall.copyFromUser
      rw [if_pos hv]
    unfold Refused
    rw [bind_eq hrun]
    exact hf (inUser_of_validate hv)
  · have hrun : Syscall.copyFromUser ptr len w = .error .einval w := by
      unfold Syscall.copyFromUser
      rw [if_neg hv]
    unfold Refused
    rw [bind_eq_error hrun]
    exact ⟨rfl, rfl, rfl⟩

end Refused

lemma not_malformed {x : Frame} {user : Mem} (hids : ∀ r ∈ ids x, r.toNat < 2 ^ 32)
    (hhandles : ∀ r ∈ handles x, r.toNat < Cap.maxCapsPerProcess)
    (hflags : ∀ r ∈ flags x, r &&& ~~~memoryFlagsMask = 0)
    (hbuffers : ∀ b ∈ buffers x, b.len ≤ b.limit ∧ InUser b.ptr b.len)
    (hkinds : (x 8).toNat = 5 → ∀ i < (x 1).toNat, user.readLe ((x 0).toNat + 16 * i) 4 < 2) :
    ¬Malformed x user := by
  rintro (⟨r, hr, h⟩ | ⟨r, hr, h⟩ | ⟨r, hr, h⟩ | ⟨b, hb, h⟩ | ⟨hnr, i, hi, h⟩)
  · exact absurd (hids r hr) (by omega)
  · exact absurd (hhandles r hr) (by omega)
  · exact h (hflags r hr)
  · obtain ⟨hlen, hin⟩ := hbuffers b hb
    rcases h with h | h
    · omega
    · exact h hin
  · exact absurd (hkinds hnr i hi) (by omega)

lemma chunk_kind (user : Mem) (ptr : ℕ) {count i : ℕ} (hi : i < count) :
    (RawSelectEntry.chunk (user.read ptr (count * RawSelectEntry.size)) i).kind =
      user.readLe (ptr + 16 * i) 4 := by
  show Bytes.ofLe ((((user.read ptr (count * 16)).drop (16 * i)).take 16).take 4) = _
  rw [Mem.drop_read user ptr (by omega), Mem.take_read user _ (by omega),
    Mem.take_read user _ (by omega)]
  rfl

lemma RawSelectEntry.decode_ok {raw : RawSelectEntry} {kind : SelectKind}
    (h : raw.decode = .ok kind) : raw.kind < 2 := by
  unfold decode at h
  split at h
  · omega
  · omega
  · cases h

section Handlers

variable {x : Frame} {w : Shared Tables Cpu} (h : Malformed x w.state.user)

include h

lemma refused_sysIpcCall (hnr : (x 8).toNat = 0) : Refused (sysIpcCall x) w := by
  refine .decode fun hid => .failIf fun hlen => .failIf fun hval => absurd h ?_
  simp only [not_or, not_lt, Bool.not_eq_false] at hlen hval
  have hsend := inUser_of_validate hval.1
  have hrecv := inUser_of_validate hval.2
  apply not_malformed <;> simp [ids, handles, flags, buffers, hnr, hlen, hsend, hrecv]
  exact hid

lemma refused_sendBuffer {f : ℕ → List UInt8 → SysM Word} (hnr : (x 8).toNat ∈ [1, 3]) :
    Refused (idArg (x 0) >>= fun channel =>
      failIf (maxMessageSize < (x 2).toNat) .enospc >>= fun _ =>
        copyFromUser (x 1).toNat (x 2).toNat >>= f channel) w := by
  refine .decode fun hid => .failIf fun hlen => .copyFromUser fun hin => absurd h ?_
  rw [not_lt] at hlen
  simp only [mem_cons, not_mem_nil, or_false] at hnr
  rcases hnr with hnr | hnr <;> apply not_malformed <;>
    simp [ids, handles, flags, buffers, hnr, hlen, hin]
  all_goals exact hid

lemma refused_sysIpcSelect (hnr : (x 8).toNat = 5) : Refused (sysIpcSelect x) w := by
  refine .failIf fun hcount => .copyFromUser fun hin => .ofExcept fun entries hdec => absurd h ?_
  have hlen : (x 1).toNat ≤ maxSelectEntries := by omega
  have hin' : InUser (x 0).toNat (16 * (x 1).toNat) := by
    rw [Nat.mul_comm]
    exact hin
  have hkinds : ∀ i < (x 1).toNat, w.state.user.readLe ((x 0).toNat + 16 * i) 4 < 2 := by
    intro i hi
    obtain ⟨kind, hkind⟩ := ok_of_mapM hdec i (mem_range.mpr hi)
    rw [← chunk_kind w.state.user (x 0).toNat hi]
    exact RawSelectEntry.decode_ok hkind
  refine not_malformed ?_ ?_ ?_ ?_ fun _ => hkinds <;>
    simp [ids, handles, flags, buffers, hnr, hin']
  omega

lemma refused_sysIpcRecv (hnr : (x 8).toNat = 2) : Refused (sysIpcRecv x) w := by
  refine .decode fun hid => .failIf fun hlen => .failIf fun hval => absurd h ?_
  rw [not_lt] at hlen
  have hin := inUser_of_validate (Bool.not_eq_false _ ▸ hval)
  apply not_malformed <;> simp [ids, handles, flags, buffers, hnr, hlen, hin]
  exact hid

lemma refused_idArg {f : ℕ → SysM Word} (hnr : (x 8).toNat ∈ [4, 7, 11, 12, 25]) :
    Refused (idArg (x 0) >>= f) w := by
  refine .decode fun hid => absurd h ?_
  simp only [mem_cons, not_mem_nil, or_false] at hnr
  rcases hnr with hnr | hnr | hnr | hnr | hnr <;> apply not_malformed <;>
    simp [ids, handles, flags, buffers, hnr]
  all_goals exact hid

lemma refused_sysCapabilityAttenuate (hnr : (x 8).toNat = 15) :
    Refused (sysCapabilityAttenuate x) w := by
  refine .decode fun hhandle => .currentProcess fun pid => .ofExcept fun newCap hcap => ?_
  refine absurd h (not_malformed ?_ ?_ ?_ ?_ ?_)
  · -- the id in `x3` has been decoded if the type has one
    intro r hr
    simp only [ids, hnr] at hr
    split_ifs at hr with htype
    · rw [mem_singleton] at hr
      rw [hr]
      by_contra hbig
      unfold Kernel.attenuateCap at hcap
      rcases htype with h1 | h3
      · simp only [h1, if_neg hbig] at hcap
        cases hcap
      · simp only [h3, if_neg hbig] at hcap
        cases hcap
    · cases hr
  all_goals simp [handles, flags, buffers, hnr]
  exact hhandle

lemma refused_sysCapabilityRevoke (hnr : (x 8).toNat = 16) : Refused (sysCapabilityRevoke x) w := by
  refine .decode fun hhandle => absurd h ?_
  apply not_malformed <;> simp [ids, handles, flags, buffers, hnr]
  exact hhandle

lemma refused_sysCapabilityList (hnr : (x 8).toNat = 17) : Refused (sysCapabilityList x) w := by
  refine .failIf fun hval => absurd h ?_
  obtain ⟨hmin, hend⟩ := inUser_of_validate (Bool.not_eq_false _ ▸ hval)
  -- a product that saturates is out of bounds
  have hle : (x 0).toNat + 8 * (x 1).toNat ≤ userVaLimit := by
    unfold userVaLimit at hend ⊢
    omega
  have hlen : 8 * (x 1).toNat ≤ userVaLimit := by omega
  have hin : InUser (x 0).toNat (8 * (x 1).toNat) := ⟨hmin, hle⟩
  apply not_malformed <;> simp [ids, handles, flags, buffers, hnr, hlen, hin]

lemma refused_flags {f : Ipc.VmFlags → SysM Word} (hnr : (x 8).toNat ∈ [18, 20]) :
    Refused (fromCallerBits (x 1) >>= f) w := by
  refine .decode fun hbits => absurd h ?_
  simp only [mem_cons, not_mem_nil, or_false] at hnr
  rcases hnr with hnr | hnr <;> apply not_malformed <;>
    simp [ids, handles, flags, buffers, hnr, hbits]

lemma refused_sysSharedMemoryMap (hnr : (x 8).toNat = 21) : Refused (sysSharedMemoryMap x) w := by
  refine .decode fun hid => .decode fun hbits => absurd h ?_
  apply not_malformed <;> simp [ids, handles, flags, buffers, hnr, hbits]
  exact hid

lemma refused_sysSharedMemoryShare (hnr : (x 8).toNat = 22) :
    Refused (sysSharedMemoryShare x) w := by
  refine .decode fun hid => .decode fun hpid => absurd h ?_
  apply not_malformed <;> simp [ids, handles, flags, buffers, hnr]
  exact ⟨hid, hpid⟩

lemma refused_sysAuditLog (hnr : (x 8).toNat = 29) : Refused (sysAuditLog x) w := by
  refine .failIf fun hlen => .copyFromUser fun hin => absurd h ?_
  rw [not_lt] at hlen
  apply not_malformed <;> simp [ids, handles, flags, buffers, hnr, hlen, hin]

lemma refused_sysDebugPrint (hnr : (x 8).toNat = 30) : Refused (sysDebugPrint x) w := by
  refine .failIf fun hlen => .copyFromUser fun hin => absurd h ?_
  rw [not_lt] at hlen
  apply not_malformed <;> simp [ids, handles, flags, buffers, hnr, hlen, hin]

lemma refused_plain {m : SysM Word}
    (hargs : ids x = [] ∧ handles x = [] ∧ flags x = [] ∧ buffers x = [] ∧ (x 8).toNat ≠ 5) :
    Refused m w := by
  obtain ⟨hids, hhandles, hflags, hbuffers, hnr⟩ := hargs
  refine absurd h ?_
  apply not_malformed <;> simp [hids, hhandles, hflags, hbuffers, hnr]

end Handlers

lemma refused_handle {c : Trap} {w : Shared Tables Cpu} (h : Malformed c.x w.state.user) :
    Refused (handle c) w := by
  unfold handle
  split
  next hnr => exact refused_sysIpcCall h hnr
  next hnr => exact refused_sendBuffer h (by simp [hnr])
  next hnr => exact refused_sysIpcRecv h hnr
  next hnr => exact refused_sendBuffer h (by simp [hnr])
  next hnr => exact refused_idArg h (by simp [hnr])
  next hnr => exact refused_sysIpcSelect h hnr
  next hnr => exact refused_plain h (by simp [ids, handles, flags, buffers, hnr])
  next hnr => exact refused_idArg h (by simp [hnr])
  next hnr => exact refused_plain h (by simp [ids, handles, flags, buffers, hnr])
  next hnr => exact refused_idArg h (by simp [hnr])
  next hnr => exact refused_idArg h (by simp [hnr])
  next hnr => exact refused_sysCapabilityAttenuate h hnr
  next hnr => exact refused_sysCapabilityRevoke h hnr
  next hnr => exact refused_sysCapabilityList h hnr
  next hnr => exact refused_flags h (by simp [hnr])
  next hnr => exact refused_plain h (by simp [ids, handles, flags, buffers, hnr])
  next hnr => exact refused_flags h (by simp [hnr])
  next hnr => exact refused_sysSharedMemoryMap h hnr
  next hnr => exact refused_sysSharedMemoryShare h hnr
  next hnr => exact refused_plain h (by simp [ids, handles, flags, buffers, hnr])
  next hnr => exact refused_idArg h (by simp [hnr])
  next hnr => exact refused_plain h (by simp [ids, handles, flags, buffers, hnr])
  next hnr => exact refused_plain h (by simp [ids, handles, flags, buffers, hnr])
  next hnr => exact refused_sysAuditLog h hnr
  next hnr => exact refused_sysDebugPrint h hnr
  · exact ⟨rfl, rfl, rfl⟩

lemma copies_dispatch (c : Trap) (k : Tables) (others : List (Tables → Tables)) :
    (syscallDispatch c k others).own.copies = (state (run c k others)).own.copies := by
  unfold syscallDispatch
  cases run c k others <;> rfl

/-- **User buffers.** Whatever the trap frame, the tables and the others do: every byte of user
memory that a syscall reads or writes lies in `[USER_VA_MIN, USER_VA_LIMIT)` and in a buffer that
the call's own registers name for it; and a malformed call leaves a negative error in `x0`, every
table as it was, and does not block. -/
theorem user_buffers (c : Trap) (k : Tables) (others : List (Tables → Tables)) :
    (∀ cp ∈ (syscallDispatch c k others).own.copies, ∀ a, cp.ptr ≤ a → a < cp.ptr + cp.len →
      (userVaMin ≤ a ∧ a < userVaLimit) ∧
        ∃ b ∈ buffers c.x, b.access = cp.access ∧ b.ptr ≤ a ∧ a < b.ptr + b.len) ∧
    (Malformed c.x k.user →
      (∃ e, (syscallDispatch c k others).own.x 0 = errno e) ∧
        ((syscallDispatch c k others).own.x 0).toInt < 0 ∧
        (syscallDispatch c k others).state = k ∧
        (syscallDispatch c k others).own.thread.blocked = false) := by
  constructor
  · intro cp hcp a hle hlt
    rw [copies_dispatch] at hcp
    have hstart : CopiesInside c.x ⟨c.enter, k, others⟩ := fun cp hcp => absurd hcp not_mem_nil
    obtain ⟨⟨hmin, hlimit⟩, b, hb, hacc, hptr, hend⟩ :=
      (keeps_handle c).state (fun _ _ h => h) hstart cp hcp
    exact ⟨⟨by omega, by omega⟩, b, hb, hacc, by omega, by omega⟩
  · intro h
    obtain ⟨hok, hstate, hthread⟩ := refused_handle (w := ⟨c.enter, k, others⟩) h
    unfold syscallDispatch run
    cases hrun : handle c ⟨c.enter, k, others⟩ with
    | ok v w =>
      rw [hrun] at hok
      cases hok
    | error e w =>
      rw [hrun] at hstate hthread
      refine ⟨⟨e, setX0_x0 _ _⟩, ?_, hstate, congrArg Thread.blocked hthread⟩
      show ((setX0 (errno e) w).own.x 0).toInt < 0
      rw [setX0_x0]
      exact errno_neg e

/-- `NotificationWait` with an id that is no `u32`. -/
def badWait : Trap where
  x := fun i => if i = 0 then 0x100000000 else if i = 8 then 12 else 0
  tid := some 0
  base := none
  ticks := 0
  freq := 0

theorem user_buffers_badWait : Malformed badWait.x Tables.init.user ∧
    ((syscallDispatch badWait Tables.init []).own.x 0).toInt < 0 := by
  have h : Malformed badWait.x Tables.init.user :=
    .inl ⟨badWait.x 0, by decide, by decide⟩
  exact ⟨h, ((user_buffers badWait Tables.init []).2 h).2.1⟩

end Aios.Syscall
