import Aios.Ipc.Notify

/-!
Conservation of notification bits.

A signaller that has taken waiters out of a notification owes each of them a wake (`Pc.dues`).
The invariant says what holds of a thread that is owed a wake, stage by stage (`Due.Ok`), and of
every other thread (`Free`); both look only at what belongs to that thread (`View`), so a step
has to be considered for the threads it touches.
-/

namespace Aios.Ipc.Notify

open Aios.Lib List BitVec

/-! ### What is owed -/

inductive Stage
  | store
  | wake
  | select
  | unblock
  deriving DecidableEq, Repr

structure Due where
  stage : Stage
  id : NotificationId
  tid : Tid
  bits : Word
  deriving DecidableEq, Repr

namespace Pc

def dues : Pc → List Due
  | sigStore id wakes => wakes.map fun w => ⟨.store, id, w.1, w.2⟩
  | sigWake id wakes => wakes.map fun w => ⟨.wake, id, w.1, w.2⟩
  | sigSelect id tid bits wakes =>
    ⟨.select, id, tid, bits⟩ :: wakes.map fun w => ⟨.wake, id, w.1, w.2⟩
  | sigUnblock id tid bits wakes =>
    ⟨.unblock, id, tid, bits⟩ :: wakes.map fun w => ⟨.wake, id, w.1, w.2⟩
  | _ => []

def inFlight (p : Pc) : List Tid := p.dues.map (·.tid)

end Pc

structure View where
  pc : Pc
  blocked : Option Block
  result : Option Word
  select : Option SelectWaiter
  handed : BitLog

def Sys.view (s : Sys) (tid : Tid) : View :=
  ⟨s.pc tid, s.blocked tid, s.results tid, s.selects tid, s.handed tid⟩

namespace View

def Awaits (v : View) (i : NotificationId) : Prop :=
  v.pc = .waitTake i ∧ v.blocked = some (.notification i) ∨
  ∃ es, v.pc = .selTake es ∧ v.blocked = some .select ∧ v.select = some ⟨es, none⟩ ∧
    es.any (·.isFor i) = true

def Ready (es : List SelectKind) (ready : Option (ℕ × Word)) (i : NotificationId) (w : Word) :
    Prop :=
  ∃ index mask, ready = some (index, w) ∧ es[index]? = some (.notification i mask)

def Informed (v : View) (i : NotificationId) (w : Word) : Prop :=
  v.pc = .waitTake i ∧ v.result = some w ∨
  ∃ es r, v.pc = .selTake es ∧ v.select = some ⟨es, r⟩ ∧ Ready es r i w

def Free (v : View) : Prop :=
  match v.pc with
  | .waitTake i =>
    v.blocked = some (.notification i) ∧ v.handed = [] ∨
    v.blocked = none ∧ v.handed = [] ∧ v.result = none ∨
    v.blocked = none ∧ ∃ w, v.handed = [(i, w)] ∧ v.result = some w
  | .selTake es =>
    (v.blocked = some .select ∨ v.blocked = none) ∧ v.handed = [] ∧
      (v.select = none ∨ v.select = some ⟨es, none⟩) ∨
    v.blocked = none ∧ ∃ i w, v.handed = [(i, w)] ∧ v.Informed i w
  | .selUnregister es _ r =>
    v.blocked = none ∧ (v.handed = [] ∧ r = none ∨ ∃ i w, v.handed = [(i, w)] ∧ Ready es r i w)
  | .selRegister es _ _ | .selDeadline es _ | .selBlock es =>
    v.blocked = none ∧ v.handed = [] ∧ v.select = some ⟨es, none⟩
  | _ => v.blocked = none ∧ v.handed = []

end View

def Due.Ok (d : Due) (v : View) : Prop :=
  v.handed = [(d.id, d.bits)] ∧ v.blocked ≠ none ∧
  match d.stage with
  | .store => v.Awaits d.id
  | .wake => v.Awaits d.id ∧ (v.blocked ≠ some .select → v.result = some d.bits)
  | .select => v.Awaits d.id ∧ v.blocked = some .select
  | .unblock => v.Informed d.id d.bits

namespace Sys

variable {s s' : Sys} {tid u : Tid} {i : NotificationId}

/-! ### Counting bits -/

def bit (w : Word) (b : ℕ) : ℕ := (w.getLsbD b).toNat

def bitAt (j : NotificationId) (w : Word) (i : NotificationId) (b : ℕ) : ℕ :=
  if j = i then bit w b else 0

@[simp] lemma count_nil (b : ℕ) : count [] i b = 0 := rfl

lemma count_append (l l' : BitLog) (i : NotificationId) (b : ℕ) :
    count (l ++ l') i b = count l i b + count l' i b := countP_append

@[simp] lemma count_singleton (j : NotificationId) (w : Word) (i : NotificationId) (b : ℕ) :
    count [(j, w)] i b = bitAt j w i b := by
  unfold count bitAt bit
  rw [countP_singleton]
  by_cases hj : j = i
  · cases w.getLsbD b <;> simp [hj]
  · simp [hj]

lemma bit_split (w m : Word) (b : ℕ) : bit w b = bit (w &&& ~~~(w &&& m)) b + bit (w &&& m) b := by
  simp only [bit, getLsbD_and, getLsbD_not]
  cases hw : w.getLsbD b with
  | false => rfl
  | true =>
    have hb : b < 64 := lt_of_getLsbD hw
    cases m.getLsbD b <;> simp [hb]

lemma bit_raise (w m : Word) (b : ℕ) : bit (w ||| m) b = bit w b + bit (m &&& ~~~w) b := by
  simp only [bit, getLsbD_and, getLsbD_or, getLsbD_not]
  cases hm : m.getLsbD b with
  | false => simp
  | true =>
    have hb : b < 64 := lt_of_getLsbD hm
    cases w.getLsbD b <;> simp [hb]

def pendingBit (s : Sys) (i : NotificationId) (b : ℕ) : ℕ := (s.pending i b).toNat

variable {n : NotificationObject}

lemma pendingBit_of (h : s.table i = some n) (b : ℕ) : s.pendingBit i b = bit n.word b := by
  simp [pendingBit, pending, h, bit]

lemma pendingBit_setObject (s : Sys) (j : NotificationId) (n : NotificationObject) (b : ℕ) :
    (s.setObject j n).pendingBit i b = if j = i then bit n.word b else s.pendingBit i b := by
  by_cases hj : j = i
  · subst hj; simp [pendingBit, pending, setObject, bit]
  · simp [pendingBit, pending, setObject, Function.update_of_ne (Ne.symm hj), hj]

def Balanced (s : Sys) : Prop :=
  ∀ i b, count s.raised i b = s.pendingBit i b + s.onTheWay i b + count s.returned i b

lemma Balanced.congr (h : s.Balanced) (hp : ∀ i b, s'.pendingBit i b = s.pendingBit i b)
    (hlog : (s'.raised, s'.handed, s'.returned) = (s.raised, s.handed, s.returned)) :
    s'.Balanced := by
  obtain ⟨hr, hh, ht⟩ := by simpa using hlog
  intro i b
  rw [hp, hr, ht, h i b]
  simp only [onTheWay, hh]

lemma sum_update (f : BitLog → ℕ) (g : Tid → BitLog) (tid : Tid) (l : BitLog) :
    ∑ t, f (Function.update g tid l t) + f (g tid) = ∑ t, f (g t) + f l := by
  have h := Slots.total_update f (some ∘ g) tid (some l)
  rw [← Function.comp_update] at h
  exact h

lemma onTheWay_fail (s : Sys) (tid : Tid) (i : NotificationId) (b : ℕ) :
    (s.fail tid).onTheWay i b + count (s.handed tid) i b = s.onTheWay i b := by
  have h := sum_update (count · i b) s.handed tid []
  rw [count_nil, add_zero] at h
  exact h

lemma Balanced.fail (h : s.Balanced) (hh : s.handed tid = []) : (s.fail tid).Balanced := by
  intro i b
  have hway := onTheWay_fail s tid i b
  rw [hh, count_nil, add_zero] at hway
  rw [hway]
  exact h i b

lemma Balanced.answer (h : s.Balanced) {w : Word} (hh : s.handed tid = [(i, w)]) :
    (s.answer tid i w).Balanced := by
  intro j b
  have hway := onTheWay_fail s tid j b
  rw [hh, count_singleton] at hway
  have hret : count (s.answer tid i w).returned j b = count s.returned j b + bitAt i w j b := by
    rw [← count_singleton, ← count_append]
    rfl
  have hbal : count s.raised j b = s.pendingBit j b + s.onTheWay j b + count s.returned j b := h j b
  rw [hret, show (s.answer tid i w).raised = s.raised from rfl,
    show (s.answer tid i w).pendingBit j b = s.pendingBit j b from rfl,
    show (s.answer tid i w).onTheWay j b = (s.fail tid).onTheWay j b from rfl]
  omega

lemma Balanced.takeBits (h : s.Balanced) {mask : Word} (hn : s.table i = some n)
    (hh : s.handed tid = []) (ht : s.takeBits tid i n mask = some s') : s'.Balanced := by
  simp only [Sys.takeBits] at ht
  split_ifs at ht
  cases ht
  intro j b
  have hway := onTheWay_fail s tid j b
  rw [hh, count_nil, add_zero] at hway
  have hret : count (s.returned ++ [(i, n.word &&& mask)]) j b
      = count s.returned j b + bitAt i (n.word &&& mask) j b := by
    rw [count_append, count_singleton]
  have hpend := pendingBit_setObject (i := j) s i
    { n with word := n.word &&& ~~~(n.word &&& mask) } b
  have hsplit := bit_split n.word mask b
  have hbal : count s.raised j b = s.pendingBit j b + s.onTheWay j b + count s.returned j b := h j b
  have hgoal : count s.raised j b
      = (s.setObject i { n with word := n.word &&& ~~~(n.word &&& mask) }).pendingBit j b
        + (s.fail tid).onTheWay j b + count (s.returned ++ [(i, n.word &&& mask)]) j b := by
    rw [hway, hret, hpend]
    by_cases hij : i = j
    · subst hij
      rw [pendingBit_of hn] at hbal
      simp only [if_true, bitAt]
      omega
    · simp only [hij, if_false, bitAt]
      omega
  exact hgoal

/-! ### What a signal takes -/

def wakeBits (wakes : List (Tid × Word)) (b : ℕ) : ℕ := (wakes.map fun w => bit w.2 b).sum

lemma signalSlot_bits (acc : NotificationObject × List (Tid × Word))
    (k : Fin maxWaitersPerNotification) (b : ℕ) :
    bit (signalSlot acc k).1.word b + wakeBits (signalSlot acc k).2 b
      = bit acc.1.word b + wakeBits acc.2 b := by
  unfold signalSlot
  cases acc.1.waiters k with
  | none => rfl
  | some w =>
    dsimp only
    split_ifs
    · rfl
    · have := bit_split acc.1.word w.mask b
      simp only [wakeBits, map_append, map_cons, map_nil, sum_append, sum_cons, sum_nil]
      omega

lemma signalObject_bits (n : NotificationObject) (bits : Word) (b : ℕ) :
    bit (signalObject n bits).1.word b + wakeBits (signalObject n bits).2 b
      = bit (n.word ||| bits) b := by
  have hloop : ∀ (l : List (Fin maxWaitersPerNotification)) acc,
      bit (l.foldl signalSlot acc).1.word b + wakeBits (l.foldl signalSlot acc).2 b
        = bit acc.1.word b + wakeBits acc.2 b := by
    intro l
    induction l with
    | nil => intro acc; rfl
    | cons k l ih =>
      intro acc
      rw [foldl_cons, ih, signalSlot_bits]
  exact hloop (List.finRange maxWaitersPerNotification) ({ n with word := n.word ||| bits }, [])

lemma count_hand (i j : NotificationId) (handed : Tid → BitLog) (wakes : List (Tid × Word))
    (b : ℕ) : ∑ t, count (hand i handed wakes t) j b
      = ∑ t, count (handed t) j b + if i = j then wakeBits wakes b else 0 := by
  induction wakes with
  | nil => simp [hand, wakeBits]
  | cons w wakes ih =>
    have hstep : ∀ t, count (hand i handed (w :: wakes) t) j b
        = count (hand i handed wakes t) j b + if t = w.1 then bitAt i w.2 j b else 0 := by
      intro t
      unfold hand
      simp only [count_append]
      by_cases ht : w.1 = t
      · subst ht
        rw [filter_cons_of_pos (by simp), map_cons]
        have hc := count_append [(i, w.2)]
          ((wakes.filter fun x => x.1 == w.1).map fun x => (i, x.2)) j b
        rw [count_singleton] at hc
        simp only [singleton_append] at hc
        rw [hc, if_pos rfl]
        omega
      · rw [filter_cons_of_neg (by simpa using ht), if_neg (Ne.symm ht), add_zero]
    simp only [hstep, Finset.sum_add_distrib, ih, Finset.sum_ite_eq', Finset.mem_univ, if_true]
    by_cases hij : i = j
    · simp only [hij, if_true, wakeBits, map_cons, sum_cons, bitAt]
      omega
    · simp [hij, bitAt]

lemma Balanced.signal (h : s.Balanced) (u : Tid) (bits : Word) : (s.signal u i bits).Balanced := by
  unfold Sys.signal
  cases hn : s.table i with
  | none => exact h
  | some n =>
    intro j b
    have hpend := s.pendingBit_setObject (i := j) i (signalObject n bits).1 b
    have hway := count_hand i j s.handed (signalObject n bits).2 b
    have hobj := signalObject_bits n bits b
    have hraise := bit_raise n.word bits b
    have hbal := h j b
    change count (s.raised ++ [(i, bits &&& ~~~n.word)]) j b = (s.setObject i _).pendingBit j b +
      ∑ t, count (hand i s.handed (signalObject n bits).2 t) j b + count s.returned j b
    rw [count_append, count_singleton, hpend, hway, hbal]
    unfold onTheWay
    by_cases hij : i = j
    · subst hij
      rw [pendingBit_of hn]
      simp only [if_true, bitAt]
      omega
    · simp only [hij, if_false, bitAt]
      omega

end Sys

end Aios.Ipc.Notify
