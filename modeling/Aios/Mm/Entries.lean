import Aios.Mm.PageTable

/-!
What the bits of an entry say, and which entries a write to a table changes.
-/

namespace Aios.Mm

open Aios.Lib Aios.Ipc

namespace PageTableEntry

variable {pa : ℕ} {flags : VmFlags}

lemma frame_and_physMask (h : Uspace.Frame pa) : (BitVec.ofNat 64 pa &&& physMask).toNat = pa := by
  obtain ⟨⟨q, rfl⟩, hlt⟩ := h
  have hq : q < 2 ^ 36 := by
    simp only [pageSize] at hlt
    omega
  have hpa : pageSize * q = q <<< 12 := by
    rw [Nat.shiftLeft_eq, pageSize]
    omega
  have hmask : physMask.toNat = (2 ^ 36 - 1) <<< 12 := by decide
  have hmod : (pageSize * q) % 2 ^ 64 = pageSize * q := Nat.mod_eq_of_lt (by omega)
  rw [BitVec.toNat_and, BitVec.toNat_ofNat, hmod, hpa, hmask, ← Nat.shiftLeft_and_distrib,
    Nat.and_two_pow_sub_one_eq_mod, Nat.mod_eq_of_lt hq]

lemma or_and_of_disjoint (x k m : PageTableEntry) (h : physMask &&& m = 0) :
    ((x &&& physMask) ||| k) &&& m = k &&& m := by
  rw [BitVec.and_or_distrib_right, BitVec.and_assoc, h]
  simp

lemma or_and_physMask (x k : PageTableEntry) (h : k &&& physMask = 0) :
    ((x &&& physMask) ||| k) &&& physMask = x &&& physMask := by
  rw [BitVec.and_or_distrib_right, BitVec.and_assoc, BitVec.and_self, h]
  simp

lemma newTable_eq (pa : ℕ) :
    newTable pa = (BitVec.ofNat 64 pa &&& physMask) ||| (table ||| valid) :=
  BitVec.or_assoc _ _ _

lemma isTable_newTable (pa : ℕ) : (newTable pa).isTable = true := by
  unfold isTable
  rw [newTable_eq, or_and_of_disjoint _ _ _ (by decide)]
  decide

lemma physAddr_newTable (h : Uspace.Frame pa) : (newTable pa).physAddr = pa := by
  unfold physAddr
  rw [newTable_eq, or_and_physMask _ _ (by decide)]
  exact frame_and_physMask h

lemma newTable_ne_zero (pa : ℕ) : newTable pa ≠ 0 := by
  intro h
  have htable := isTable_newTable pa
  rw [h] at htable
  revert htable
  decide

def userBits (write execute : Bool) : PageTableEntry :=
  valid ||| table ||| af ||| shInner ||| ((3 : PageTableEntry) <<< 2) |||
    (if write then 0 else apRo) ||| (if execute then 0 else pxn ||| uxn) ||| apUser ||| ng

lemma newPage_eq {e : PageTableEntry} (huser : flags.contains .user = true)
    (h : newPage pa mairNormalWbIdx flags = some e) :
    e = (BitVec.ofNat 64 pa &&& physMask) |||
      userBits (flags.contains .write) (flags.contains .execute) := by
  unfold newPage at h
  rw [if_neg (by intro hwx; simp [hwx] at h)] at h
  have hidx : (mairNormalWbIdx &&& 0x7) <<< attrIdxShift = (3 : PageTableEntry) <<< 2 := by decide
  rw [← Option.some.inj h, userBits, hidx]
  cases flags.contains .write <;> cases flags.contains .execute <;>
    simp [huser, BitVec.or_assoc]

structure Describes (e : PageTableEntry) (pa : ℕ) (flags : VmFlags) : Prop where
  phys : e.physAddr = pa
  writable : e.isWritable = flags.contains .write
  executable : e.isExecutable = flags.contains .execute
  userExecutable : e.isUserExecutable = flags.contains .execute

lemma newPage_describes {e : PageTableEntry} (hpa : Uspace.Frame pa)
    (huser : flags.contains .user = true) (h : newPage pa mairNormalWbIdx flags = some e) :
    e.isValid = true ∧ e.Describes pa flags := by
  rw [newPage_eq huser h]
  refine ⟨?_, ?_, ?_, ?_, ?_⟩
  · unfold isValid
    rw [or_and_of_disjoint _ _ _ (by decide)]
    cases flags.contains .write <;> cases flags.contains .execute <;> decide
  · unfold physAddr
    rw [or_and_physMask]
    · exact frame_and_physMask hpa
    · cases flags.contains .write <;> cases flags.contains .execute <;> decide
  · unfold isWritable
    rw [or_and_of_disjoint _ _ _ (by decide)]
    cases flags.contains .write <;> cases flags.contains .execute <;> decide
  · unfold isExecutable
    rw [or_and_of_disjoint _ _ _ (by decide)]
    cases flags.contains .write <;> cases flags.contains .execute <;> decide
  · unfold isUserExecutable
    rw [or_and_of_disjoint _ _ _ (by decide)]
    cases flags.contains .write <;> cases flags.contains .execute <;> decide

end PageTableEntry

section indices

variable {va va' : ℕ}

lemma indices_eq (va : ℕ) :
    indices va = [va / 2 ^ 39 % 512, va / 2 ^ 30 % 512, va / 2 ^ 21 % 512, va / 2 ^ 12 % 512] := by
  have hmask : ∀ n : ℕ, n &&& 0x1FF = n % 512 := fun n => Nat.and_two_pow_sub_one_eq_mod n 9
  simp only [indices, l0Index, l1Index, l2Index, l3Index, hmask, Nat.shiftRight_eq_div_pow]

lemma indices_lt (va : ℕ) : ∀ i ∈ indices va, i < 512 := by
  intro i hi
  rw [indices_eq] at hi
  simp only [List.mem_cons, List.not_mem_nil, or_false] at hi
  omega

lemma indices_inj (hva : va < 2 ^ 48) (hva' : va' < 2 ^ 48) (hd : pageSize ∣ va)
    (hd' : pageSize ∣ va') (h : indices va = indices va') : va = va' := by
  rw [indices_eq, indices_eq] at h
  simp only [List.cons.injEq, and_true] at h
  simp only [pageSize] at hd hd'
  omega

end indices

section entries

open Uspace

variable {m : Mem} {t t' i i' : ℕ} {e : PageTableEntry}

lemma physToDmap_apart (ht : Frame t) (ht' : Frame t') (hne : t ≠ t') :
    physToDmap t + pageSize ≤ physToDmap t' ∨ physToDmap t' + pageSize ≤ physToDmap t := by
  obtain ⟨hd, hlt⟩ := ht
  obtain ⟨hd', hlt'⟩ := ht'
  unfold physToDmap directMapBase
  simp only [pageSize] at *
  omega

lemma entry_setEntry (m : Mem) (t i : ℕ) (e : PageTableEntry) :
    entry (setEntry m t i e) t i = e := by
  have hlt : e.toNat < 256 ^ 8 := e.isLt
  unfold entry setEntry
  rw [Mem.readLe_writeLe hlt]
  simp

lemma entry_setEntry_of_ne (ht : Frame t) (ht' : Frame t') (hi : i < 512) (hi' : i' < 512)
    (hne : (t', i') ≠ (t, i)) : entry (setEntry m t i e) t' i' = entry m t' i' := by
  unfold entry setEntry
  rw [Mem.readLe_writeLe_outside]
  by_cases htt : t' = t
  · subst htt
    have : i' ≠ i := fun h => hne (by rw [h])
    omega
  · have hapart := physToDmap_apart ht' ht htt
    simp only [pageSize] at hapart
    omega

lemma entry_fill (m : Mem) (t : ℕ) (hi : i < 512) :
    entry (m.fill (physToDmap t) pageSize 0) t i = 0 := by
  have hzero : (m.fill (physToDmap t) pageSize 0).read (physToDmap t + i * 8) 8 =
      List.replicate 8 0 :=
    Mem.read_eq_replicate fun x h1 h2 => if_pos (by simp only [pageSize]; omega)
  unfold entry Mem.readLe
  rw [hzero]
  rfl

lemma entry_fill_of_ne (ht : Frame t) (ht' : Frame t') (hi' : i' < 512) (hne : t' ≠ t) :
    entry (m.fill (physToDmap t) pageSize 0) t' i' = entry m t' i' := by
  have hapart := physToDmap_apart ht' ht hne
  unfold entry
  rw [Mem.readLe_congr fun x h1 h2 => Mem.fill_outside ?_]
  simp only [pageSize] at hapart ⊢
  omega

end entries

end Aios.Mm
