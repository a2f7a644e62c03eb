import Aios.Storage.Disk

/-!
The log as a list of records.

`OnDisk` says what a formatted disk holds: a superblock with a given mark and, in the first
entries of the log, the records of a list. It is kept by each kind of sector write of the
engine, with the list or the mark changed accordingly.
-/

namespace Aios.Storage

open Aios.Lib List

structure Rec where
  hash : ContentHash
  start : ℕ
  size : ℕ
  committed : Bool
  deriving DecidableEq

namespace Rec

variable (r : Rec)

def sectors : ℕ := divCeil (8 + r.size + encryptionOverhead) sectorSize

def endSector : ℕ := r.start + r.sectors

def loc : BlockLocation := ⟨r.start * sectorSize, r.size, .hot⟩

def commit : Rec := { r with committed := true }

def entry (i : ℕ) : WalEntry :=
  (WalEntry.new (i + 1) r.hash (r.start * sectorSize) r.size (if r.committed then 1 else 0)).sealed

structure Ok (env : Env) : Prop where
  start_ge : dataStartSector ≤ r.start
  end_le : r.endSector ≤ env.capacity
  size_lt : r.size < 2 ^ 32

@[simp] lemma commit_sectors : r.commit.sectors = r.sectors := rfl
@[simp] lemma commit_endSector : r.commit.endSector = r.endSector := rfl
@[simp] lemma commit_hash : r.commit.hash = r.hash := rfl
@[simp] lemma commit_loc : r.commit.loc = r.loc := rfl

variable {r} {env : Env} {i : ℕ}

lemma Ok.commit (h : r.Ok env) : r.commit.Ok env := ⟨h.start_ge, h.end_le, h.size_lt⟩

section

variable (h : r.Ok env) (hi : i < walCapacity)
include h hi

lemma Ok.fits :
    (WalEntry.new (i + 1) r.hash (r.start * sectorSize) r.size
      (if r.committed then 1 else 0)).Fits := by
  have hstart : r.start ≤ env.capacity := by
    have := h.end_le
    unfold endSector at this
    omega
  have hoff : r.start * sectorSize ≤ env.capacity * sectorSize :=
    Nat.mul_le_mul_right _ hstart
  have hcap := env.capacity_bytes
  have hsize := h.size_lt
  simp only [walCapacity] at hi
  exact
    { sequenceNumber := show i + 1 < 256 ^ 8 by omega
      dataOffset := show r.start * sectorSize < 256 ^ 8 by omega
      dataSize := show r.size < 256 ^ 4 by omega
      committed := show (if r.committed then 1 else 0) < 256 ^ 1 by split_ifs <;> omega
      pad := rfl
      pad2 := rfl }

lemma Ok.length_encode : (r.entry i).encode.length = walEntrySize := by
  have hf := h.fits hi
  exact WalEntry.length_encode
    ⟨hf.sequenceNumber, hf.dataOffset, hf.dataSize, hf.committed, hf.pad, hf.pad2⟩

lemma Ok.decode :
    WalEntry.decode (r.entry i).encode = r.entry i := WalEntry.decode_encode (h.fits hi)

end

lemma entry_valid (r : Rec) (i : ℕ) : (r.entry i).isValid = true := WalEntry.isValid_sealed _

lemma entry_commit (r : Rec) (i : ℕ) :
    WalEntry.sealed { r.entry i with committed := 1 } = r.commit.entry i := rfl

end Rec

/-- The disk holds a superblock with mark `mk` and logs the records `recs`. -/
structure OnDisk (env : Env) (tick : ℕ) (m : Mem) (recs : List Rec) (mk : Mark) : Prop where
  header : header m = sbOf env tick mk
  logged : ∀ i r, recs[i]? = some r → entryAt m i = r.entry i
  recOk : ∀ r ∈ recs, r.Ok env
  head_le : mk.head ≤ recs.length
  recs_le : recs.length ≤ walCapacity
  fits : mk.Fits env
  capacity : 8 ≤ env.capacity

namespace OnDisk

variable {env : Env} {tick : ℕ} {m m' : Mem} {recs : List Rec} {mk mk' : Mark} {r : Rec} {i : ℕ}

lemma walAddr_bound (hi : i < walCapacity) : 4096 ≤ walAddr i ∧ walAddr i + 64 ≤ dataBase := by
  unfold walAddr walCapacity dataBase at *
  omega

section

variable (h : OnDisk env tick m recs mk)
include h

lemma frame (hm : ∀ x < dataBase, m' x = m x) : OnDisk env tick m' recs mk where
  header := by
    rw [← h.header]
    exact header_congr fun x hx => hm x (by unfold dataBase; omega)
  logged := fun i r hr => by
    rw [← h.logged i r hr]
    have hi : i < recs.length := (List.getElem?_eq_some_iff.mp hr).1
    have := walAddr_bound (lt_of_lt_of_le hi h.recs_le)
    exact entryAt_congr fun x _ hx => hm x (by unfold walEntrySize at hx; omega)
  recOk := h.recOk
  head_le := h.head_le
  recs_le := h.recs_le
  fits := h.fits
  capacity := h.capacity

lemma write_entry (hi : i < walCapacity) (hr : r.Ok env) :
    Storage.header (m.write (walAddr i) (r.entry i).encode) = sbOf env tick mk ∧
      (∀ j ≠ i, entryAt (m.write (walAddr i) (r.entry i).encode) j = entryAt m j) ∧
      entryAt (m.write (walAddr i) (r.entry i).encode) i = r.entry i := by
  have hlen := hr.length_encode hi
  have haddr := walAddr_bound hi
  refine ⟨?_, fun j hj => entryAt_congr fun x h1 h2 => Mem.write_outside ?_, ?_⟩
  · rw [← h.header]
    exact header_congr fun x hx => Mem.write_outside (by omega)
  · rw [hlen]
    unfold walAddr walEntrySize at *
    omega
  · have hread := Mem.read_write m (walAddr i) (r.entry i).encode
    rw [hlen] at hread
    rw [entryAt, hread, hr.decode hi]

lemma append (hi : recs.length < walCapacity) (hr : r.Ok env) :
    OnDisk env tick (m.write (walAddr recs.length) (r.entry recs.length).encode)
      (recs ++ [r]) mk := by
  obtain ⟨hhead, hother, hnew⟩ := h.write_entry hi hr
  refine ⟨hhead, fun j r' hj => ?_, fun r' hr' => ?_, ?_, ?_, h.fits, h.capacity⟩
  · by_cases hlt : j < recs.length
    · rw [getElem?_append_left hlt] at hj
      rw [hother j (by omega), h.logged j r' hj]
    · have hjlen : j = recs.length := by
        have := (List.getElem?_eq_some_iff.mp hj).1
        simp only [List.length_append, List.length_singleton] at this
        omega
      subst hjlen
      rw [getElem?_concat_length, Option.some.injEq] at hj
      rw [hnew, hj]
  · rcases mem_append.mp hr' with hr' | hr'
    · exact h.recOk r' hr'
    · rw [mem_singleton.mp hr']
      exact hr
  · have := h.head_le
    simp only [length_append, length_singleton]
    omega
  · rw [length_append]
    exact hi

lemma scratch (hi : recs.length < walCapacity) (hr : r.Ok env) :
    OnDisk env tick (m.write (walAddr recs.length) (r.entry recs.length).encode) recs mk := by
  obtain ⟨hhead, hother, -⟩ := h.write_entry hi hr
  refine ⟨hhead, fun j r' hj => ?_, h.recOk, h.head_le, h.recs_le, h.fits, h.capacity⟩
  have hlt := (List.getElem?_eq_some_iff.mp hj).1
  rw [hother j (by omega), h.logged j r' hj]

lemma commit (hr : recs[i]? = some r) :
    OnDisk env tick (m.write (walAddr i) (r.commit.entry i).encode) (recs.set i r.commit) mk := by
  have hlt := (List.getElem?_eq_some_iff.mp hr).1
  have hok : r.Ok env := h.recOk r (List.mem_of_getElem? hr)
  obtain ⟨hhead, hother, hnew⟩ := h.write_entry (lt_of_lt_of_le hlt h.recs_le) hok.commit
  refine ⟨hhead, fun j r' hj => ?_, fun r' hr' => ?_, by simpa using h.head_le,
    by simpa using h.recs_le, h.fits, h.capacity⟩
  · by_cases hji : j = i
    · subst hji
      rw [getElem?_set_self hlt, Option.some.injEq] at hj
      rw [hnew, hj]
    · rw [getElem?_set_ne (Ne.symm hji)] at hj
      rw [hother j hji, h.logged j r' hj]
  · rcases mem_or_eq_of_mem_set hr' with hr' | rfl
    · exact h.recOk r' hr'
    · exact hok.commit

lemma persist (hmk : mk'.Fits env) (hhead : mk'.head ≤ recs.length)
    {pad l : List UInt8} (hl : 112 ≤ l.length) (hl' : l.length ≤ 4096)
    (htake : l.take 112 = ((sbOf env tick mk').withPad pad).encode.take 112) :
    OnDisk env tick (m.write 0 l) recs mk' := by
  refine ⟨header_write hmk hl htake, fun j r hj => ?_, h.recOk, hhead, h.recs_le, hmk, h.capacity⟩
  rw [← h.logged j r hj]
  refine entryAt_congr fun x hx _ => Mem.write_outside ?_
  unfold walAddr at hx
  omega

lemma reboot : OnDisk env tick m (recs.take mk.head) mk := by
  have hlen : (recs.take mk.head).length = mk.head := by
    rw [length_take, min_eq_left h.head_le]
  refine ⟨h.header, fun i r hr => ?_, fun r hr => h.recOk r (mem_of_mem_take hr),
    hlen.ge, ?_, h.fits, h.capacity⟩
  · rw [getElem?_take] at hr
    split_ifs at hr
    exact h.logged i r hr
  · rw [hlen]
    exact h.fits.head

end

end OnDisk

end Aios.Storage
