import Aios.Storage.Names

/-!
A file as an array of bytes.

The abstract file is an array that starts empty, with descriptors that have an offset each. The
bridge follows it for the calls on one path: what it reads is what the array has, and the contents
of the object are the array. The exception is a file that nothing was written to, which has one
byte of contents because a block cannot be empty.
-/

namespace Aios.Storage

open Aios.Lib Fallible List Function Option SortedTable

/-! ### The array -/

structure Desc where
  offset : ℕ
  flags : UInt32
  deriving DecidableEq

structure File where
  bytes : List UInt8
  fds : ℕ → Option Desc

inductive FileCall
  | openFile (o : Outside) (flags : UInt32)
  | read (fd bufLen : ℕ)
  | write (o : Outside) (fd : ℕ) (data : List UInt8)
  | close (fd : ℕ)

inductive FileAnswer
  | fd (n : ℕ)
  | bytes (l : List UInt8)
  | count (n : ℕ)
  | done
  deriving DecidableEq

namespace File

variable {f : File} {d : Desc}

def new (fd : ℕ) (flags : UInt32) : File := ⟨[], update (fun _ => none) fd (some ⟨0, flags⟩)⟩

def position (f : File) (d : Desc) : ℕ := if isAppend d.flags then f.bytes.length else d.offset

/-- The array with `data` written over it and beyond its end. -/
def written (f : File) (pos : ℕ) (data : List UInt8) : List UInt8 :=
  f.bytes.take pos ++ data ++ f.bytes.drop (pos + data.length)

def Answers (f : File) : FileCall → FileAnswer → Prop
  | .openFile _ _, .fd fd => f.fds fd = none
  | .read fd bufLen, .bytes l => ∃ d ∈ f.fds fd, l = (f.bytes.drop d.offset).take bufLen
  | .write _ _ data, .count n => n = data.length
  | .close _, .done => True
  | _, _ => False

def after (f : File) : FileCall → FileAnswer → File
  | .openFile _ flags, .fd fd => { f with fds := update f.fds fd (some ⟨0, flags⟩) }
  | .read fd _, .bytes l =>
    ⟨f.bytes, update f.fds fd
      ((f.fds fd).map fun d => { d with offset := d.offset + l.length })⟩
  | .write _ fd data, .count _ =>
    match f.fds fd with
    | none => f
    | some d =>
      { bytes := f.written (f.position d) data
        fds := update f.fds fd (some { d with offset := f.position d + data.length }) }
  | .close fd, .done => { f with fds := update f.fds fd none }
  | _, _ => f

def Touches (f : File) : FileCall → Prop
  | .openFile _ _ => True
  | .read fd _ => f.fds fd ≠ none
  | .write _ fd _ => f.fds fd ≠ none
  | .close fd => f.fds fd ≠ none

def Plain (f : File) : FileCall → Prop
  | .read _ bufLen => f.bytes = [] → bufLen = 0
  | .write _ fd _ => f.bytes = [] → ∀ d ∈ f.fds fd, isAppend d.flags = false
  | _ => True

instance (f : File) (c : FileCall) : Decidable (f.Touches c) := by
  cases c <;> unfold Touches <;> infer_instance

instance (f : File) (c : FileCall) : Decidable (f.Plain c) := by
  cases c <;> unfold Plain <;> infer_instance

lemma length_written {pos : ℕ} (h : pos ≤ f.bytes.length) (data : List UInt8) :
    (f.written pos data).length = max f.bytes.length (pos + data.length) := by
  simp only [written, length_append, length_take, length_drop]
  omega

def stored (l : List UInt8) : List UInt8 := if l = [] then Posix.sentinel else l

lemma stored_of_ne {l : List UInt8} (h : l ≠ []) : stored l = l := if_neg h

lemma length_stored_le {l : List UInt8} (h : l.length ≤ Posix.bufferSize) :
    (stored l).length ≤ Posix.bufferSize := by
  unfold stored
  split_ifs
  · decide
  · exact h

lemma overwrite_stored {pos : ℕ} (h : f.bytes = [] → pos = 0) (data : List UInt8) :
    Posix.overwrite (stored f.bytes) pos data = stored (f.written pos data) := by
  by_cases hempty : f.bytes = []
  · rw [h hempty]
    cases data with
    | nil => simp [Posix.overwrite, written, stored, hempty, Posix.sentinel]
    | cons c data => simp [Posix.overwrite, written, stored, hempty, Posix.sentinel]
  · have hne : f.written pos data ≠ [] := by
      intro hnil
      have hlen := congrArg List.length hnil
      have hpos := length_pos_iff.mpr hempty
      simp only [written, length_append, length_take, length_drop, length_nil] at hlen
      omega
    rw [stored_of_ne hempty, stored_of_ne hne]
    rfl

end File

/-! ### The bridge -/

namespace ObjectIndex

lemma findByName_adjust (t : ObjectIndex) (id : ObjectId) {g : CompactObject → CompactObject}
    (hg : ∀ obj, (g obj).spaceId = obj.spaceId ∧ (g obj).name = obj.name) (spaceId : SpaceId)
    (name : List UInt8) : findByName (t.adjust id g) spaceId name = findByName t spaceId name := by
  unfold findByName SortedTable.adjust
  rw [find?_map, Option.map_map]
  congr 1
  · funext e
    simp only [Function.comp]
    split_ifs <;> rfl
  · congr 1
    funext e
    simp only [Function.comp]
    split_ifs
    · rw [(hg e.2).1, (hg e.2).2]
    · rfl

end ObjectIndex

namespace Posix

variable {sha256 : List UInt8 → ContentHash} {path : List UInt8} {id : ObjectId} {p p' : Posix}
  {f : File}

def perform (sha256 : List UInt8 → ContentHash) (path : List UInt8) : FileCall → PosixM FileAnswer
  | .openFile o flags => do return .fd (← openFile sha256 o path flags)
  | .read fd bufLen => do return .bytes (← read fd bufLen)
  | .write o fd data => do return .count (← write sha256 o fd data)
  | .close fd => do
    close fd
    return .done

/-- The bridge has the file: the path finds the object, its contents are the array, and the
descriptors are where they are on the array. -/
structure Tracks (sha256 : List UInt8 → ContentHash) (path : List UInt8) (id : ObjectId)
    (p : Posix) (f : File) : Prop where
  found : ∃ spaceId name, resolvePath p.store.spaces path = .ok (spaceId, name) ∧
    ObjectIndex.findByName p.store.objects spaceId name = some id
  contents : ∃ obj, p.store.objects.get id = some obj ∧
    obj.contentHash = sha256 (File.stored f.bytes)
  written : File.stored f.bytes ∈ p.store.blocks.written
  present : p.store.blocks.memtable.get (sha256 (File.stored f.bytes)) ≠ none
  ok : p.store.blocks.Ok sha256
  size : f.bytes.length ≤ bufferSize
  fds : ∀ fd d, f.fds fd = some d → d.offset ≤ f.bytes.length ∧
    ∃ e, p.bridge.entry fd = some e ∧ e.objectId = id ∧ e.offset = d.offset ∧ e.flags = d.flags

lemma Tracks.objectRead (h : Tracks sha256 path id p f)
    (hinj : Set.InjOn sha256 {l | l ∈ p.store.blocks.written}) :
    ∃ obj, Store.objectRead p.store id bufferSize = .ok (obj, File.stored f.bytes) := by
  obtain ⟨obj, hobj, hhash⟩ := h.contents
  have hread := h.ok.read hinj h.written (h.ok.counted.pos.mpr h.present)
    (File.length_stored_le h.size)
  refine ⟨obj, ?_⟩
  unfold Store.objectRead
  rw [hobj]
  dsimp only
  rw [hhash, hread]
  rfl

variable {fd : ℕ} {a : FileAnswer} {c : FileCall} {o : Outside}

section

variable (h : Tracks sha256 path id p f)
include h

lemma Tracks.openFile {flags : UInt32} (hopen : openFile sha256 o path flags p = .ok fd p') :
    f.fds fd = none ∧ Tracks sha256 path id p' (f.after (.openFile o flags) (.fd fd)) := by
  obtain ⟨spaceId, name, hresolve, hfind⟩ := h.found
  obtain ⟨spaceId', name', id', dir, p1, k, hr, ht, -, hk, rfl, rfl⟩ := openFile_ok hopen
  rw [hresolve] at hr
  cases hr
  rcases openTarget_ok ht with ⟨obj, hfind', -, rfl⟩ | ⟨hnone, -⟩
  swap
  · rw [hfind] at hnone
    cases hnone
  rw [hfind] at hfind'
  cases hfind'
  have hfree := freeFd_some hk
  have hnew : f.fds k.val = none := by
    by_contra hne
    obtain ⟨d, hd⟩ := ne_none_iff_exists'.mp hne
    obtain ⟨-, e, he, -⟩ := h.fds _ d hd
    rw [hfree] at he
    cases he
  refine ⟨hnew, h.found, h.contents, h.written, h.present, h.ok, h.size, fun fd d hd => ?_⟩
  rw [entry_opened]
  rcases Slots.update_eq_some.mp hd with ⟨rfl, hnew⟩ | ⟨hne, hold⟩
  · cases hnew
    exact ⟨Nat.zero_le _, _, if_pos rfl, rfl, rfl, rfl⟩
  · rw [if_neg hne]
    exact h.fds fd d hold

lemma Tracks.moved {d : Desc} {e : FdEntry} {n m : ℕ}
    (hd : f.fds fd = some d) (he : p.bridge.entry fd = some e) (hn : n ≤ m)
    (hm : f.bytes.length ≤ m) :
    ∀ fd' d', update f.fds fd (some { d with offset := n }) fd' = some d' →
      d'.offset ≤ m ∧ ∃ e', (p.bridge.setEntry fd (some { e with offset := n })).entry fd' = some e' ∧
        e'.objectId = id ∧ e'.offset = d'.offset ∧ e'.flags = d'.flags := by
  intro fd' d' hd'
  obtain ⟨-, e0, he0, hid, -, hflags⟩ := h.fds fd d hd
  rw [he] at he0
  cases he0
  rw [entry_setEntry]
  rcases Slots.update_eq_some.mp hd' with ⟨rfl, hnew⟩ | ⟨hne, hold⟩
  · cases hnew
    exact ⟨hn, _, if_pos ⟨rfl, entry_some_lt he⟩, hid, rfl, hflags⟩
  · obtain ⟨hle, e', he', hrest⟩ := h.fds fd' d' hold
    exact ⟨hle.trans hm, e', by rw [if_neg fun hc => hne hc.1, he'], hrest⟩

lemma Tracks.read (hinj : Set.InjOn sha256 {l | l ∈ p.store.blocks.written})
  {bufLen : ℕ} {l : List UInt8}
    (hread : read fd bufLen p = .ok l p') (htouch : f.fds fd ≠ none)
    (hplain : f.bytes = [] → bufLen = 0) :
    (∃ d ∈ f.fds fd, l = (f.bytes.drop d.offset).take bufLen) ∧
      Tracks sha256 path id p' (f.after (.read fd bufLen) (.bytes l)) := by
  obtain ⟨d, hd⟩ := ne_none_iff_exists'.mp htouch
  obtain ⟨hle, e, he, hid, hoff, hflags⟩ := h.fds fd d hd
  obtain ⟨entry, obj, full, hentry, hfull, rfl, rfl⟩ := read_ok hread
  rw [he] at hentry
  cases hentry
  obtain ⟨obj', hobj'⟩ := h.objectRead hinj
  rw [hid, hobj'] at hfull
  cases hfull
  -- with nothing written the buffer is empty
  have hbytes : ((File.stored f.bytes).drop e.offset).take bufLen
      = (f.bytes.drop d.offset).take bufLen := by
    by_cases hempty : f.bytes = []
    · rw [hplain hempty, take_zero, take_zero]
    · rw [File.stored_of_ne hempty, hoff]
  have hlen : d.offset + ((f.bytes.drop d.offset).take bufLen).length ≤ f.bytes.length := by
    rw [length_take, length_drop]
    omega
  rw [hbytes]
  refine ⟨⟨d, hd, rfl⟩, h.found, h.contents, h.written, h.present, h.ok, h.size, ?_⟩
  have hmoved := h.moved hd he hlen le_rfl
  simp only [File.after, hd, map_some, hoff]
  exact hmoved

lemma Tracks.close (hclose : close fd p = .ok () p') :
    Tracks sha256 path id p' (f.after (.close fd) .done) := by
  have hp' : p' = ⟨p.store, p.bridge.setEntry fd none⟩ := by
    unfold Posix.close at hclose
    obtain ⟨q, q', hq, h1⟩ := bind_ok hclose
    cases hq
    cases he : p.bridge.entry fd with
    | none => simp only [he] at h1; cases h1
    | some e => simp only [he] at h1; cases h1; rfl
  subst hp'
  refine ⟨h.found, h.contents, h.written, h.present, h.ok, h.size, fun fd' d' hd' => ?_⟩
  rcases Slots.update_eq_some.mp hd' with ⟨-, hnew⟩ | ⟨hne, hold⟩
  · cases hnew
  · obtain ⟨hle, e', he', hrest⟩ := h.fds fd' d' hold
    refine ⟨hle, e', ?_, hrest⟩
    rw [entry_setEntry, if_neg fun hc => hne hc.1, he']

lemma Tracks.write (hinj : Set.InjOn sha256 {l | l ∈ p.store.blocks.written})
  {n : ℕ} {data : List UInt8}
    (hwrite : write sha256 o fd data p = .ok n p') (htouch : f.fds fd ≠ none)
    (hplain : f.bytes = [] → ∀ d ∈ f.fds fd, isAppend d.flags = false) :
    n = data.length ∧ Tracks sha256 path id p' (f.after (.write o fd data) (.count n)) := by
  obtain ⟨d, hd⟩ := ne_none_iff_exists'.mp htouch
  obtain ⟨hle, e, he, hid, hoff, hflags⟩ := h.fds fd d hd
  obtain ⟨entry, current, hash, s, hentry, hcur, hfits, hupdate, rfl, rfl⟩ := write_ok hwrite
  rw [he] at hentry
  cases hentry
  obtain ⟨obj', hobj'⟩ := h.objectRead hinj
  rw [hid] at hcur hupdate
  rw [currentContents, hobj'] at hcur
  cases hcur
  -- the write goes where it goes on the array
  have hpos : writeOffset e (File.stored f.bytes) = f.position d := by
    unfold writeOffset File.position
    rw [hflags, hoff]
    by_cases hempty : f.bytes = []
    · have hzero : d.offset = 0 := by
        rw [hempty] at hle
        exact Nat.le_zero.mp hle
      rw [hplain hempty d hd, hzero]
      simp
    · rw [File.stored_of_ne hempty, Nat.min_eq_left hle]
  have hpos_le : f.position d ≤ f.bytes.length := by
    unfold File.position
    split_ifs
    · exact le_rfl
    · exact hle
  have hzero : f.bytes = [] → f.position d = 0 := by
    intro hempty
    rw [hempty] at hpos_le
    exact Nat.le_zero.mp hpos_le
  rw [hpos] at hfits hupdate ⊢
  rw [File.overwrite_stored hzero] at hupdate
  obtain ⟨obj, b1, b2, hobj, -, hcontent, hversion, rfl⟩ := Store.objectUpdate_ok hupdate
  set v := Store.updateVersion sha256 o id obj.versionHead
    (File.stored (f.written (f.position d) data)) (Bytes.ascii ['p', 'o', 's', 'i', 'x'])
    (Bytes.ascii ['w', 'r', 'i', 't', 'e'])
  have hlen := File.length_written hpos_le data
  simp only [File.after, hd]
  refine ⟨trivial, ?_, ⟨Store.advance (sha256 v.encode) v obj, ?_, rfl⟩, ?_, ?_, ?_, ?_, ?_⟩
  · obtain ⟨spaceId, name, hresolve, hfind⟩ := h.found
    have hadjust := ObjectIndex.findByName_adjust p.store.objects id
      (g := Store.advance (sha256 v.encode) v) (fun _ => ⟨rfl, rfl⟩) spaceId name
    exact ⟨spaceId, name, hresolve, hadjust.trans hfind⟩
  · simp [Store.advanced, get_adjust, hobj]
  · change _ ∈ b2.written
    rw [hversion.written, hcontent.written]
    simp
  · exact hversion.present _ hcontent.new
  · exact hversion.ok (hcontent.ok h.ok)
  · have := h.size
    change (f.written (f.position d) data).length ≤ _
    omega
  · refine h.moved hd he (m := (f.written (f.position d) data).length) ?_ ?_ <;> omega

/-- **One call.** Its answer is that of the array, and the bridge still has the file. -/
lemma Tracks.perform (hinj : Set.InjOn sha256 {l | l ∈ p.store.blocks.written})
    (hc : perform sha256 path c p = .ok a p') (htouch : f.Touches c) (hplain : f.Plain c) :
    f.Answers c a ∧ Tracks sha256 path id p' (f.after c a) := by
  cases c with
  | openFile o flags =>
    obtain ⟨fd, p1, hopen, h1⟩ := bind_ok hc
    cases h1
    exact h.openFile hopen
  | read fd bufLen =>
    obtain ⟨l, p1, hread, h1⟩ := bind_ok hc
    cases h1
    exact h.read hinj hread htouch hplain
  | write o fd data =>
    obtain ⟨n, p1, hwrite, h1⟩ := bind_ok hc
    cases h1
    exact h.write hinj hwrite htouch hplain
  | close fd =>
    obtain ⟨u, p1, hclose, h1⟩ := bind_ok hc
    cases h1
    exact ⟨trivial, h.close hclose⟩

end

lemma tracks_new {flags : UInt32} {spaceId : SpaceId} {name : List UInt8}
    (hok : p.store.blocks.Ok sha256)
    (hresolve : resolvePath p.store.spaces path = .ok (spaceId, name))
    (hlen : name.length ≤ maxObjectNameLen)
    (hnew : ObjectIndex.findByName p.store.objects spaceId name = none)
    (hopen : openFile sha256 o path flags p = .ok fd p') : ∃ e, p'.bridge.entry fd = some e ∧
    Tracks sha256 path e.objectId p' (File.new fd flags) := by
  obtain ⟨spaceId', name', id, dir, p1, k, hr, ht, -, hk, rfl, rfl⟩ := openFile_ok hopen
  rw [hresolve] at hr
  cases hr
  rcases openTarget_ok ht with ⟨obj, hfind, -⟩ | ⟨-, -, hash, s, hs, rfl⟩
  · rw [hnew] at hfind
    cases hfind
  obtain ⟨b1, b2, space, -, -, hid, hcontent, hversion, -, hnone, rfl⟩ := Store.objectCreate_ok hs
  cases hid
  set id := Store.idOf o.idTick p.store.objectCounter
  set obj := Store.createdObject o id spaceId name sentinel .text (sha256 sentinel)
    (sha256 (Store.createdVersion sha256 o id (sha256 sentinel) sentinel).encode) with hobj
  have hget : (p.store.objects.insert id obj).get id = some obj := by simp [get_insert]
  have hentry : ∀ fd, (opened p.bridge k ⟨spaceId, id, 0, flags, dir⟩).entry fd
      = if fd = k.val then some ⟨spaceId, id, 0, flags, dir⟩ else p.bridge.entry fd :=
    entry_opened _ _ _
  refine ⟨_, (hentry k.val).trans (if_pos rfl), ⟨spaceId, name, ?_, ?_⟩, ?_, ?_, ?_, ?_,
    Nat.zero_le _, fun fd d hd => ?_⟩
  · have hlabels : SpaceTable.labels (SpaceTable.modify p.store.spaces spaceId
        (Store.charge sentinel.length)) = SpaceTable.labels p.store.spaces :=
      SpaceTable.labels_modify fun _ => rfl
    exact (resolvePath_congr hlabels path).trans hresolve
  · change ObjectIndex.findByName (p.store.objects.insert id obj) spaceId name = some id
    cases hfind : ObjectIndex.findByName (p.store.objects.insert id obj) spaceId name with
    | none =>
      exact absurd ⟨rfl, ByteBuf.bytes_ofBytes hlen⟩ (ObjectIndex.findByName_none hfind hget)
    | some id' =>
      -- another object with this name was there before
      obtain ⟨obj', hobj', hrest⟩ := ObjectIndex.findByName_some hfind
      rw [get_insert] at hobj'
      split_ifs at hobj' with hid
      · rw [hid]
      · exact absurd hrest (ObjectIndex.findByName_none hnew hobj')
  · exact ⟨obj, hget, by simp [obj, Store.createdObject, File.stored, File.new]⟩
  · change _ ∈ b2.written
    rw [hversion.written, hcontent.written]
    simp [File.stored, File.new]
  · exact hversion.present _ hcontent.new
  · exact hversion.ok (hcontent.ok hok)
  · have hupdate : update (fun _ => none) k.val (some (⟨0, flags⟩ : Desc)) fd = some d := hd
    rcases Slots.update_eq_some.mp hupdate with ⟨rfl, hd'⟩ | ⟨-, hd'⟩
    · cases hd'
      exact ⟨le_rfl, _, (hentry _).trans (if_pos rfl), rfl, rfl, rfl⟩
    · cases hd'

/-! ### Runs -/

lemma blocks_next (sha256 : List UInt8 → ContentHash) (p : Posix) (a : Act) :
    (p.store.blocks.Ok sha256 → (next sha256 p a).store.blocks.Ok sha256) ∧
      p.store.blocks.written ⊆ (next sha256 p a).store.blocks.written := by
  rcases next_store sha256 p a with hs | ⟨b, -, hs⟩
  · rw [hs]
    exact ⟨fun h => h, List.Subset.refl _⟩
  · rw [hs]
    exact Store.blocks_next sha256 p.store b

lemma perform_next (h : perform sha256 path c p = .ok a p') : ∃ i, next sha256 p i = p' := by
  cases c with
  | openFile o flags =>
    obtain ⟨fd, p1, hopen, h1⟩ := bind_ok h
    cases h1
    exact ⟨.openFile o path flags, by rw [next, call, state_void, hopen]; rfl⟩
  | read fd bufLen =>
    obtain ⟨l, p1, hread, h1⟩ := bind_ok h
    cases h1
    exact ⟨.read fd bufLen, by rw [next, call, state_void, hread]; rfl⟩
  | write o fd data =>
    obtain ⟨n, p1, hwrite, h1⟩ := bind_ok h
    cases h1
    exact ⟨.write o fd data, by rw [next, call, state_void, hwrite]; rfl⟩
  | close fd =>
    obtain ⟨u, p1, hclose, h1⟩ := bind_ok h
    cases h1
    exact ⟨.close fd, by rw [next, call, hclose]; rfl⟩

def Both (sha256 : List UInt8 → ContentHash) (path : List UInt8) (a : Posix × File)
    (i : FileCall × FileAnswer) (b : Posix × File) : Prop :=
  perform sha256 path i.1 a.1 = .ok i.2 b.1 ∧ b.2 = a.2.after i.1 i.2

def InOrder (a : Posix × File) (i : FileCall × FileAnswer) : Prop :=
  a.2.Touches i.1 ∧ a.2.Plain i.1

lemma both (h : perform sha256 path c p = .ok a p') (f : File) :
    Both sha256 path (p, f) (c, a) (p', f.after c a) := ⟨h, rfl⟩

/-- **The file model.** In any state reached, a path that does not exist is opened with `O_CREAT`.
From then on, after any sequence of successful calls on the path and its descriptors that leaves
the first byte of an empty file alone, the contents of the object are the array, or the byte of an
empty file, and the next call returns what the array answers. -/
theorem file_model {o : Outside} {flags : UInt32} {fd : ℕ} {spaceId : SpaceId} {name : List UInt8}
    {p₁ t : Posix} {f : File}
    (hreach : Runs (fun a i b => next sha256 a i = b) (fun _ _ => True) start p)
    (hresolve : resolvePath p.store.spaces path = .ok (spaceId, name))
    (hlen : name.length ≤ maxObjectNameLen)
    (hnew : ObjectIndex.findByName p.store.objects spaceId name = none)
    (hopen : openFile sha256 o path flags p = .ok fd p₁)
    (hrun : Runs (Both sha256 path) InOrder (p₁, File.new fd flags) (t, f))
    (hinj : Set.InjOn sha256 {l | l ∈ t.store.blocks.written}) :
    ∃ e obj, p₁.bridge.entry fd = some e ∧
      Store.objectRead t.store e.objectId bufferSize
        = .ok (obj, if f.bytes = [] then sentinel else f.bytes) ∧
      ∀ c a t', perform sha256 path c t = .ok a t' → f.Touches c → f.Plain c → f.Answers c a := by
  have hok : p.store.blocks.Ok sha256 :=
    hreach.inv (fun a => a.store.blocks.Ok sha256) Blocks.start_ok fun a i b ha _ hb => by
      subst hb
      exact (blocks_next sha256 a i).1 ha
  obtain ⟨e, he, htracks⟩ := tracks_new hok hresolve hlen hnew hopen
  have htrackst : Tracks sha256 path e.objectId t f :=
    hrun.inv (fun a => Set.InjOn sha256 {l | l ∈ a.1.store.blocks.written} →
      Tracks sha256 path e.objectId a.1 a.2) (fun _ => htracks) (fun a i b ih hok hb hinj => by
        obtain ⟨j, hj⟩ := perform_next hb.1
        have hinj' := hinj.mono (hj ▸ (blocks_next sha256 a.1 j).2)
        rw [hb.2]
        exact ((ih hinj').perform hinj' hb.1 hok.1 hok.2).2) hinj
  obtain ⟨obj, hobj⟩ := htrackst.objectRead hinj
  exact ⟨e, obj, he, hobj, fun c a t' hc htouch hplain =>
    (htrackst.perform hinj hc htouch hplain).1⟩

/-- `/tmp/a`, created for reading and writing. -/
def created : Posix :=
  state (openFile stampHash (.at 1) (tmpPath [97]) (oCreat ||| oRdwr)
    (next stampHash start tmpSpace))

def writtenTo : Posix :=
  state (perform stampHash (tmpPath [97]) (.write (.at 2) 0 [1, 2, 3]) created)

def openedAgain : Posix :=
  state (perform stampHash (tmpPath [97]) (.openFile (.at 3) oRdonly) writtenTo)

def threeBytes : File :=
  ((File.new 0 (oCreat ||| oRdwr)).after (.write (.at 2) 0 [1, 2, 3]) (.count 3)).after
    (.openFile (.at 3) oRdonly) (.fd 1)

lemma created_eq : openFile stampHash (.at 1) (tmpPath [97]) (oCreat ||| oRdwr)
    (next stampHash start tmpSpace) = .ok 0 created := eq_ok_state (by decide +kernel)

lemma next_tmpSpace : Runs (fun a i b => next stampHash a i = b) (fun _ _ => True) start
    (next stampHash start tmpSpace) := (Runs.refl start).snoc trivial rfl

lemma resolvePath_tmpSpace : resolvePath (next stampHash start tmpSpace).store.spaces (tmpPath [97])
    = .ok (Store.idOf 0 1, [97]) := by decide +kernel

theorem file_model_readBack : perform stampHash (tmpPath [97]) (.read 1 2) openedAgain =
    .ok (.bytes [1, 2]) (state (perform stampHash (tmpPath [97]) (.read 1 2) openedAgain)) ∧
    threeBytes.Answers (.read 1 2) (.bytes [1, 2]) := by
  have hwrite : perform stampHash (tmpPath [97]) (.write (.at 2) 0 [1, 2, 3]) created
      = .ok (.count 3) writtenTo := eq_ok_state (by decide +kernel)
  have hagain : perform stampHash (tmpPath [97]) (.openFile (.at 3) oRdonly) writtenTo
      = .ok (.fd 1) openedAgain := eq_ok_state (by decide +kernel)
  have hread : perform stampHash (tmpPath [97]) (.read 1 2) openedAgain = .ok (.bytes [1, 2]) _ :=
    eq_ok_state (by decide +kernel)
  have hinj : ∀ l ∈ openedAgain.store.blocks.written, ∀ l' ∈ openedAgain.store.blocks.written,
      stampHash l = stampHash l' → l = l' := by decide +kernel
  have hguard : InOrder (created, File.new 0 (oCreat ||| oRdwr))
      (.write (.at 2) 0 [1, 2, 3], .count 3) := ⟨by decide +kernel, by decide +kernel⟩
  have hguard' : InOrder (writtenTo, (File.new 0 (oCreat ||| oRdwr)).after
      (.write (.at 2) 0 [1, 2, 3]) (.count 3)) (.openFile (.at 3) oRdonly, .fd 1) :=
    ⟨trivial, trivial⟩
  have hrun : Runs (Both stampHash (tmpPath [97])) InOrder
      (created, File.new 0 (oCreat ||| oRdwr)) (openedAgain, threeBytes) :=
    ((Runs.refl _).snoc hguard (both hwrite _)).snoc hguard' (both hagain _)
  obtain ⟨e, obj, -, -, hanswer⟩ := file_model next_tmpSpace resolvePath_tmpSpace
    (by decide) (by decide +kernel) created_eq hrun fun l hl l' hl' => hinj l hl l' hl'
  exact ⟨hread, hanswer _ _ _ hread (by decide +kernel) (by decide +kernel)⟩

/-- **A new file is not empty.** One byte is read from a file that nothing was written to. -/
theorem new_file_has_byte : ∃ p t,
    Runs (fun a i b => next stampHash a i = b) (fun _ _ => True) start p ∧
    resolvePath p.store.spaces (tmpPath [97]) = .ok (Store.idOf 0 1, [97]) ∧
    ObjectIndex.findByName p.store.objects (Store.idOf 0 1) [97] = none ∧
    openFile stampHash (.at 1) (tmpPath [97]) (oCreat ||| oRdwr) p = .ok 0 created ∧
    perform stampHash (tmpPath [97]) (.read 0 1) created = .ok (.bytes [0]) t ∧
    ¬ (File.new 0 (oCreat ||| oRdwr)).Answers (.read 0 1) (.bytes [0]) := by
  have hread : perform stampHash (tmpPath [97]) (.read 0 1) created = .ok (.bytes [0]) _ :=
    eq_ok_state (by decide +kernel)
  refine ⟨_, _, next_tmpSpace, resolvePath_tmpSpace, by decide +kernel, created_eq, hread, ?_⟩
  rintro ⟨d, hd, hbytes⟩
  simp [File.new] at hbytes

end Posix

end Aios.Storage
