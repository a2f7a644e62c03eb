import Aios.Storage.Accounting
import Aios.Storage.Atomic

/-!
Spaces and objects with `space_delete`.

`space_delete` trusts the object count of a space. It is right as long as no two spaces have the
same id: the count is then the number of the objects with that id, and a space that is deleted has
none. A new id is a reading of the tick counter and of a 64-bit counter, and nothing looks whether
a space has it already.
-/

namespace Aios.Storage

open Aios.Lib Fallible Function Slots Option

namespace SpaceTable

def remove (t : SpaceTable) (id : SpaceId) : Option SpaceTable :=
  (index t id).map fun k => update t k none

end SpaceTable

namespace Store

def spaceDelete (id : SpaceId) : StoreM Unit := do
  let s ← get
  match SpaceTable.get s.spaces id with
  | none => throw .spaceNotFound
  | some space =>
    if 0 < space.objectCount then throw .spaceNotEmpty
    else
      match SpaceTable.remove s.spaces id with
      | none => throw .spaceNotFound
      | some t => set { s with spaces := t }

/-- A call, `space_delete` included. -/
inductive Request
  | call (a : Act)
  | spaceDelete (id : SpaceId)

def serve (sha256 : List UInt8 → ContentHash) (s : Store) : Request → Store
  | .call a => next sha256 s a
  | .spaceDelete id => state (spaceDelete id s)

def NewId (s : Store) : Request → Prop
  | .call (.spaceCreate o _ _ _) =>
    ∀ k, (s.spaces k).all fun sp => sp.id != idOf o.idTick s.spaceCounter
  | _ => True

instance (s : Store) (r : Request) : Decidable (s.NewId r) := by
  unfold NewId
  split <;> infer_instance

open SpaceTable

variable {sha256 : List UInt8 → ContentHash} {s s' : Store} {k : Fin maxSpaces} {spaceId : SpaceId}

lemma spaceId_ne_of_countOf (h : s.countOf spaceId = 0) {id : ObjectId} {obj : CompactObject}
    (hobj : s.objects.get id = some obj) : obj.spaceId ≠ spaceId := by
  intro heq
  have hle := SortedTable.le_total (fun _ (obj : CompactObject) =>
    if obj.spaceId = spaceId then 1 else 0) hobj
  rw [if_pos heq] at hle
  change 1 ≤ s.countOf spaceId at hle
  omega

namespace Orderly

lemma remove (h : s.Orderly) {space : Space} (hk : s.spaces k = some space)
    (hzero : space.objectCount = 0) : Orderly { s with spaces := update s.spaces k none } := by
  have hempty : s.countOf space.id = 0 := (h.counts k space hk).symm.trans hzero
  have hold : ∀ j sp, update s.spaces k none j = some sp → s.spaces j = some sp := by
    intro j sp hsp
    rcases update_eq_some.mp hsp with ⟨-, hnone⟩ | ⟨-, hj⟩
    · cases hnone
    · exact hj
  refine ⟨⟨fun j sp hsp => h.counts j sp (hold j sp hsp), fun id obj hobj => ?_⟩, h.few,
    fun j j' sp sp' hsp hsp' => h.distinct j j' sp sp' (hold j sp hsp) (hold j' sp' hsp')⟩
  obtain ⟨j, sp, hsp, hid⟩ := h.owned id obj hobj
  refine ⟨j, sp, update_eq_some.mpr (.inr ⟨?_, hsp⟩), hid⟩
  rintro rfl
  rw [hk] at hsp
  cases hsp
  exact spaceId_ne_of_countOf hempty hobj hid.symm

lemma spaceDelete (h : s.Orderly) (id : SpaceId) : (state (Store.spaceDelete id s)).Orderly := by
  have hget : (get : StoreM Store) s = .ok s s := rfl
  rw [Store.spaceDelete, bind_eq hget]
  cases hspace : SpaceTable.get s.spaces id with
  | none => exact h
  | some space =>
    obtain ⟨k, hindex, hk, -⟩ := SpaceTable.get_some hspace
    dsimp only
    split_ifs with hcount
    · exact h
    · rw [SpaceTable.remove, hindex]
      exact h.remove hk (by omega)

lemma serve (h : s.Orderly) {r : Request} (hnew : s.NewId r) : (serve sha256 s r).Orderly := by
  cases r with
  | spaceDelete id => exact h.spaceDelete id
  | call a =>
    refine h.next fun k o name zone quota _ ha j sp hsp => ?_
    subst ha
    have hall := hnew j
    rw [hsp] at hall
    simpa using hall

end Orderly

/-- **Spaces and objects stay consistent.** After every sequence of calls, successful or not, in
which no new space gets the id of a space that is there, every count is the number of objects and
every object has its space. -/
theorem spaces_consistent {t : Store}
    (h : Runs (fun a i b => serve sha256 a i = b) NewId start t) : t.Consistent := by
  have hinv : t.Orderly := h.inv Orderly start_orderly fun a i b ha hok hb => by
    subst hb
    exact ha.serve hok
  exact hinv.toConsistent

def emptied : List Request :=
  oneObject.map .call ++ [.spaceDelete (idOf 0 1), .call (.objectDelete (idOf 1 1)),
    .spaceDelete (idOf 0 1)]

theorem spaces_consistent_emptied : ((emptied.take 3).foldl (serve stampHash) start).counters 0 =
    some (1, 1) ∧ (emptied.foldl (serve stampHash) start).counters 0 = none ∧
    (emptied.foldl (serve stampHash) start).Consistent := by
  have hallowed : Runs.allowed NewId (serve stampHash) start emptied = true := by decide +kernel
  have hrun : Runs (fun a i b => serve stampHash a i = b) NewId start
      (emptied.foldl (serve stampHash) start) := Runs.of_foldl (fun _ _ _ => rfl) hallowed
  exact ⟨by decide +kernel, by decide +kernel, spaces_consistent hrun⟩

/-! ### Ids that wrap -/

def Earlier (s : Store) : Prop :=
  ∀ k sp, s.spaces k = some sp → ∃ tick c, sp.id = idOf tick c ∧ c < s.spaceCounter

lemma Earlier.congr (h : s.Earlier)
    (hids : ∀ k sp', s'.spaces k = some sp' → ∃ sp, s.spaces k = some sp ∧ sp'.id = sp.id)
    (hcounter : s.spaceCounter ≤ s'.spaceCounter) : s'.Earlier := by
  intro k sp' hsp'
  obtain ⟨sp, hsp, hid⟩ := hids k sp' hsp'
  obtain ⟨tick, c, hc, hlt⟩ := h k sp hsp
  exact ⟨tick, c, hid.trans hc, hlt.trans_le hcounter⟩

lemma Earlier.modify (h : s.Earlier) {f : Space → Space} (hf : ∀ sp, (f sp).id = sp.id)
    (hspaces : s'.spaces = SpaceTable.modify s.spaces spaceId f)
    (hcounter : s'.spaceCounter = s.spaceCounter) : s'.Earlier := by
  refine h.congr (fun k sp' hsp' => ?_) hcounter.ge
  rw [hspaces, modify_apply] at hsp'
  split_ifs at hsp'
  · obtain ⟨sp, hsp, rfl⟩ := map_eq_some_iff.mp hsp'
    exact ⟨sp, hsp, hf sp⟩
  · exact ⟨sp', hsp', rfl⟩

lemma Earlier.serve (h : s.Earlier) (r : Request) : (serve sha256 s r).Earlier := by
  cases r with
  | spaceDelete id =>
    have hget : (get : StoreM Store) s = .ok s s := rfl
    change (state (spaceDelete id s)).Earlier
    rw [spaceDelete, bind_eq hget]
    cases hspace : SpaceTable.get s.spaces id with
    | none => exact h
    | some space =>
      obtain ⟨k, hindex, hk, -⟩ := SpaceTable.get_some hspace
      dsimp only
      split_ifs
      · exact h
      · rw [SpaceTable.remove, hindex]
        refine h.congr (fun j sp hsp => ⟨sp, ?_, rfl⟩) le_rfl
        rcases update_eq_some.mp hsp with ⟨-, hnone⟩ | ⟨-, hj⟩
        · cases hnone
        · exact hj
  | call a =>
    have hdid := next_did sha256 s a
    change (next sha256 s a).Earlier
    generalize Store.next sha256 s a = t at hdid ⊢
    cases hdid with
    | failed hno hidle =>
      refine h.congr (fun k sp hsp => ⟨sp, ?_, rfl⟩) hidle.spaceCounter.ge
      rwa [hidle.spaces] at hsp
    | noSpace hfull => exact h.congr (fun k sp hsp => ⟨sp, hsp, rfl⟩) (Nat.le_succ _)
    | @space o _ _ _ _ hfree =>
      intro k sp hsp
      rcases update_eq_some.mp hsp with ⟨-, hsome⟩ | ⟨-, hold⟩
      · cases hsome
        exact ⟨o.idTick, s.spaceCounter, rfl, Nat.lt_succ_self _⟩
      · obtain ⟨tick, c, hc, hlt⟩ := h k sp hold
        exact ⟨tick, c, hc, Nat.lt_succ_of_lt hlt⟩
    | create hspace hquota hcontent hversion hsize hnone =>
      exact h.modify (f := charge _) (fun _ => rfl) rfl rfl
    | update hobj hcontent hversion => exact h
    | rollback hobj hold hversion hcontent => exact h
    | delete hobj => exact h.modify (f := refund _) (fun _ => rfl) rfl rfl

/-- **New ids are new.** In every state that is reached before the counter of the spaces wraps, a
space that is created gets an id that no space in the table has. -/
theorem newId_of_unwrapped (h : Runs (fun a i b => serve sha256 a i = b) (fun _ _ => True) start s)
    (hlt : s.spaceCounter < 2 ^ 64) (r : Request) : s.NewId r := by
  have hearlier : s.Earlier := h.inv Earlier (fun _ _ hc => (by cases hc)) fun u r v hu _ hv => by
    subst hv
    exact hu.serve r
  match r with
  | .spaceDelete _ => trivial
  | .call (.objectCreate ..) => trivial
  | .call (.objectUpdate ..) => trivial
  | .call (.versionRollback ..) => trivial
  | .call (.objectDelete _) => trivial
  | .call (.spaceCreate o _ _ _) =>
    intro k
    cases hsp : s.spaces k with
    | none => rfl
    | some sp =>
      obtain ⟨tick, c, hc, hcount⟩ := hearlier k sp hsp
      rw [all_some, bne_iff_ne, hc]
      intro heq
      have := idOf_inj (hcount.trans hlt) hlt heq
      omega

def withCounter (s : Store) (c : ℕ) : Store := { s with spaceCounter := c }

def another : Request := .call (.spaceCreate (.at 0) [2] .personal .unlimited)

theorem newId_of_one_space :
    ((serve stampHash start another).spaces 0).map Space.id = some (idOf 0 1) ∧
      (serve stampHash start another).NewId another :=
  ⟨by decide +kernel, newId_of_unwrapped ((Runs.refl _).snoc (i := another) trivial rfl)
    (by decide +kernel) _⟩

lemma serve_another (sha256 : List UInt8 → ContentHash) (hfree : s.spaces.firstFree = some k) :
    serve sha256 s another = { s with
      spaces := update s.spaces k
        (some (newSpace (.at 0) (idOf 0 s.spaceCounter) [2] .personal .unlimited))
      spaceCounter := s.spaceCounter + 1 } := by
  change state (((do let _ ← spaceCreate (.at 0) [2] .personal .unlimited) : StoreM Unit) s) = _
  rw [state_void]
  cases hr : spaceCreate (.at 0) [2] .personal .unlimited s with
  | ok id t =>
    obtain ⟨k', hfree', rfl⟩ := spaceCreate_ok hr
    rw [hfree] at hfree'
    cases hfree'
    rfl
  | error er t =>
    rw [(spaceCreate_error hr).1] at hfree
    cases hfree

lemma serve_pair (sha256 : List UInt8 → ContentHash) (hfree : s.spaces.firstFree = some k)
    (hnew : ∀ j sp, s.spaces j = some sp → sp.id ≠ idOf 0 s.spaceCounter) :
    serve sha256 (serve sha256 s another) (.spaceDelete (idOf 0 s.spaceCounter)) =
      s.withCounter (s.spaceCounter + 1) := by
  have hk : s.spaces k = none := firstFree_some hfree
  rw [serve_another sha256 hfree]
  generalize hsp : newSpace (.at 0) (idOf 0 s.spaceCounter) [2] .personal .unlimited = sp
  have hid : sp.id = idOf 0 s.spaceCounter := by rw [← hsp]; rfl
  have hzero : sp.objectCount = 0 := by rw [← hsp]; rfl
  -- the id is found in the new slot
  have hindex : SpaceTable.index (update s.spaces k (some sp)) (idOf 0 s.spaceCounter) =
      some k := by
    have hslot : update s.spaces k (some sp) k = some sp := update_self _ _ _
    have hne := index_ne_none hslot
    rw [hid] at hne
    obtain ⟨j, hj⟩ := ne_none_iff_exists'.mp hne
    obtain ⟨sp', hsp', hid'⟩ := index_some hj
    rcases update_eq_some.mp hsp' with ⟨rfl, -⟩ | ⟨-, hold⟩
    · exact hj
    · exact absurd hid' (hnew j sp' hold)
  have hget : SpaceTable.get (update s.spaces k (some sp)) (idOf 0 s.spaceCounter) =
      some sp := by
    rw [SpaceTable.get, hindex]
    exact update_self _ _ _
  have hremove : SpaceTable.remove (update s.spaces k (some sp))
      (idOf 0 s.spaceCounter) = some s.spaces := by
    rw [SpaceTable.remove, hindex, map_some, update_idem, ← hk, update_eq_self]
  change state (spaceDelete (idOf 0 s.spaceCounter) _) = _
  rw [spaceDelete, bind_eq (show (MonadState.get : StoreM Store) _ = .ok _ _ from rfl)]
  simp only [hget, hzero, lt_irrefl, if_false, hremove]
  rfl

lemma runs_pairs (sha256 : List UInt8 → ContentHash) (hfree : s.spaces.firstFree = some k) (n : ℕ)
    (hnew : ∀ c < n, ∀ j sp, s.spaces j = some sp → sp.id ≠ idOf 0 (s.spaceCounter + c)) :
    Runs (fun a i b => serve sha256 a i = b) (fun _ _ => True) s
      (s.withCounter (s.spaceCounter + n)) := by
  induction n with
  | zero => exact .refl _
  | succ n ih =>
    have hrun := ih fun c hc => hnew c (Nat.lt_succ_of_lt hc)
    have hpair := serve_pair (s := s.withCounter (s.spaceCounter + n)) sha256 hfree
      (hnew n (Nat.lt_succ_self n))
    exact (hrun.snoc (i := another) trivial rfl).snoc trivial hpair

lemma not_consistent_another (sha256 : List UInt8 → ContentHash) {c : ℕ}
    (hfree : s.spaces.firstFree = some k) (hcount : s.countOf (idOf 0 c) ≠ 0) :
    ¬ (serve sha256 (s.withCounter c) another).Consistent := by
  intro hcons
  rw [serve_another (s := s.withCounter c) sha256 hfree] at hcons
  exact hcount (hcons.counts k _ (update_self _ _ _)).symm

def oneSpace : Store := (oneObject.map .call).foldl (serve stampHash) start

/-- **A counter that wraps.** One space has an object. At the same tick spaces come and go until the
counter has gone around; the next space gets the id of the first and counts no object. -/
theorem spaces_inconsistent : ∃ t,
    Runs (fun a i b => serve stampHash a i = b) (fun _ _ => True) start t ∧ ¬ t.Consistent := by
  have hstart : Runs (fun a i b => serve stampHash a i = b) (fun _ _ => True) start oneSpace :=
    Runs.of_foldl (fun _ _ _ => rfl) (by decide +kernel)
  have hfacts : oneSpace.spaces.firstFree = some 1 ∧ oneSpace.spaceCounter = 2 ∧
      oneSpace.countOf (idOf 0 1) = 1 ∧
      (∀ k, (oneSpace.spaces k).all fun sp => sp.id == idOf 0 1) := by
    decide +kernel
  obtain ⟨hfree, hcounter, hcount, hids⟩ := hfacts
  have hwrap : idOf 0 (2 ^ 64 + 1) = idOf 0 1 ∧ idOf 0 (2 ^ 64) ≠ idOf 0 1 := by decide +kernel
  obtain ⟨n, hn⟩ : ∃ n, n + 1 = 2 ^ 64 := ⟨2 ^ 64 - 1, rfl⟩
  have hnew : ∀ c < n, ∀ j sp, oneSpace.spaces j = some sp →
      sp.id ≠ idOf 0 (oneSpace.spaceCounter + c) := by
    intro c hc j sp hsp heq
    have hid : sp.id = idOf 0 1 := by
      have := hids j
      rw [hsp] at this
      simpa using this
    rw [hid, hcounter] at heq
    rcases Nat.lt_or_ge (2 + c) (2 ^ 64) with hlt | hge
    · have := idOf_inj (by omega) hlt heq
      omega
    · rw [show 2 + c = 2 ^ 64 by omega] at heq
      exact hwrap.2 heq.symm
  have hrun : Runs (fun a i b => serve stampHash a i = b) (fun _ _ => True) start
      (oneSpace.withCounter (oneSpace.spaceCounter + n)) :=
    hstart.trans (runs_pairs stampHash hfree n hnew)
  have hid : idOf 0 (oneSpace.spaceCounter + n) = idOf 0 1 := by
    rw [hcounter, show 2 + n = 2 ^ 64 + 1 by omega, hwrap.1]
  refine ⟨_, hrun.snoc (i := another) trivial rfl, not_consistent_another stampHash hfree ?_⟩
  rw [hid, hcount]
  exact one_ne_zero

end Store

end Aios.Storage
