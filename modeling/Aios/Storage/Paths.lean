import Aios.Storage.Names

/-!
Path resolution: the scanners of `resolve_path` and what they compute.

`contains_traversal` and `split_first_component` walk a path by positions: each round looks for the
next slash, takes what lies in front of it and goes on behind it. Here they are written as the
source has them and shown to be the split of the path at its slashes.
-/

namespace Aios.Storage

open Aios.Lib SpaceTable List

namespace Scanner

def position (path : List UInt8) (start : ℕ) : Option ℕ :=
  ((path.drop start).findIdx? (· == slash)).map (start + ·)

def startsWith (haystack needle : List UInt8) : Bool :=
  decide (needle.length ≤ haystack.length) && haystack.take needle.length == needle

/-- The loop of `contains_traversal`. Every round but the last goes on behind a slash, so that the
length of the path and one more bounds the rounds. -/
def traversalFrom (path : List UInt8) : ℕ → ℕ → Bool
  | 0, _ => false
  | n + 1, start =>
    let endPos := (position path start).getD path.length
    let component := (path.drop start).take (endPos - start)
    if component == Bytes.ascii ['.'] || component == Bytes.ascii ['.', '.'] then true
    else if path.length ≤ endPos then false
    else traversalFrom path n (endPos + 1)

def containsTraversal (path : List UInt8) : Bool := traversalFrom path (path.length + 1) 0

/-- The loop of `split_first_component`, bounded in the same way. -/
def splitFrom (spaces : SpaceTable) (path : List UInt8) :
    ℕ → ℕ → Option (List UInt8 × List UInt8)
  | 0, _ => none
  | n + 1, searchFrom =>
    match position path searchFrom with
    | none => none
    | some pos =>
      if (findByName spaces (path.take pos)).isSome then some (path.take pos, path.drop (pos + 1))
      else splitFrom spaces path n (pos + 1)

def splitFirstComponent (spaces : SpaceTable) (path : List UInt8) : List UInt8 × List UInt8 :=
  (splitFrom spaces path (path.length + 1) 0).getD (path, [])

def inSpace (spaces : SpaceTable) (space name : List UInt8) :
    Except StorageError (SpaceId × List UInt8) :=
  (findSpaceByName spaces space).map (·, name)

/-- `resolve_path` behind the leading slash. -/
def resolveRelative (spaces : SpaceTable) (path : List UInt8) :
    Except StorageError (SpaceId × List UInt8) :=
  if containsTraversal path then .error .spaceNotFound
  else if startsWith path (Bytes.ascii ['s', 'p', 'a', 'c', 'e', 's', '/']) then
    inSpace spaces (splitFirstComponent spaces (path.drop 7)).1
      (splitFirstComponent spaces (path.drop 7)).2
  else if startsWith path (Bytes.ascii ['h', 'o', 'm', 'e', '/', 'u', 's', 'e', 'r', '/']) then
    inSpace spaces (Bytes.ascii ['u', 's', 'e', 'r', '/', 'h', 'o', 'm', 'e']) (path.drop 10)
  else if startsWith path (Bytes.ascii ['h', 'o', 'm', 'e', '/', 'u', 's', 'e', 'r']) &&
      path.length == 9 then
    inSpace spaces (Bytes.ascii ['u', 's', 'e', 'r', '/', 'h', 'o', 'm', 'e']) []
  else if startsWith path (Bytes.ascii ['t', 'm', 'p', '/']) then
    inSpace spaces (Bytes.ascii ['e', 'p', 'h', 'e', 'm', 'e', 'r', 'a', 'l']) (path.drop 4)
  else if path == Bytes.ascii ['t', 'm', 'p'] then
    inSpace spaces (Bytes.ascii ['e', 'p', 'h', 'e', 'm', 'e', 'r', 'a', 'l']) []
  else .error .spaceNotFound

def resolvePath (spaces : SpaceTable) (path : List UInt8) :
    Except StorageError (SpaceId × List UInt8) :=
  resolveRelative spaces (stripSlash path)

/-! ### The scanners split at the slashes -/

variable {t : SpaceTable} {path l : List UInt8} {start : ℕ}

lemma findIdx_slash (l : List UInt8) :
    (slash ∉ l ∧ l.findIdx? (· == slash) = none) ∨ ∃ seg rest, l = seg ++ slash :: rest ∧
    slash ∉ seg ∧ l.findIdx? (· == slash) = some seg.length := by
  induction l with
  | nil => exact .inl ⟨by simp, rfl⟩
  | cons c l ih =>
    by_cases hc : c = slash
    · refine .inr ⟨[], l, by rw [hc]; rfl, by simp, ?_⟩
      simp [findIdx?_cons, hc]
    · have hbeq : (c == slash) = false := beq_eq_false_iff_ne.mpr hc
      rcases ih with ⟨hno, hidx⟩ | ⟨seg, rest, hl, hno, hidx⟩
      · refine .inl ⟨?_, by simp [findIdx?_cons, hbeq, hidx]⟩
        simp only [mem_cons, not_or]
        exact ⟨Ne.symm hc, hno⟩
      · refine .inr ⟨c :: seg, rest, by rw [hl]; rfl, ?_, ?_⟩
        · simp only [mem_cons, not_or]
          exact ⟨Ne.symm hc, hno⟩
        · simp [findIdx?_cons, hbeq, hidx]

lemma position_cases (path : List UInt8) (start : ℕ) :
    (slash ∉ path.drop start ∧ position path start = none) ∨ ∃ seg rest, path.drop start =
    seg ++ slash :: rest ∧ slash ∉ seg ∧ position path start = some (start + seg.length) := by
  rcases findIdx_slash (path.drop start) with ⟨hno, hidx⟩ | ⟨seg, rest, hl, hno, hidx⟩
  · exact .inl ⟨hno, by rw [position, hidx]; rfl⟩
  · exact .inr ⟨seg, rest, hl, hno, by rw [position, hidx]; rfl⟩

lemma parts {seg rest : List UInt8} (h : path.drop start = seg ++ slash :: rest) :
    path.take (start + seg.length) = path.take start ++ seg ∧
      path.drop (start + seg.length + 1) = rest ∧ start + seg.length < path.length := by
  refine ⟨?_, ?_, ?_⟩
  · rw [take_add, h, take_left' rfl]
  · rw [Nat.add_assoc, ← drop_drop, h, ← drop_drop, drop_left' rfl]
    rfl
  · have := congrArg List.length h
    simp only [length_drop, length_append, length_cons] at this
    omega

lemma traversalFrom_eq (path : List UInt8) {n : ℕ} (hn : path.length - start < n) :
    traversalFrom path n start = ((path.drop start).splitOn slash).any fun c =>
      c == Bytes.ascii ['.'] || c == Bytes.ascii ['.', '.'] := by
  induction n generalizing start with
  | zero => omega
  | succ n ih =>
    unfold traversalFrom
    rcases position_cases path start with ⟨hno, hpos⟩ | ⟨seg, rest, hl, hno, hpos⟩
    · -- the last component
      have htake : (path.drop start).take (path.length - start) = path.drop start :=
        take_of_length_le (by rw [length_drop])
      simp only [hpos, Option.getD_none, htake, le_refl, if_true, splitOn_eq_singleton hno,
        any_cons, any_nil, Bool.or_false]
      split_ifs with hc
      · exact hc.symm
      · simpa using hc
    · obtain ⟨-, hdrop, hlt⟩ := parts hl
      have htake : (path.drop start).take (start + seg.length - start) = seg := by
        rw [hl, Nat.add_sub_cancel_left, take_left' rfl]
      simp only [hpos, Option.getD_some, htake, not_le.mpr hlt, if_false]
      rw [ih (by omega), hdrop, hl, splitOn_append_cons_self_of_not_mem hno, any_cons]
      split_ifs with hc
      · rw [hc, Bool.true_or]
      · rw [Bool.not_eq_true] at hc
        rw [hc, Bool.false_or]

lemma containsTraversal_eq (path : List UInt8) :
    containsTraversal path = Storage.containsTraversal path :=
  traversalFrom_eq path (by omega)

lemma splitSpace_skip (t : SpaceTable) (scanned : List UInt8) {seg : List UInt8}
    (rest : List UInt8) (hseg : slash ∉ seg) :
    splitSpace t scanned (seg ++ rest) = splitSpace t (scanned ++ seg) rest := by
  induction seg generalizing scanned with
  | nil => simp
  | cons c seg ih =>
    simp only [mem_cons, not_or] at hseg
    have hno : ¬ (c = slash ∧ (findByName t scanned).isSome = true) :=
      fun h => hseg.1 h.1.symm
    rw [cons_append, splitSpace, if_neg hno, ih _ hseg.2, append_assoc]
    rfl

lemma splitFrom_eq (t : SpaceTable) (path : List UInt8) {n : ℕ} (hn : path.length - start < n) :
    splitFrom t path n start = splitSpace t (path.take start) (path.drop start) := by
  induction n generalizing start with
  | zero => omega
  | succ n ih =>
    unfold splitFrom
    rcases position_cases path start with ⟨hno, hpos⟩ | ⟨seg, rest, hl, hno, hpos⟩
    · rw [hpos]
      have := splitSpace_skip t (path.take start) [] hno
      rw [append_nil] at this
      rw [this]
      rfl
    · obtain ⟨htake, hdrop, hlt⟩ := parts hl
      rw [hl, splitSpace_skip t _ _ hno, splitSpace]
      simp only [hpos, htake, hdrop, true_and]
      by_cases hfind : (findByName t (path.take start ++ seg)).isSome = true
      · rw [if_pos hfind, if_pos hfind]
      · have hmid : path.take (start + seg.length + 1) = path.take start ++ seg ++ [slash] := by
          rw [Nat.add_assoc, take_add, hl, append_assoc, take_length_add_append]
          rfl
        rw [if_neg hfind, if_neg hfind, ih (by omega), hmid, hdrop]

lemma splitFirstComponent_eq (t : SpaceTable) (path : List UInt8) :
    splitFirstComponent t path = Storage.splitFirstComponent t path := by
  unfold splitFirstComponent Storage.splitFirstComponent
  rw [splitFrom_eq t path (by omega)]
  rfl

lemma startsWith_eq (haystack needle : List UInt8) :
    startsWith haystack needle = needle.isPrefixOf haystack := by
  rw [Bool.eq_iff_iff, isPrefixOf_iff_prefix, prefix_iff_eq_take, startsWith,
    Bool.and_eq_true, decide_eq_true_eq, beq_iff_eq]
  constructor
  · exact fun h => h.2.symm
  · intro h
    refine ⟨?_, h.symm⟩
    have := congrArg List.length h
    rw [length_take] at this
    omega

lemma resolvePath_eq (t : SpaceTable) (path : List UInt8) :
    resolvePath t path = Storage.resolvePath t path := by
  unfold resolvePath resolveRelative Storage.resolvePath splitPath inSpace
  simp only [containsTraversal_eq, startsWith_eq, splitFirstComponent_eq]
  split_ifs <;> rfl

end Scanner

/-! ### What a path names -/

variable {t : SpaceTable} {path r n m n' m' name : List UInt8} {id : SpaceId}

/-- No component of the path is `.` or `..`. -/
def Plain (path : List UInt8) : Prop :=
  ∀ c ∈ path.splitOn slash, c ≠ Bytes.ascii ['.'] ∧ c ≠ Bytes.ascii ['.', '.']

/-- `id` is the first space of the table with the name `n`. -/
def Names (t : SpaceTable) (n : List UInt8) (id : SpaceId) : Prop :=
  ∃ k sp, t k = some sp ∧ sp.name.bytes = n ∧ sp.id = id ∧
    ∀ j < k, ∀ sp', t j = some sp' → sp'.name.bytes ≠ n

/-- `n` ends just before a slash and names a space, and nothing shorter does; `m` is the rest. -/
structure Shortest (t : SpaceTable) (r n m : List UInt8) : Prop where
  split : r = n ++ slash :: m
  names : ∃ id, Names t n id
  first : ∀ n' m', r = n' ++ slash :: m' → n'.length < n.length → ¬ ∃ id, Names t n' id

inductive Resolves (t : SpaceTable) : List UInt8 → SpaceId → List UInt8 → Prop
  | spaceObject {r n m : List UInt8} {id : SpaceId} :
    Shortest t r n m → Names t n id →
      Resolves t (Bytes.ascii ['s', 'p', 'a', 'c', 'e', 's', '/'] ++ r) id m
  | space {r : List UInt8} {id : SpaceId} :
    (∀ n m, ¬ Shortest t r n m) → Names t r id →
      Resolves t (Bytes.ascii ['s', 'p', 'a', 'c', 'e', 's', '/'] ++ r) id []
  | home {id : SpaceId} :
    Names t (Bytes.ascii ['u', 's', 'e', 'r', '/', 'h', 'o', 'm', 'e']) id →
      Resolves t (Bytes.ascii ['h', 'o', 'm', 'e', '/', 'u', 's', 'e', 'r']) id []
  | homeObject {r : List UInt8} {id : SpaceId} :
    Names t (Bytes.ascii ['u', 's', 'e', 'r', '/', 'h', 'o', 'm', 'e']) id →
      Resolves t (Bytes.ascii ['h', 'o', 'm', 'e', '/', 'u', 's', 'e', 'r'] ++ slash :: r) id r
  | tmp {id : SpaceId} :
    Names t (Bytes.ascii ['e', 'p', 'h', 'e', 'm', 'e', 'r', 'a', 'l']) id →
      Resolves t (Bytes.ascii ['t', 'm', 'p']) id []
  | tmpObject {r : List UInt8} {id : SpaceId} :
    Names t (Bytes.ascii ['e', 'p', 'h', 'e', 'm', 'e', 'r', 'a', 'l']) id →
      Resolves t (Bytes.ascii ['t', 'm', 'p'] ++ slash :: r) id r

lemma names_iff_find : Names t n id ↔ ∃ sp, findByName t n = some sp ∧ sp.id = id := by
  have hfind : findByName t n = ((List.finRange maxSpaces).find? fun k =>
      (t k).any (·.name.bytes == n)).bind t := by
    rw [findByName, Slots.items, find?_filterMap]
  constructor
  · rintro ⟨k, sp, hk, hn, hid, hfirst⟩
    refine ⟨sp, ?_, hid⟩
    rw [hfind]
    cases hf : (List.finRange maxSpaces).find? fun k => (t k).any (·.name.bytes == n) with
    | none =>
      have := find?_eq_none.mp hf k (mem_finRange k)
      simp [hk, hn] at this
    | some j =>
      obtain ⟨hj, hbefore⟩ := Slots.find?_finRange hf
      obtain ⟨sp', hsp', hn'⟩ := (Option.any_eq_true _ _).mp hj
      rcases lt_trichotomy j k with hlt | rfl | hlt
      · exact absurd (beq_iff_eq.mp hn') (hfirst j hlt sp' hsp')
      · exact hk
      · have := hbefore k hlt
        simp [hk, hn] at this
  · rintro ⟨sp, hsome, hid⟩
    rw [hfind] at hsome
    obtain ⟨k, hk, hsp⟩ := Option.bind_eq_some_iff.mp hsome
    obtain ⟨hany, hbefore⟩ := Slots.find?_finRange hk
    rw [hsp] at hany
    refine ⟨k, sp, hsp, beq_iff_eq.mp hany, hid, fun j hj sp' hsp' hn => ?_⟩
    have := hbefore j hj
    simp [hsp', hn] at this

lemma names_iff : (∃ id, Names t n id) ↔ (findByName t n).isSome = true := by
  rw [Option.isSome_iff_exists]
  simp only [names_iff_find]
  exact ⟨fun ⟨_, sp, h, _⟩ => ⟨sp, h⟩, fun ⟨sp, h⟩ => ⟨sp.id, sp, h, rfl⟩⟩

lemma findSpaceByName_iff : findSpaceByName t n = .ok id ↔ Names t n id := by
  rw [names_iff_find]
  unfold findSpaceByName
  cases findByName t n with
  | none => simp
  | some sp => simp

lemma containsTraversal_iff : containsTraversal path = false ↔ Plain path := by
  unfold containsTraversal Plain
  simp [any_eq_false]

lemma splitSpace_spec (t : SpaceTable) (scanned rest : List UInt8) :
    (splitSpace t scanned rest = none ∧
        ∀ k m, rest = k ++ slash :: m → ¬ ∃ id, Names t (scanned ++ k) id) ∨
      ∃ k m, splitSpace t scanned rest = some (scanned ++ k, m) ∧ rest = k ++ slash :: m ∧
        (∃ id, Names t (scanned ++ k) id) ∧
        ∀ k' m', rest = k' ++ slash :: m' → k'.length < k.length →
          ¬ ∃ id, Names t (scanned ++ k') id := by
  induction rest generalizing scanned with
  | nil => exact .inl ⟨rfl, fun k m h => by simp at h⟩
  | cons c rest ih =>
    rw [splitSpace]
    by_cases hc : c = slash ∧ (findByName t scanned).isSome = true
    · -- the scan stops here
      refine .inr ⟨[], rest, ?_, ?_, ?_, ?_⟩
      · rw [if_pos hc, append_nil]
      · rw [hc.1, nil_append]
      · rw [append_nil]
        exact names_iff.mpr hc.2
      · intro k' m' _ hlt
        cases hlt
    · -- a prefix of the rest is empty, or goes on with the same byte
      have hcons : ∀ k m, c :: rest = k ++ slash :: m →
          (k = [] ∧ ¬ ∃ id, Names t (scanned ++ k) id) ∨
            ∃ k', k = c :: k' ∧ rest = k' ++ slash :: m := by
        intro k m h
        cases k with
        | nil =>
          rw [nil_append, List.cons.injEq] at h
          refine .inl ⟨rfl, fun hn => hc ⟨h.1, ?_⟩⟩
          rw [append_nil] at hn
          exact names_iff.mp hn
        | cons d k =>
          rw [cons_append, List.cons.injEq] at h
          exact .inr ⟨k, by rw [h.1], h.2⟩
      rw [if_neg hc]
      rcases ih (scanned ++ [c]) with ⟨hnone, hno⟩ | ⟨k, m, hsome, hrest, hnames, hfirst⟩
      · refine .inl ⟨hnone, fun k m h => ?_⟩
        rcases hcons k m h with ⟨-, hno'⟩ | ⟨k', rfl, hk'⟩
        · exact hno'
        · rw [append_cons]
          exact hno k' m hk'
      · refine .inr ⟨c :: k, m, ?_, ?_, ?_, ?_⟩
        · rw [hsome, ← append_cons]
        · rw [hrest, cons_append]
        · rw [append_cons]
          exact hnames
        · intro k' m' h hlt
          rcases hcons k' m' h with ⟨-, hno'⟩ | ⟨k'', rfl, hk''⟩
          · exact hno'
          · rw [append_cons]
            exact hfirst k'' m' hk'' (by simpa using hlt)

lemma splitFirstComponent_spec (t : SpaceTable) (r : List UInt8) :
    (∃ n m, Shortest t r n m ∧ splitFirstComponent t r = (n, m)) ∨
      (∀ n m, ¬ Shortest t r n m) ∧ splitFirstComponent t r = (r, []) := by
  rcases splitSpace_spec t [] r with ⟨hnone, hno⟩ | ⟨k, m, hsome, hrest, hnames, hfirst⟩
  · refine .inr ⟨fun n m h => hno n m h.split h.names, ?_⟩
    unfold splitFirstComponent
    rw [hnone]
    rfl
  · refine .inl ⟨k, m, ⟨hrest, hnames, hfirst⟩, ?_⟩
    unfold splitFirstComponent
    rw [hsome]
    rfl

lemma Shortest.unique (h : Shortest t r n m) (h' : Shortest t r n' m') : n = n' ∧ m = m' := by
  have hle : ¬ n.length < n'.length := fun hlt => h'.first n m h.split hlt h.names
  have hge : ¬ n'.length < n.length := fun hlt => h.first n' m' h'.split hlt h'.names
  have hsplit : n ++ slash :: m = n' ++ slash :: m' := h.split.symm.trans h'.split
  obtain ⟨hn, hm⟩ := append_inj hsplit (by omega)
  exact ⟨hn, (List.cons.inj hm).2⟩

lemma splitFirstComponent_shortest (h : Shortest t r n m) : splitFirstComponent t r = (n, m) := by
  rcases splitFirstComponent_spec t r with ⟨n', m', h', heq⟩ | ⟨hno, -⟩
  · obtain ⟨rfl, rfl⟩ := h.unique h'
    exact heq
  · exact absurd h (hno n m)

lemma splitFirstComponent_whole (h : ∀ n m, ¬ Shortest t r n m) :
    splitFirstComponent t r = (r, []) := by
  rcases splitFirstComponent_spec t r with ⟨n', m', h', -⟩ | ⟨-, heq⟩
  · exact absurd h' (h n' m')
  · exact heq

lemma resolvePath_iff_splitPath : resolvePath t path = .ok (id, name) ↔
    ∃ n, splitPath t (stripSlash path) = .ok (n, name) ∧ Names t n id := by
  unfold resolvePath
  cases hs : splitPath t (stripSlash path) with
  | error er => exact ⟨fun h => (by cases h), fun ⟨n, h, _⟩ => (by cases h)⟩
  | ok p =>
    obtain ⟨n, m⟩ := p
    change (findSpaceByName t n >>= fun id => Except.ok (id, m)) = _ ↔ _
    constructor
    · intro h
      cases hf : findSpaceByName t n with
      | error er => rw [hf] at h; cases h
      | ok id' =>
        rw [hf] at h
        cases h
        exact ⟨n, rfl, findSpaceByName_iff.mp hf⟩
    · rintro ⟨n', h, hnames⟩
      cases h
      rw [findSpaceByName_iff.mpr hnames]
      rfl

lemma drop_spaces (r : List UInt8) :
    (Bytes.ascii ['s', 'p', 'a', 'c', 'e', 's', '/'] ++ r).drop 7 = r :=
  rfl

lemma resolves_of_splitPath (h : splitPath t path = .ok (n, name)) (hn : Names t n id) :
    Plain path ∧ Resolves t path id name := by
  unfold splitPath at h
  by_cases htrav : containsTraversal path = true
  · rw [if_pos htrav] at h
    cases h
  rw [if_neg htrav] at h
  refine ⟨containsTraversal_iff.mp (Bool.eq_false_iff.mpr htrav), ?_⟩
  split_ifs at h with hs hhs hh hts ht
  · -- in the spaces
    obtain ⟨r, rfl⟩ := isPrefixOf_iff_prefix.mp hs
    rw [drop_spaces, Except.ok.injEq] at h
    rcases splitFirstComponent_spec t r with ⟨n', m', hshort, heq⟩ | ⟨hno, heq⟩
    · rw [heq] at h
      cases h
      exact .spaceObject hshort hn
    · rw [heq] at h
      cases h
      exact .space hno hn
  · obtain ⟨r, rfl⟩ := isPrefixOf_iff_prefix.mp hhs
    cases h
    exact .homeObject hn
  · rw [Bool.and_eq_true, beq_iff_eq] at hh
    obtain ⟨r, rfl⟩ := isPrefixOf_iff_prefix.mp hh.1
    have hr : r = [] := by
      have hlen := hh.2
      rw [length_append] at hlen
      exact length_eq_zero_iff.mp (Nat.add_left_cancel (hlen.trans (by rfl)))
    cases h
    rw [hr, append_nil]
    exact .home hn
  · obtain ⟨r, rfl⟩ := isPrefixOf_iff_prefix.mp hts
    cases h
    exact .tmpObject hn
  · cases h
    rw [beq_iff_eq.mp ht]
    exact .tmp hn

lemma splitPath_of_resolves (hplain : Plain path) (h : Resolves t path id name) :
    ∃ n, splitPath t path = .ok (n, name) ∧ Names t n id := by
  have htrav : ¬ containsTraversal path = true := by
    rw [containsTraversal_iff.mpr hplain]
    exact Bool.false_ne_true
  unfold splitPath
  rw [if_neg htrav]
  cases h with
  | spaceObject hshort hn =>
    refine ⟨_, ?_, hn⟩
    rw [if_pos (List.isPrefixOf_iff_prefix.mpr (prefix_append _ _)), drop_spaces,
      splitFirstComponent_shortest hshort]
  | space hno hn =>
    refine ⟨_, ?_, hn⟩
    rw [if_pos (List.isPrefixOf_iff_prefix.mpr (prefix_append _ _)), drop_spaces,
      splitFirstComponent_whole hno]
  | home hn => exact ⟨_, rfl, hn⟩
  | homeObject hn => exact ⟨_, rfl, hn⟩
  | tmp hn => exact ⟨_, rfl, hn⟩
  | tmpObject hn => exact ⟨_, rfl, hn⟩

/-- **The scanners resolve a path to what it names, and to nothing else.** -/
theorem scanner_resolves (t : SpaceTable) (path name : List UInt8) (id : SpaceId) :
    Scanner.resolvePath t path = .ok (id, name) ↔
      Plain (stripSlash path) ∧ Resolves t (stripSlash path) id name := by
  rw [Scanner.resolvePath_eq, resolvePath_iff_splitPath]
  constructor
  · rintro ⟨n, hsplit, hn⟩
    exact resolves_of_splitPath hsplit hn
  · rintro ⟨hplain, h⟩
    exact splitPath_of_resolves hplain h

end Aios.Storage
