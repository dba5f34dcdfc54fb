import Intake.Json.Reader

/-!
# Normal forms

Normalizing a tree sorts every object's members and keeps the last of equal keys.  What this does
to a single key is the bridge between a text, whose members stand in any order and may repeat a
key, and the value it means.

* `Tree.under`: what stands under a key, in the order of the members.
* `Tree.under_normalizeMembers`: in the normal form, the last of it.
* `Tree.normalize_of_canonical`: a canonical tree is its own normal form.
* `Tree.withKeys_normalizeMembers`: members under some keys are normalized apart from the others.
* `Tree.DistinctKeys`: no object repeats a key; then nothing is lost, and the depth stays.
* `Value.ofTree_tree`: a value is what its own content means.
-/

namespace Intake.Json.Tree

/-- What stands under a key, in the order of the members. -/
def under (key : String) (members : List (String × Tree)) : List Tree :=
  members.filterMap fun m => if m.1 = key then some m.2 else none

@[simp] theorem under_nil (key : String) : under key [] = [] := rfl

@[simp] theorem under_cons_self (key : String) (t : Tree) (members : List (String × Tree)) :
    under key ((key, t) :: members) = t :: under key members := by
  simp [under]

@[simp] theorem under_cons_of_ne {key k : String} (h : k ≠ key) (t : Tree)
    (members : List (String × Tree)) : under key ((k, t) :: members) = under key members := by
  simp [under, h]

theorem mem_under {key : String} {t : Tree} {members : List (String × Tree)} :
    t ∈ under key members ↔ (key, t) ∈ members := by
  induction members with
  | nil => simp
  | cons m members ih =>
      obtain ⟨k, u⟩ := m
      by_cases h : k = key
      · subst h; simp [ih]
      · simp [h, ih, Ne.symm h]

theorem under_eq_nil_iff {key : String} {members : List (String × Tree)} :
    under key members = [] ↔ key ∉ members.map Prod.fst := by
  rw [List.eq_nil_iff_forall_not_mem]
  simp only [mem_under, List.mem_map, Prod.exists, exists_and_right, exists_eq_right]
  exact ⟨fun h ⟨t, ht⟩ => h t ht, fun h t ht => h ⟨t, ht⟩⟩

theorem lookup_eq_head?_under (key : String) (members : List (String × Tree)) :
    members.lookup key = (under key members).head? := by
  induction members with
  | nil => rfl
  | cons m members ih =>
      obtain ⟨k, u⟩ := m
      by_cases h : k = key
      · subst h; simp
      · rw [List.lookup_cons, beq_false_of_ne (Ne.symm h), under_cons_of_ne h]
        exact ih

/-! ### Insertion -/

theorem ascendingKeys_cons {k : String} {t : Tree} {members : List (String × Tree)} :
    AscendingKeys ((k, t) :: members) ↔
      (∀ k' ∈ members.map Prod.fst, k < k') ∧ AscendingKeys members :=
  List.pairwise_cons

theorem AscendingKeys.nodup {members : List (String × Tree)} (h : AscendingKeys members) :
    (members.map Prod.fst).Nodup := by
  refine List.Pairwise.imp (fun hlt heq => ?_) h
  subst heq
  exact String.lt_irrefl _ hlt

/-- A key below the first of ascending keys is not among them. -/
theorem under_eq_nil_of_lt {key k : String} {t : Tree} {members : List (String × Tree)}
    (h : AscendingKeys ((k, t) :: members)) (hlt : key < k) :
    under key ((k, t) :: members) = [] := by
  rw [under_eq_nil_iff, List.map_cons, List.mem_cons]
  rintro (rfl | hmem)
  · exact String.lt_irrefl _ hlt
  · exact String.lt_irrefl _ (String.lt_trans hlt ((ascendingKeys_cons.mp h).1 _ hmem))

/-- An inserted member stands under its key, unless one was there; nothing else changes. -/
theorem under_insertMember {key k : String} {t : Tree} {members : List (String × Tree)}
    (h : AscendingKeys members) :
    under k (insertMember key t members) =
      if k = key ∧ under key members = [] then [t] else under k members := by
  fun_induction insertMember key t members with
  | case1 =>
      by_cases hk : k = key
      · subst hk; simp
      · simp [hk, Ne.symm hk]
  | case2 k₀ u members hlt =>
      -- the member goes in front of all others, and its key was not among theirs
      have hnone := under_eq_nil_of_lt h hlt
      by_cases hk : k = key
      · subst hk; simp [hnone]
      · simp only [hk, false_and, if_false]
        exact under_cons_of_ne (Ne.symm hk) t _
  | case3 u members => simp
  | case4 k₀ u members _ hne ih =>
      have ih := ih (ascendingKeys_cons.mp h).2
      rw [under_cons_of_ne (Ne.symm hne)]
      by_cases hk : k₀ = k
      · subst hk
        simp [ih, Ne.symm hne]
      · rw [under_cons_of_ne hk, under_cons_of_ne hk, ih]

/-! ### The last of equal keys -/

/-- **The normal form under a key.**  Of what stands under a key, the last is kept. -/
theorem under_normalizeMembers (key : String) (members : List (String × Tree)) :
    under key (normalizeMembers members) = ((under key members).getLast?.map normalize).toList := by
  induction members with
  | nil => rfl
  | cons m members ih =>
      obtain ⟨k, t⟩ := m
      rw [normalizeMembers, under_insertMember (normalizeMembers_canonical members).1]
      by_cases hk : key = k
      · subst hk
        cases hu : under key members with
        | nil => simp [ih, hu]
        | cons u us => simp [ih, hu, List.getLast?_cons_cons]
      · simp [hk, Ne.symm hk, ih]

theorem under_normalizeMembers_of_singleton {key : String} {t : Tree}
    {members : List (String × Tree)} (h : under key members = [t]) :
    under key (normalizeMembers members) = [t.normalize] := by
  simp [under_normalizeMembers, h]

theorem normalizeMembers_cons_eq_cons (m : String × Tree) (members : List (String × Tree)) :
    ∃ m' members', normalizeMembers (m :: members) = m' :: members' := by
  rw [normalizeMembers]
  fun_cases insertMember m.1 m.2.normalize (normalizeMembers members) with
  | case1 | case2 | case3 | case4 => exact ⟨_, _, rfl⟩

/-! ### Canonical trees -/

theorem insertMember_of_ascending {key : String} {t : Tree} {members : List (String × Tree)}
    (h : AscendingKeys ((key, t) :: members)) :
    insertMember key t members = (key, t) :: members := by
  cases members with
  | nil => rfl
  | cons m members =>
      obtain ⟨k, u⟩ := m
      have hlt : key < k := (ascendingKeys_cons.mp h).1 k List.mem_cons_self
      simp [insertMember, hlt]

mutual

/-- A canonical tree is its own normal form. -/
theorem normalize_of_canonical : ∀ {t : Tree}, t.Canonical → t.normalize = t
  | .null, _ | .boolean _, _ | .number _, _ | .string _, _ => rfl
  | .array _, h => congrArg array (normalizeItems_of_canonical h)
  | .object _, h => congrArg object (normalizeMembers_of_canonical h.1 h.2)

theorem normalizeItems_of_canonical : ∀ {items : List Tree}, CanonicalItems items →
    normalizeItems items = items
  | [], _ => rfl
  | _ :: _, h => by
      rw [normalizeItems, normalize_of_canonical h.1, normalizeItems_of_canonical h.2]

theorem normalizeMembers_of_canonical : ∀ {members : List (String × Tree)},
    AscendingKeys members → CanonicalMembers members → normalizeMembers members = members
  | [], _, _ => rfl
  | (_, _) :: _, ha, h => by
      rw [normalizeMembers, normalize_of_canonical h.1,
        normalizeMembers_of_canonical (ascendingKeys_cons.mp ha).2 h.2,
        insertMember_of_ascending ha]

end

theorem canonicalMembers_iff {members : List (String × Tree)} :
    CanonicalMembers members ↔ ∀ m ∈ members, m.2.Canonical := by
  induction members with
  | nil => simp [CanonicalMembers]
  | cons m members ih => rw [CanonicalMembers, ih, List.forall_mem_cons]

@[simp] theorem normalize_normalize (t : Tree) : t.normalize.normalize = t.normalize :=
  normalize_of_canonical t.normalize_canonical

theorem normalizeItems_eq_map (items : List Tree) : normalizeItems items = items.map normalize := by
  induction items with
  | nil => rfl
  | cons t items ih => rw [normalizeItems, ih, List.map_cons]

/-! ### Members under some of the keys -/

section
variable (p : String → Bool) {members : List (String × Tree)}

/-- The members under some of the keys. -/
def withKeys (members : List (String × Tree)) : List (String × Tree) :=
  members.filter fun m => p m.1

theorem withKeys_cons (key : String) (t : Tree) (members : List (String × Tree)) :
    withKeys p ((key, t) :: members) =
      if p key then (key, t) :: withKeys p members else withKeys p members :=
  List.filter_cons

theorem AscendingKeys.withKeys (h : AscendingKeys members) :
    AscendingKeys (withKeys p members) :=
  List.Pairwise.sublist (List.filter_sublist.map Prod.fst) h

theorem withKeys_insertMember {key : String} {t : Tree} (h : AscendingKeys members) :
    withKeys p (insertMember key t members) =
      if p key then insertMember key t (withKeys p members) else withKeys p members := by
  fun_induction insertMember key t members with
  | case1 => exact withKeys_cons p key t []
  | case2 k u members hlt =>
      -- the member goes in front of all others, and of those that are kept
      have hfront : AscendingKeys (insertMember key t ((k, u) :: members)) :=
        ascendingKeys_insertMember h
      rw [insertMember, if_pos hlt] at hfront
      rw [withKeys_cons]
      split
      next hp =>
        have hkept := hfront.withKeys p
        rw [withKeys_cons, if_pos hp] at hkept
        rw [insertMember_of_ascending hkept]
      next => rfl
  | case3 u members hlt =>
      rw [withKeys_cons]
      split
      next => simp [insertMember]
      next => rfl
  | case4 k u members hlt hne ih =>
      rw [withKeys_cons, withKeys_cons, ih (ascendingKeys_cons.mp h).2]
      split
      next =>
        split
        next => simp [insertMember, hlt, hne]
        next => rfl
      next => rfl

/-- The normal form of some of the members is made of some of the members. -/
theorem withKeys_normalizeMembers (members : List (String × Tree)) :
    withKeys p (normalizeMembers members) = normalizeMembers (withKeys p members) := by
  induction members with
  | nil => rfl
  | cons m members ih =>
      obtain ⟨key, t⟩ := m
      rw [normalizeMembers, withKeys_insertMember p (normalizeMembers_canonical members).1, ih,
        withKeys_cons]
      split
      next => rfl
      next => rfl

end

/-! ### Scalars -/

/-- The tree is neither an array nor an object. -/
def IsScalar : Tree → Prop
  | array _ | object _ => False
  | _ => True

theorem normalize_of_isScalar : ∀ {t : Tree}, t.IsScalar → t.normalize = t
  | .null, _ | .boolean _, _ | .number _, _ | .string _, _ => rfl

theorem isScalar_of_normalize : ∀ {t : Tree}, t.normalize.IsScalar → t.IsScalar
  | .null, _ | .boolean _, _ | .number _, _ | .string _, _ => trivial

/-! ### Trees that repeat no key -/

mutual

/-- No object in the tree has two members under one key. -/
def DistinctKeys : Tree → Prop
  | array items => DistinctKeysItems items
  | object members => (members.map Prod.fst).Nodup ∧ DistinctKeysMembers members
  | _ => True

/-- No tree of a list has an object that repeats a key. -/
def DistinctKeysItems : List Tree → Prop
  | [] => True
  | t :: items => t.DistinctKeys ∧ DistinctKeysItems items

/-- No member's tree has an object that repeats a key. -/
def DistinctKeysMembers : List (String × Tree) → Prop
  | [] => True
  | (_, t) :: members => t.DistinctKeys ∧ DistinctKeysMembers members

end

mutual

theorem Canonical.distinctKeys : ∀ {t : Tree}, t.Canonical → t.DistinctKeys
  | .null, _ | .boolean _, _ | .number _, _ | .string _, _ => trivial
  | .array _, h => CanonicalItems.distinctKeys h
  | .object _, h => ⟨h.1.nodup, CanonicalMembers.distinctKeys h.2⟩

theorem CanonicalItems.distinctKeys : ∀ {items : List Tree}, CanonicalItems items →
    DistinctKeysItems items
  | [], _ => trivial
  | _ :: _, h => ⟨Canonical.distinctKeys h.1, CanonicalItems.distinctKeys h.2⟩

theorem CanonicalMembers.distinctKeys : ∀ {members : List (String × Tree)},
    CanonicalMembers members → DistinctKeysMembers members
  | [], _ => trivial
  | (_, _) :: _, h => ⟨Canonical.distinctKeys h.1, CanonicalMembers.distinctKeys h.2⟩

end

theorem distinctKeysMembers_iff {members : List (String × Tree)} :
    DistinctKeysMembers members ↔ ∀ m ∈ members, m.2.DistinctKeys := by
  induction members with
  | nil => simp [DistinctKeysMembers]
  | cons m members ih => rw [DistinctKeysMembers, ih, List.forall_mem_cons]

theorem DistinctKeysMembers.of_mem {key : String} {t : Tree} {members : List (String × Tree)}
    (h : DistinctKeysMembers members) (ht : t ∈ under key members) : t.DistinctKeys :=
  distinctKeysMembers_iff.mp h (key, t) (mem_under.mp ht)

theorem under_of_nodup {members : List (String × Tree)} (h : (members.map Prod.fst).Nodup)
    (key : String) : under key members = [] ∨ ∃ t, under key members = [t] := by
  induction members with
  | nil => exact Or.inl rfl
  | cons m members ih =>
      obtain ⟨k, t⟩ := m
      obtain ⟨hmem, h⟩ := List.nodup_cons.mp h
      by_cases hk : k = key
      · subst hk
        exact Or.inr ⟨t, by rw [under_cons_self, under_eq_nil_iff.mpr hmem]⟩
      · rw [under_cons_of_ne hk]
        exact ih h

/-- Where no key is repeated, what stands under a key of the normal form is what stood there. -/
theorem under_normalizeMembers_of_nodup {members : List (String × Tree)}
    (h : (members.map Prod.fst).Nodup) (key : String) :
    under key (normalizeMembers members) = (under key members).map normalize := by
  rw [under_normalizeMembers]
  rcases under_of_nodup h key with hn | ⟨t, ht⟩
  · rw [hn]; rfl
  · rw [ht]; rfl

theorem under_of_normalizeMembers {members : List (String × Tree)}
    (h : (members.map Prod.fst).Nodup) {key : String} {u : Tree}
    (hu : under key (normalizeMembers members) = [u]) :
    ∃ t, under key members = [t] ∧ t.normalize = u := by
  rw [under_normalizeMembers_of_nodup h] at hu
  exact List.map_eq_singleton_iff.mp hu

theorem notMem_keys_normalizeMembers {key : String} {members : List (String × Tree)} :
    key ∉ (normalizeMembers members).map Prod.fst ↔ key ∉ members.map Prod.fst := by
  rw [← under_eq_nil_iff, ← under_eq_nil_iff, under_normalizeMembers]
  cases h : under key members with
  | nil => simp
  | cons t ts => simp [List.getLast?_eq_some_getLast]

theorem depthMembers_insertMember {key : String} {t : Tree} {members : List (String × Tree)}
    (h : key ∉ members.map Prod.fst) :
    depthMembers (insertMember key t members) = max t.depth (depthMembers members) := by
  fun_induction insertMember key t members with
  | case1 => rfl
  | case2 => rfl
  | case3 => exact absurd List.mem_cons_self h
  | case4 k u members _ _ ih =>
      rw [depthMembers, ih fun hmem => h (List.mem_cons_of_mem _ hmem), depthMembers,
        Nat.max_left_comm]

mutual

/-- Where no key is repeated, the normal form is as deep as the tree. -/
theorem depth_normalize : ∀ {t : Tree}, t.DistinctKeys → t.normalize.depth = t.depth
  | .null, _ | .boolean _, _ | .number _, _ | .string _, _ => rfl
  | .array _, h => congrArg (· + 1) (depthItems_normalizeItems h)
  | .object _, h => congrArg (· + 1) (depthMembers_normalizeMembers h.1 h.2)

theorem depthItems_normalizeItems : ∀ {items : List Tree}, DistinctKeysItems items →
    depthItems (normalizeItems items) = depthItems items
  | [], _ => rfl
  | _ :: _, h => by
      rw [normalizeItems, depthItems, depth_normalize h.1, depthItems_normalizeItems h.2,
        depthItems]

theorem depthMembers_normalizeMembers : ∀ {members : List (String × Tree)},
    (members.map Prod.fst).Nodup → DistinctKeysMembers members →
    depthMembers (normalizeMembers members) = depthMembers members
  | [], _, _ => rfl
  | (key, t) :: members, hn, h => by
      obtain ⟨hmem, hn⟩ := List.nodup_cons.mp hn
      rw [normalizeMembers, depthMembers_insertMember (notMem_keys_normalizeMembers.mpr hmem),
        depth_normalize h.1, depthMembers_normalizeMembers hn h.2, depthMembers]

end

end Intake.Json.Tree

namespace Intake.Json.Value

/-- A value is what its own content means. -/
@[simp] theorem ofTree_tree (v : Value) : ofTree v.tree = v :=
  Value.ext (Tree.normalize_of_canonical v.canonical)

@[simp] theorem ofTree_normalize (t : Tree) : ofTree t.normalize = ofTree t :=
  Value.ext (Tree.normalize_normalize t)

end Intake.Json.Value
