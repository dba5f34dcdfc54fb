import Intake.Proofs.Json.Normal

/-!
# The order of members

Two trees that differ in the order of members, at any depth, mean the same value as long as no
object repeats a key.  Where one is repeated, the order tells which of the trees under it is kept.

* `Tree.normalizeMembers_perm`: without repeated keys, the normal form only sorts.
* `Tree.Reordered`: members exchanged at any depth.
* `Tree.Reordered.normalize_eq`: reordered trees have the same normal form.
-/

namespace Intake.Json.Tree

theorem insertMember_perm {key : String} {t : Tree} {members : List (String × Tree)}
    (h : key ∉ members.map Prod.fst) :
    (insertMember key t members).Perm ((key, t) :: members) := by
  fun_induction insertMember key t members with
  | case1 => exact .refl _
  | case2 => exact .refl _
  | case3 => exact absurd List.mem_cons_self h
  | case4 k u members _ _ ih =>
      exact ((ih fun hmem => h (List.mem_cons_of_mem _ hmem)).cons _).trans (.swap ..)

/-- The normal forms of members, in the order of the members. -/
def normalForms (members : List (String × Tree)) : List (String × Tree) :=
  members.map fun m => (m.1, m.2.normalize)

/-- Where no key is repeated, the normal form only sorts. -/
theorem normalizeMembers_perm {members : List (String × Tree)}
    (h : (members.map Prod.fst).Nodup) :
    (normalizeMembers members).Perm (normalForms members) := by
  induction members with
  | nil => exact .refl _
  | cons m members ih =>
      obtain ⟨hmem, h⟩ := List.nodup_cons.mp h
      exact (insertMember_perm (notMem_keys_normalizeMembers.mpr hmem)).trans ((ih h).cons _)

/-- Members with the same normal forms in any order have the same normal form together. -/
theorem normalizeMembers_eq_of_perm {ms ns : List (String × Tree)}
    (hm : (ms.map Prod.fst).Nodup) (hn : (ns.map Prod.fst).Nodup)
    (h : (normalForms ms).Perm (normalForms ns)) : normalizeMembers ms = normalizeMembers ns := by
  have hp := ((normalizeMembers_perm hm).trans h).trans (normalizeMembers_perm hn).symm
  have hms := List.pairwise_map.mp (normalizeMembers_canonical ms).1
  have hns := List.pairwise_map.mp (normalizeMembers_canonical ns).1
  refine hp.eq_of_pairwise (fun a b _ _ hab hba => ?_) hms hns
  exact absurd (String.lt_trans hab hba) (String.lt_irrefl _)

/-- The trees differ in the order of members, at any depth. -/
inductive Reordered : Tree → Tree → Prop where
  | refl (t : Tree) : Reordered t t
  | trans {t u v : Tree} (h₁ : Reordered t u) (h₂ : Reordered u v) : Reordered t v
  | members {ms ns : List (String × Tree)} (h : ms.Perm ns) : Reordered (.object ms) (.object ns)
  | inArray {t u : Tree} (before after : List Tree) (h : Reordered t u) :
      Reordered (.array (before ++ t :: after)) (.array (before ++ u :: after))
  | inObject {t u : Tree} (before after : List (String × Tree)) (key : String)
      (h : Reordered t u) :
      Reordered (.object (before ++ (key, t) :: after)) (.object (before ++ (key, u) :: after))

theorem distinctKeysItems_iff {items : List Tree} :
    DistinctKeysItems items ↔ ∀ t ∈ items, t.DistinctKeys := by
  induction items with
  | nil => simp [DistinctKeysItems]
  | cons t items ih => rw [DistinctKeysItems, ih, List.forall_mem_cons]

/-- **The order of members carries nothing** where no key is repeated. -/
theorem Reordered.normalize_eq {t u : Tree} (h : Reordered t u) (hd : t.DistinctKeys) :
    u.DistinctKeys ∧ t.normalize = u.normalize := by
  induction h with
  | refl t => exact ⟨hd, rfl⟩
  | trans _ _ ih₁ ih₂ =>
      obtain ⟨hu, h₁⟩ := ih₁ hd
      obtain ⟨hv, h₂⟩ := ih₂ hu
      exact ⟨hv, h₁.trans h₂⟩
  | members h =>
      have hn := ((h.map Prod.fst).nodup_iff).mp hd.1
      refine ⟨⟨hn, ?_⟩, congrArg object (normalizeMembers_eq_of_perm hd.1 hn (h.map _))⟩
      exact distinctKeysMembers_iff.mpr fun m hm =>
        distinctKeysMembers_iff.mp hd.2 m (h.mem_iff.mpr hm)
  | inArray before after h ih =>
      have hall := distinctKeysItems_iff.mp hd
      rw [List.forall_mem_append, List.forall_mem_cons] at hall
      obtain ⟨hbefore, ht, hafter⟩ := hall
      obtain ⟨hu, heq⟩ := ih ht
      constructor
      · refine distinctKeysItems_iff.mpr ?_
        rw [List.forall_mem_append, List.forall_mem_cons]
        exact ⟨hbefore, hu, hafter⟩
      · simp only [normalize, normalizeItems_eq_map, List.map_append, List.map_cons, heq]
  | @inObject t u before after key h ih =>
      have hall := distinctKeysMembers_iff.mp hd.2
      rw [List.forall_mem_append, List.forall_mem_cons] at hall
      obtain ⟨hbefore, ht, hafter⟩ := hall
      obtain ⟨hu, heq⟩ := ih ht
      have hn : ((before ++ (key, u) :: after).map Prod.fst).Nodup := by
        rw [List.map_append, List.map_cons]
        rw [DistinctKeys, List.map_append, List.map_cons] at hd
        exact hd.1
      constructor
      · refine ⟨hn, distinctKeysMembers_iff.mpr ?_⟩
        rw [List.forall_mem_append, List.forall_mem_cons]
        exact ⟨hbefore, hu, hafter⟩
      · refine congrArg object (normalizeMembers_eq_of_perm hd.1 hn ?_)
        simp [normalForms, heq]

end Intake.Json.Tree
