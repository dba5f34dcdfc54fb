import Intake.Proofs.Json.Reordering
import Mathlib.Data.List.Nodup

/-!
# The members of a value

An untyped value that is an object holds one tree under a key at most, and nothing of it depends on
the order of its members.  So it is known from its members in any order (`IsObjectOf.unique`), and
from those under some of the keys a value can be made again (`restrict`).

* `Value.member?_eq_some_iff`: what a value's object holds under a key.
* `Value.IsObjectOf`: an object of given members and no others.
* `Value.restrict`: an object's members under given keys.
* `Value.restrict_eq_self_iff`: nothing is dropped if there are no other keys.
-/

namespace Intake.Json.Value
open Intake.Json.Tree (under AscendingKeys withKeys)

/-! ### One tree under a key -/

/-- The objects of a value hold one tree under a key at most. -/
theorem under_of_tree_eq {v : Value} {members : List (String × Tree)}
    (h : v.tree = .object members) (key : String) :
    under key members = [] ∨ ∃ t, under key members = [t] := by
  have hc := v.canonical
  rw [h] at hc
  exact Tree.under_of_nodup hc.1.nodup key

theorem member?_of_tree_eq {v : Value} {members : List (String × Tree)}
    (h : v.tree = .object members) (key : String) :
    v.member? key = (under key members).head? := by
  rw [member?, h]
  exact Tree.lookup_eq_head?_under key members

theorem toList_member? {v : Value} {members : List (String × Tree)}
    (h : v.tree = .object members) (key : String) :
    (v.member? key).toList = under key members := by
  rw [member?_of_tree_eq h]
  rcases under_of_tree_eq h key with hnil | ⟨t, ht⟩
  · rw [hnil]
    rfl
  · rw [ht]
    rfl

theorem member?_eq_some_iff {v : Value} {key : String} {t : Tree} :
    v.member? key = some t ↔ ∃ members, v.tree = .object members ∧ under key members = [t] := by
  constructor
  · intro h
    cases hv : v.tree with
    | object members =>
        rw [member?_of_tree_eq hv] at h
        rcases under_of_tree_eq hv key with hnil | ⟨u, hu⟩
        · rw [hnil] at h; cases h
        · rw [hu] at h; cases h
          exact ⟨members, rfl, hu⟩
    | null | boolean _ | number _ | string _ | array _ =>
        rw [member?, hv] at h; cases h
  · rintro ⟨members, hv, ht⟩
    rw [member?_of_tree_eq hv, ht]
    rfl

/-- The value of an object holds the normal form of what the object holds. -/
theorem member?_ofTree {key : String} {t : Tree} {members : List (String × Tree)}
    (h : under key members = [t]) : (ofTree (.object members)).member? key = some t.normalize :=
  member?_eq_some_iff.mpr ⟨_, rfl, Tree.under_normalizeMembers_of_singleton h⟩

/-- What a value holds under a key is itself a value. -/
theorem exists_value_of_member? {v : Value} {key : String} {t : Tree}
    (h : v.member? key = some t) : ∃ w : Value, w.tree = t := by
  obtain ⟨members, hv, ht⟩ := member?_eq_some_iff.mp h
  have hc := v.canonical
  rw [hv] at hc
  have hmem : (key, t) ∈ members := Tree.mem_under.mp (ht ▸ List.mem_singleton_self t)
  exact ⟨⟨t, Tree.canonicalMembers_iff.mp hc.2 _ hmem⟩, rfl⟩

/-! ### All members -/

/-- The keys of an object. -/
def keys (v : Value) : List String :=
  match v.tree with
  | .object members => members.map Prod.fst
  | _ => []

/-- The value is an object of these members and no others, in whatever order. -/
def IsObjectOf (v : Value) (members : List (String × Tree)) : Prop :=
  ∃ ms, v.tree = .object ms ∧ ms.Perm members

theorem keys_of_tree_eq {v : Value} {members : List (String × Tree)}
    (h : v.tree = .object members) : v.keys = members.map Prod.fst := by
  rw [keys, h]

theorem ascendingKeys_of_tree_eq {v : Value} {members : List (String × Tree)}
    (h : v.tree = .object members) : AscendingKeys members := by
  have hc := v.canonical
  rw [h] at hc
  exact hc.1

section
variable {v w : Value} {members : List (String × Tree)}

theorem IsObjectOf.keys_perm (h : v.IsObjectOf members) : v.keys.Perm (members.map Prod.fst) := by
  obtain ⟨ms, hv, hp⟩ := h
  rw [keys_of_tree_eq hv]
  exact hp.map Prod.fst

/-- There is one value with given members. -/
theorem IsObjectOf.unique (hv : v.IsObjectOf members) (hw : w.IsObjectOf members) : v = w := by
  obtain ⟨ms, hms, hp⟩ := hv
  obtain ⟨ns, hns, hq⟩ := hw
  have ha := List.pairwise_map.mp (ascendingKeys_of_tree_eq hms)
  have hb := List.pairwise_map.mp (ascendingKeys_of_tree_eq hns)
  -- two lists of the same members in ascending order
  have heq : ms = ns := (hp.trans hq.symm).eq_of_pairwise
    (fun a b _ _ hab hba => absurd (String.lt_trans hab hba) (String.lt_irrefl _)) ha hb
  exact Value.ext (hms.trans (heq ▸ hns.symm))

/-- The value of an object that repeats no key has the members of the object. -/
theorem isObjectOf_ofTree (hn : (members.map Prod.fst).Nodup)
    (hc : Tree.CanonicalMembers members) : (ofTree (.object members)).IsObjectOf members := by
  have hforms : Tree.normalForms members = members := by
    refine (List.map_congr_left fun m hm => ?_).trans (List.map_id members)
    exact Prod.ext rfl (Tree.normalize_of_canonical (Tree.canonicalMembers_iff.mp hc m hm))
  exact ⟨_, rfl, (Tree.normalizeMembers_perm hn).trans (.of_eq hforms)⟩

end

/-! ### Some of the members -/

/-- The object's members under some keys; any other value stays as it is. -/
def restrict (v : Value) (keys : List String) : Value :=
  match v.tree with
  | .object members => ofTree (.object (withKeys (keys.contains ·) members))
  | _ => v

section
variable {v : Value} {members : List (String × Tree)} (h : v.tree = .object members)
include h

theorem tree_restrict (keys : List String) :
    (v.restrict keys).tree = .object (withKeys (keys.contains ·) members) := by
  have hc := v.canonical
  rw [h] at hc
  have hkept : Tree.CanonicalMembers (withKeys (keys.contains ·) members) :=
    Tree.canonicalMembers_iff.mpr fun m hm =>
      Tree.canonicalMembers_iff.mp hc.2 m (List.mem_filter.mp hm).1
  rw [restrict, h]
  exact Tree.normalize_of_canonical ⟨hc.1.withKeys _, hkept⟩

/-- Nothing is dropped from an object without other keys. -/
theorem restrict_eq_self_iff {keys : List String} :
    v.restrict keys = v ↔ ∀ key ∈ v.keys, key ∈ keys := by
  rw [Value.ext_iff, tree_restrict h, h, Tree.object.injEq, withKeys, List.filter_eq_self,
    keys_of_tree_eq h, List.forall_mem_map]
  simp only [List.contains_iff_mem]

end

/-- Of the members of an object, two are kept. -/
theorem isObjectOf_restrict {v : Value} {key key' : String} {t t' : Tree} (hne : key ≠ key')
    (ht : v.member? key = some t) (ht' : v.member? key' = some t') :
    (v.restrict [key, key']).IsObjectOf [(key, t), (key', t')] := by
  obtain ⟨members, hv, hu⟩ := member?_eq_some_iff.mp ht
  have hu' : under key' members = [t'] := by rw [← toList_member? hv, ht']; rfl
  have hnodup : members.Nodup :=
    List.Nodup.of_map Prod.fst (ascendingKeys_of_tree_eq hv).nodup
  refine ⟨_, tree_restrict hv _, ?_⟩
  rw [withKeys, List.perm_ext_iff_of_nodup (hnodup.filter _) (by simp [hne])]
  rintro ⟨k, u⟩
  -- a member under one of the two keys is what stands under it
  rw [List.mem_filter, List.contains_iff_mem, ← Tree.mem_under]
  constructor
  · rintro ⟨hmem, hk⟩
    rcases List.mem_pair.mp hk with rfl | rfl
    · rw [hu, List.mem_singleton] at hmem
      simp [hmem]
    · rw [hu', List.mem_singleton] at hmem
      simp [hmem]
  · intro hmem
    rcases List.mem_pair.mp hmem with hmem | hmem
    · cases hmem
      simp [hu]
    · cases hmem
      simp [hu']

end Intake.Json.Value
