import Intake.Json.StringLiteral

/-!
# Trees

The content of a JSON text with nothing forgotten: the members of an object stand in the order in
which they were written, and a key may occur more than once.

* `Tree.normalize`: members sorted by key, the last of equal keys kept.
* `Tree.Canonical`: every object has strictly ascending keys.
* `Tree.normalize_canonical`: normalized trees are canonical.
* `Tree.depth`: how deep arrays and objects are nested.
* `Tree.agrees`: equality of trees, in which doubles are compared as numbers.
* `Tree.text`: the compact text of a tree, its members in the order of the tree.
-/

namespace Intake.Json

/-- The content of a JSON text. -/
inductive Tree where
  | null
  | boolean (b : Bool)
  | number (n : Number)
  | string (s : String)
  | array (items : List Tree)
  | object (members : List (String × Tree))

namespace Tree

/-! ### Normal form -/

/-- Inserts a member in front of the first greater key.  A member that is already there under the
same key stays. -/
def insertMember (key : String) (t : Tree) : List (String × Tree) → List (String × Tree)
  | [] => [(key, t)]
  | (k, u) :: members =>
    if key < k then (key, t) :: (k, u) :: members
    else if key = k then (k, u) :: members
    else (k, u) :: insertMember key t members

mutual

/-- The same content with every object's members sorted by key, the last of equal keys kept. -/
def normalize : Tree → Tree
  | array items => array (normalizeItems items)
  | object members => object (normalizeMembers members)
  | t => t

/-- The normal forms of a list of trees. -/
def normalizeItems : List Tree → List Tree
  | [] => []
  | t :: items => t.normalize :: normalizeItems items

/-- The members in ascending order of their keys.  Members are inserted from the last to the first,
so that of equal keys the last one stays. -/
def normalizeMembers : List (String × Tree) → List (String × Tree)
  | [] => []
  | (key, t) :: members => insertMember key t.normalize (normalizeMembers members)

end

/-- Keys in strictly ascending order. -/
def AscendingKeys (members : List (String × Tree)) : Prop :=
  (members.map Prod.fst).Pairwise (· < ·)

mutual

/-- Every object in the tree has strictly ascending keys. -/
def Canonical : Tree → Prop
  | array items => CanonicalItems items
  | object members => AscendingKeys members ∧ CanonicalMembers members
  | _ => True

/-- Every tree of a list is canonical. -/
def CanonicalItems : List Tree → Prop
  | [] => True
  | t :: items => t.Canonical ∧ CanonicalItems items

/-- Every member's tree is canonical. -/
def CanonicalMembers : List (String × Tree) → Prop
  | [] => True
  | (_, t) :: members => t.Canonical ∧ CanonicalMembers members

end

/-! ### Normalized trees are canonical -/

theorem mem_keys_insertMember {key k : String} {t : Tree} {members : List (String × Tree)}
    (h : k ∈ (insertMember key t members).map Prod.fst) :
    k = key ∨ k ∈ members.map Prod.fst := by
  fun_induction insertMember key t members with
  | case1 => simpa using h
  | case2 => simpa using h
  | case3 => exact Or.inr h
  | case4 _ _ _ _ _ ih =>
    rcases List.mem_cons.mp h with rfl | h
    · exact Or.inr List.mem_cons_self
    · rcases ih h with rfl | h
      · exact Or.inl rfl
      · exact Or.inr (List.mem_cons_of_mem _ h)

theorem ascendingKeys_insertMember {key : String} {t : Tree} {members : List (String × Tree)}
    (h : AscendingKeys members) : AscendingKeys (insertMember key t members) := by
  fun_induction insertMember key t members with
  | case1 => exact List.pairwise_singleton ..
  | case2 k u members lt =>
    refine List.pairwise_cons.mpr ⟨fun k' hk' => ?_, h⟩
    rcases List.mem_cons.mp hk' with rfl | hk'
    · exact lt
    · exact String.lt_trans lt ((List.pairwise_cons.mp h).1 k' hk')
  | case3 => exact h
  | case4 k u members nlt ne ih =>
    have ⟨below, h⟩ := List.pairwise_cons.mp h
    refine List.pairwise_cons.mpr ⟨fun k' hk' => ?_, ih h⟩
    rcases mem_keys_insertMember hk' with rfl | hk'
    · exact Classical.byContradiction fun nlt' =>
        ne (String.le_antisymm (String.not_lt.mp nlt') (String.not_lt.mp nlt))
    · exact below k' hk'

theorem canonicalMembers_insertMember {key : String} {t : Tree} {members : List (String × Tree)}
    (ht : t.Canonical) (h : CanonicalMembers members) :
    CanonicalMembers (insertMember key t members) := by
  fun_induction insertMember key t members with
  | case1 => exact ⟨ht, trivial⟩
  | case2 => exact ⟨ht, h⟩
  | case3 => exact h
  | case4 _ _ _ _ _ ih => exact ⟨h.1, ih h.2⟩

mutual

/-- Normalized trees are canonical. -/
theorem normalize_canonical : ∀ t : Tree, t.normalize.Canonical
  | null | boolean _ | number _ | string _ => trivial
  | array items => normalizeItems_canonical items
  | object members => normalizeMembers_canonical members

theorem normalizeItems_canonical : ∀ items : List Tree, CanonicalItems (normalizeItems items)
  | [] => trivial
  | t :: items => ⟨normalize_canonical t, normalizeItems_canonical items⟩

theorem normalizeMembers_canonical : ∀ members : List (String × Tree),
    AscendingKeys (normalizeMembers members) ∧ CanonicalMembers (normalizeMembers members)
  | [] => ⟨List.Pairwise.nil, trivial⟩
  | (_, t) :: members =>
    have h := normalizeMembers_canonical members
    ⟨ascendingKeys_insertMember h.1, canonicalMembers_insertMember (normalize_canonical t) h.2⟩

end

/-! ### Measures and comparison -/

mutual

/-- How deep arrays and objects are nested; a tree without any has depth zero. -/
def depth : Tree → Nat
  | array items => depthItems items + 1
  | object members => depthMembers members + 1
  | _ => 0

/-- The greatest depth in a list of trees. -/
def depthItems : List Tree → Nat
  | [] => 0
  | t :: items => max t.depth (depthItems items)

/-- The greatest depth among members. -/
def depthMembers : List (String × Tree) → Nat
  | [] => 0
  | (_, t) :: members => max t.depth (depthMembers members)

end

mutual

/-- Equality of trees, in which doubles are compared as numbers. -/
def agrees : Tree → Tree → Bool
  | null, null => true
  | boolean a, boolean b => a == b
  | number m, number n => m.agrees n
  | string s, string s' => s == s'
  | array ts, array us => agreesItems ts us
  | object ms, object ns => agreesMembers ms ns
  | _, _ => false

/-- Equality of lists of trees. -/
def agreesItems : List Tree → List Tree → Bool
  | [], [] => true
  | t :: ts, u :: us => t.agrees u && agreesItems ts us
  | _, _ => false

/-- Equality of members in order. -/
def agreesMembers : List (String × Tree) → List (String × Tree) → Bool
  | [], [] => true
  | (k, t) :: ms, (l, u) :: ns => k == l && t.agrees u && agreesMembers ms ns
  | _, _ => false

end

/-! ### Printed trees -/

/-- A word of the format. -/
def word : Bool → List Char
  | true => ['t', 'r', 'u', 'e']
  | false => ['f', 'a', 'l', 's', 'e']

/-- A key and the colon after it. -/
def printKey (key : String) : List Char := StringLiteral.write key ++ [':']

mutual

/-- The characters of a tree's text. -/
def print : Tree → List Char
  | null => ['n', 'u', 'l', 'l']
  | boolean b => word b
  | number n => n.text
  | string s => StringLiteral.write s
  | array [] => ['[', ']']
  | array (t :: items) => '[' :: (t.print ++ printItems items)
  | object [] => ['{', '}']
  | object ((key, t) :: members) => '{' :: (printKey key ++ t.print ++ printMembers members)

/-- The items after the first one, each behind a comma, and the closing bracket. -/
def printItems : List Tree → List Char
  | [] => [']']
  | t :: items => ',' :: (t.print ++ printItems items)

/-- The members after the first one, each behind a comma, and the closing brace. -/
def printMembers : List (String × Tree) → List Char
  | [] => ['}']
  | (key, t) :: members => ',' :: (printKey key ++ t.print ++ printMembers members)

end

/-- The compact text of a tree. -/
def text (t : Tree) : String := String.ofList t.print

end Tree
end Intake.Json
