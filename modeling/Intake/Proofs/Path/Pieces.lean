import Intake.FileTree

/-!
# Pieces and names

Cutting a path at its slashes and putting slashes before its names undo each other.  A name is a
piece that stands for going down: it is not empty and no dot or double dot.

* `IsName`: the pieces that are names.
* `pieces_append_slash`: a slash cuts.
* `pieces_path`, `components_path`: the path of a position is cut into the names of the position.
* `flatMap_slash_pieces`: the pieces of a path, each behind a slash, are the path behind a slash.
-/

namespace Intake.Path

/-! ### Cutting -/

theorem pieces_ne_nil (p : Path) : pieces p ≠ [] := by
  cases p with
  | nil => exact List.cons_ne_nil _ _
  | cons octet p =>
      rw [pieces]
      split
      · exact List.cons_ne_nil _ _
      · split <;> exact List.cons_ne_nil _ _

theorem pieces_slash_cons (p : Path) : pieces (slash :: p) = [] :: pieces p := by
  rw [pieces, if_pos rfl]

/-- An octet that is no slash belongs to the first piece. -/
theorem pieces_cons {octet : UInt8} (h : octet ≠ slash) {p piece : Path} {more : List Path}
    (hp : pieces p = piece :: more) : pieces (octet :: p) = (octet :: piece) :: more := by
  rw [pieces, if_neg h, hp]

/-- **A slash cuts.**  What stands before it and what stands behind it are cut on their own. -/
theorem pieces_append_slash (p q : Path) :
    pieces (p ++ slash :: q) = pieces p ++ pieces q := by
  induction p with
  | nil => exact pieces_slash_cons q
  | cons octet p ih =>
      rw [List.cons_append]
      by_cases h : octet = slash
      · rw [h, pieces_slash_cons, pieces_slash_cons, ih, List.cons_append]
      · obtain ⟨piece, more, hp⟩ := List.exists_cons_of_ne_nil (pieces_ne_nil p)
        rw [hp, List.cons_append] at ih
        rw [pieces_cons h hp, pieces_cons h ih, List.cons_append]

theorem pieces_of_notMem {p : Path} (h : slash ∉ p) : pieces p = [p] := by
  induction p with
  | nil => rfl
  | cons octet p ih =>
      rw [List.mem_cons, not_or] at h
      exact pieces_cons (Ne.symm h.1) (ih h.2)

theorem slash_notMem_of_mem_pieces {p piece : Path} (h : piece ∈ pieces p) : slash ∉ piece := by
  induction p generalizing piece with
  | nil =>
      rw [List.mem_singleton.mp h]
      exact List.not_mem_nil
  | cons octet p ih =>
      by_cases ho : octet = slash
      · rw [ho, pieces_slash_cons, List.mem_cons] at h
        rcases h with rfl | h
        · exact List.not_mem_nil
        · exact ih h
      · obtain ⟨first, more, hp⟩ := List.exists_cons_of_ne_nil (pieces_ne_nil p)
        rw [pieces_cons ho hp, List.mem_cons] at h
        rcases h with rfl | h
        · rw [List.mem_cons, not_or]
          exact ⟨Ne.symm ho, ih (hp ▸ List.mem_cons_self)⟩
        · exact ih (hp ▸ List.mem_cons_of_mem first h)

/-- The pieces of a path, each behind a slash. -/
theorem flatMap_slash_pieces (p : Path) : (pieces p).flatMap (slash :: ·) = slash :: p := by
  induction p with
  | nil => rfl
  | cons octet p ih =>
      by_cases h : octet = slash
      · rw [h, pieces_slash_cons, List.flatMap_cons, ih]
        rfl
      · obtain ⟨piece, more, hp⟩ := List.exists_cons_of_ne_nil (pieces_ne_nil p)
        rw [hp, List.flatMap_cons, List.cons_append, List.cons_inj_right] at ih
        rw [pieces_cons h hp, List.flatMap_cons, List.cons_append, List.cons_append, ih]

/-! ### Names -/

/-- The piece of a path stands for going down by it. -/
structure IsName (piece : Path) : Prop where
  ne_nil : piece ≠ []
  ne_dot : piece ≠ [dot]
  ne_dots : piece ≠ [dot, dot]
  slash_notMem : slash ∉ piece

/-- **What a piece means.**  A piece stands for nothing, or for going up, or for itself as a
name. -/
theorem component?_cases {piece : Path} (h : slash ∉ piece) :
    (component? piece = none ∧ (piece = [] ∨ piece = [dot])) ∨
      (component? piece = some .parent ∧ piece = [dot, dot]) ∨
        (component? piece = some (.name piece) ∧ IsName piece) := by
  rw [component?]
  by_cases hnone : piece = [] ∨ piece = [dot]
  · rw [if_pos hnone]
    exact Or.inl ⟨rfl, hnone⟩
  · rw [if_neg hnone]
    by_cases hdots : piece = [dot, dot]
    · rw [if_pos hdots]
      exact Or.inr (Or.inl ⟨rfl, hdots⟩)
    · rw [if_neg hdots]
      rw [not_or] at hnone
      exact Or.inr (Or.inr ⟨rfl, hnone.1, hnone.2, hdots, h⟩)

theorem component?_of_isName {piece : Path} (h : IsName piece) :
    component? piece = some (.name piece) := by
  rw [component?, if_neg (not_or.mpr ⟨h.ne_nil, h.ne_dot⟩), if_neg h.ne_dots]

theorem isName_of_component? {piece octets : Path} (hs : slash ∉ piece)
    (h : component? piece = some (.name octets)) : IsName octets := by
  rcases component?_cases hs with ⟨hc, -⟩ | ⟨hc, -⟩ | ⟨hc, hn⟩
  · rw [hc] at h
    cases h
  · rw [hc] at h
    cases h
  · rw [hc] at h
    cases h
    exact hn

/-- The components of a path go down by names only. -/
theorem isName_of_mem_components {p octets : Path} (h : .name octets ∈ components p) :
    IsName octets := by
  rw [components, List.mem_append, List.mem_filterMap] at h
  rcases h with h | ⟨piece, hp, hc⟩
  · split at h <;> simp at h
  · exact isName_of_component? (slash_notMem_of_mem_pieces hp) hc

theorem filterMap_component?_names {names : List Name} (h : ∀ name ∈ names, IsName name) :
    names.filterMap component? = names.map .name := by
  induction names with
  | nil => rfl
  | cons name names ih =>
      rw [List.forall_mem_cons] at h
      rw [List.filterMap_cons_some (component?_of_isName h.1), ih h.2, List.map_cons]

/-! ### Absolute paths -/

theorem isAbsolute_iff {p : Path} : isAbsolute p = true ↔ ∃ q, p = slash :: q := by
  cases p with
  | nil => simp [isAbsolute]
  | cons octet p => simp [isAbsolute]

/-- What is put behind the first octet of a path makes it neither absolute nor relative. -/
theorem isAbsolute_append {p : Path} (h : p ≠ []) (q : Path) :
    isAbsolute (p ++ q) = isAbsolute p := by
  cases p with
  | nil => exact absurd rfl h
  | cons octet p => rfl

/-- An absolute path starts from the root, and its first piece is empty. -/
theorem components_of_isAbsolute {p : Path} (h : isAbsolute p = true) :
    components p = .root :: (pieces p).filterMap component? := by
  rw [components, if_pos h]
  rfl

theorem components_of_not_isAbsolute {p : Path} (h : isAbsolute p = false) :
    components p = (pieces p).filterMap component? := by
  rw [components, h]
  rfl

/-! ### Positions -/

theorem isAbsolute_path (names : Position) : isAbsolute names.path = true := by
  cases names with
  | nil => rfl
  | cons name names => rfl

/-- Names behind slashes are cut into these names, whatever stands before them. -/
theorem pieces_append_flatMap {names : List Name} (h : ∀ name ∈ names, slash ∉ name) (p : Path) :
    pieces (p ++ names.flatMap (slash :: ·)) = pieces p ++ names := by
  induction names generalizing p with
  | nil => simp
  | cons name names ih =>
      rw [List.forall_mem_cons] at h
      have happ : p ++ (name :: names).flatMap (slash :: ·) =
          (p ++ slash :: name) ++ names.flatMap (slash :: ·) := by simp
      rw [happ, ih h.2, pieces_append_slash, pieces_of_notMem h.1, List.append_assoc]
      rfl

/-- The pieces of a position's path: nothing before the first slash, and then the names; the root
has nothing behind its slash either. -/
theorem pieces_path {names : Position} (h : ∀ name ∈ names, IsName name) :
    pieces names.path = [] :: if names = [] then [[]] else names := by
  cases names with
  | nil => rfl
  | cons name names =>
      exact pieces_append_flatMap (fun name hname => (h name hname).slash_notMem) []

theorem components_path {names : Position} (h : ∀ name ∈ names, IsName name) :
    components names.path = .root :: names.map .name := by
  rw [components_of_isAbsolute (isAbsolute_path names), pieces_path h,
    List.filterMap_cons_none rfl]
  split
  next hnil => rw [hnil]; rfl
  next => rw [filterMap_component?_names h]

end Intake.Path
