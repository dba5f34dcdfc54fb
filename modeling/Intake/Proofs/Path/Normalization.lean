import Intake.Proofs.Path.Fold

/-!
# Resolution as normalization

Resolution builds a path up octet by octet, and the result can be told from lists of pieces alone:
cut the working directory and the path at their slashes, let every double dot remove the nearest
name before it, and join the names that survive.  The paths that are joined in this way are the
normal ones, and resolution leaves these and no others as they are.

* `survivors`, `rooted`: the names that survive a list of pieces, and the path of names.
* `pieces_eq_splitOn`, `path_eq_rooted`: cutting and joining in the words of the library.
* `foldl_after_eq_survive`: components and pieces let the same names survive.
* `resolve_normalizes`: resolution gives the path of the names that survive.
* `resolve_fixes_normal`: what resolution leads to and what it leaves as it is.
-/

namespace Intake.Path

/-! ### Names that survive -/

/-- The names that survive when one piece more is read.  An empty piece and a dot are dropped, a
double dot removes the nearest name before it if there is one, and any other piece is a name. -/
def survive (names : List Name) (piece : Path) : List Name :=
  if piece = [] ∨ piece = [dot] then names
  else if piece = [dot, dot] then names.dropLast
  else names ++ [piece]

/-- The names that survive a list of pieces. -/
def survivors (pieces : List Path) : List Name := pieces.foldl survive []

/-- The path of names: a slash, and the names with a single slash between them. -/
def rooted (names : List Name) : Path := slash :: [slash].intercalate names

theorem pieces_eq_splitOn (p : Path) : pieces p = p.splitOn slash := by
  induction p with
  | nil => rfl
  | cons octet p ih =>
      rw [List.splitOn_cons_eq_if_modifyHead, ← ih]
      by_cases h : octet = slash
      · rw [h, pieces_slash_cons, if_pos (beq_self_eq_true slash)]
      · obtain ⟨piece, more, hp⟩ := List.exists_cons_of_ne_nil (pieces_ne_nil p)
        rw [pieces_cons h hp, hp, if_neg (by simpa using h)]
        rfl

/-- A slash before each name is a slash before all of them and one between any two. -/
theorem path_eq_rooted (names : Position) : names.path = rooted names := by
  cases names with
  | nil => rfl
  | cons name names =>
      rw [rooted]
      change (name :: names).flatMap (slash :: ·) = _
      induction names generalizing name with
      | nil => simp
      | cons next names ih => rw [List.flatMap_cons, ih, List.intercalate_cons_cons]; simp

/-- The components of pieces lead to the names that survive the pieces. -/
theorem foldl_after_eq_survive (pieces : List Path) (here : Position) :
    (pieces.filterMap component?).foldl Position.after here = pieces.foldl survive here := by
  induction pieces generalizing here with
  | nil => rfl
  | cons piece pieces ih =>
      rw [List.foldl_cons, ← ih, survive]
      by_cases hnone : piece = [] ∨ piece = [dot]
      · have hc : component? piece = none := if_pos hnone
        rw [if_pos hnone, List.filterMap_cons_none hc]
      · rw [if_neg hnone]
        by_cases hdots : piece = [dot, dot]
        · have hc : component? piece = some .parent := by
            rw [component?, if_neg hnone, if_pos hdots]
          rw [if_pos hdots, List.filterMap_cons_some hc, List.foldl_cons, Position.after]
        · have hc : component? piece = some (.name piece) := by
            rw [component?, if_neg hnone, if_neg hdots]
          rw [if_neg hdots, List.filterMap_cons_some hc, List.foldl_cons, Position.after]

/-- The names that are left of an absolute path survive its pieces. -/
theorem position_eq_survivors {p : Path} (h : isAbsolute p = true) :
    position p = survivors (p.splitOn slash) := by
  rw [position, components_of_isAbsolute h, List.foldl_cons, foldl_after_eq_survive,
    pieces_eq_splitOn]
  rfl

/-- The names that are left of a relative path survive its pieces behind those of the directory
that it is taken from. -/
theorem position_join_eq_survivors {directory p : Path} (hd : isAbsolute directory = true)
    (hp : isAbsolute p = false) :
    position (join directory p) = survivors (directory.splitOn slash ++ p.splitOn slash) := by
  rw [position_join, components_of_not_isAbsolute hp, foldl_after_eq_survive, pieces_eq_splitOn,
    position_eq_survivors hd, survivors, survivors, List.foldl_append]

/-- **Resolution is normalization.**  An absolute path is resolved to the path of the names that
survive its pieces, whatever is known of the working directory.  The pieces of a relative path come
behind those of the working directory; where this is unavailable, the fault is all there is. -/
theorem resolve_normalizes {ε : Type} (p : Path) :
    (isAbsolute p = true → ∀ workingDirectory : Except ε Path,
      resolve workingDirectory p = .ok (rooted (survivors (p.splitOn slash)))) ∧
    (isAbsolute p = false →
      (∀ directory, isAbsolute directory = true →
        resolve (ε := ε) (.ok directory) p =
          .ok (rooted (survivors (directory.splitOn slash ++ p.splitOn slash)))) ∧
      ∀ cause : ε, resolve (.error cause) p = .error cause) := by
  refine ⟨fun hp workingDirectory => ?_, fun hp => ⟨fun directory hd => ?_, fun cause => ?_⟩⟩
  · rw [resolve_of_isAbsolute hp, fold_eq_path hp, path_eq_rooted, position_eq_survivors hp]
  · rw [resolve_ok, fold_eq_path (isAbsolute_join hd p), path_eq_rooted,
      position_join_eq_survivors hd hp]
  · exact resolve_eq_error.mpr ⟨hp, rfl⟩

/-- Octets that are not UTF-8, names that begin with dots, and more double dots than names. -/
theorem resolve_normalizes_octets :
    resolve (ε := Unit) (.error ()) [slash, dot, dot, slash, slash, 0xFF, slash] =
        .ok [slash, 0xFF] ∧
      resolve (ε := Unit) (.ok [slash, slash, 0x77]) [dot, dot, slash, dot, dot, dot, slash, dot] =
        .ok [slash, dot, dot, dot] ∧
      resolve (.error ()) [dot, dot] = .error () := by
  have habsolute := (resolve_normalizes (ε := Unit) [slash, dot, dot, slash, slash, 0xFF, slash]).1
  have hrelative :=
    (resolve_normalizes (ε := Unit) [dot, dot, slash, dot, dot, dot, slash, dot]).2 rfl
  have hunavailable := (resolve_normalizes (ε := Unit) [dot, dot]).2 rfl
  exact ⟨habsolute rfl _, hrelative.1 [slash, slash, 0x77] rfl, hunavailable.2 ()⟩

/-! ### Normal forms -/

/-- From one working directory it can be told whether a path is in normal form. -/
theorem resolve_eq_self_iff {ε : Type} {workingDirectory : Except ε Path}
    (hw : Anchored workingDirectory) {p : Path} :
    resolve workingDirectory p = .ok p ↔ Normal p :=
  ⟨normal_of_resolve hw, resolve_of_normal⟩

/-- **Normal forms.**  From an absolute working directory every path is resolved to a path in normal
form, which from then on is resolved to itself, wherever one stands.  The paths that are resolved to
themselves from every working directory, also from one that is unavailable, are those in normal
form, and a path that is not in normal form is resolved to itself from none. -/
theorem resolve_fixes_normal {ε : Type} :
    (∀ directory, isAbsolute directory = true → ∀ p, ∃ r,
      resolve (ε := ε) (.ok directory) p = .ok r ∧ Normal r ∧
        ∀ elsewhere : Except ε Path, resolve elsewhere r = .ok r) ∧
    (∀ q, (∀ workingDirectory : Except ε Path, Anchored workingDirectory →
      resolve workingDirectory q = .ok q) ↔ Normal q) ∧
    ∀ q, ¬ Normal q → ∀ workingDirectory : Except ε Path, Anchored workingDirectory →
      resolve workingDirectory q ≠ .ok q := by
  have hroot : Anchored (ε := ε) (.ok root) := by
    intro directory h
    cases h
    rfl
  refine ⟨fun directory hd p => ?_, fun q => ⟨fun h => ?_, fun h _ _ => resolve_of_normal h⟩, ?_⟩
  · have hr : Normal (fold (join directory p)) := normal_fold (isAbsolute_join hd p)
    exact ⟨_, resolve_ok directory p, hr, fun _ => resolve_of_normal hr⟩
  · exact (resolve_eq_self_iff hroot).mp (h (.ok root) hroot)
  · intro q hq workingDirectory hw h
    exact hq ((resolve_eq_self_iff hw).mp h)

/-- From a working directory that is not in normal form, a path climbs above the root.  A slash at
its end keeps a path from being in normal form. -/
theorem resolve_fixes_normal_trailing :
    (∃ r, resolve (ε := Unit) (.ok [slash, slash, 0x77]) [dot, dot, slash, dot, dot, slash, 0x61] =
        .ok r ∧ Normal r ∧ ∀ elsewhere : Except Unit Path, resolve elsewhere r = .ok r) ∧
      Normal [slash, 0x61] ∧ ¬ Normal [slash, 0x61, slash] := by
  have hspec := resolve_fixes_normal (ε := Unit)
  refine ⟨hspec.1 [slash, slash, 0x77] rfl _, ?_, fun h => ?_⟩
  · exact Classical.byContradiction fun h => hspec.2.2 [slash, 0x61] h (.error ()) nofun rfl
  · have hself := (hspec.2.1 [slash, 0x61, slash]).mpr h (.error ()) nofun
    exact absurd hself (by decide)

end Intake.Path
