import Intake.Proofs.Path.Fold
import Intake.Text.Utf8

/-!
# Resolving in two steps

A path that is taken from another one can be resolved in one step, or the other one can be resolved
first and the path be resolved from there.  Both give the same path, because a position is all that
is left of a path, and the components behind it go on from the position (`position_join`).

* `fold_join_fold`: a path may be taken from the folded form of another one.
* `fold_join_join`: paths may be joined in either order.
* `resolve_join`: resolution in two steps.
-/

namespace Intake.Path

variable {base : Path}

/-- What a path is taken from may be folded before. -/
theorem fold_join_fold (hb : isAbsolute base = true) (p : Path) :
    fold (join (fold base) p) = fold (join base p) := by
  have hf : isAbsolute (fold base) = true := (normal_fold hb).isAbsolute
  rw [fold_eq_path (isAbsolute_join hf p), fold_eq_path (isAbsolute_join hb p), position_join,
    position_join, position_fold hb]

/-- It makes no difference to which of its neighbours the path in the middle is joined first. -/
theorem fold_join_join (hb : isAbsolute base = true) (p q : Path) :
    fold (join base (join p q)) = fold (join (join base p) q) := by
  have hp : isAbsolute (join base p) = true := isAbsolute_join hb p
  rw [fold_eq_path (isAbsolute_join hb _), fold_eq_path (isAbsolute_join hp q), position_join,
    position_join, position_join, foldl_after_components_join]

/-- **Resolution in two steps.**  From an absolute working directory, two joined paths are resolved
as the second one is from what the first one is resolved to.  And from the working directory a path
is resolved as it is from the resolved form of the working directory, which is the same wherever one
stands. -/
theorem resolve_join {ε : Type} {directory : Path} (hd : isAbsolute directory = true) :
    (∀ p q, ∃ r s, resolve (ε := ε) (.ok directory) p = .ok r ∧
      resolve (ε := ε) (.ok r) q = .ok s ∧
      resolve (ε := ε) (.ok directory) (join p q) = .ok s) ∧
    ∀ p, ∃ r s, (∀ elsewhere : Except ε Path, resolve elsewhere directory = .ok r) ∧
      resolve (ε := ε) (.ok r) p = .ok s ∧ resolve (ε := ε) (.ok directory) p = .ok s := by
  constructor
  · intro p q
    refine ⟨_, _, resolve_ok directory p, resolve_ok _ q, ?_⟩
    rw [resolve_ok, fold_join_join hd, fold_join_fold (isAbsolute_join hd p)]
  · intro p
    refine ⟨_, _, fun _ => resolve_of_isAbsolute hd, resolve_ok _ p, ?_⟩
    rw [resolve_ok, fold_join_fold hd]

/-- From a working directory that is not in normal form, the first path climbs above the root and
the second one takes back all of its names. -/
theorem resolve_join_climbing :
    isAbsolute (Text.Utf8.encode "/a/./b") = true ∧
      resolve (ε := Unit) (.ok (Text.Utf8.encode "/a/./b"))
          (join (Text.Utf8.encode "../../../c//d/") (Text.Utf8.encode "../../e/.")) =
        resolve (.ok (Text.Utf8.encode "/c/d")) (Text.Utf8.encode "../../e/.") ∧
      resolve (ε := Unit) (.ok (Text.Utf8.encode "/a/./b")) (Text.Utf8.encode "../e") =
        resolve (.ok (Text.Utf8.encode "/a/b")) (Text.Utf8.encode "../e") := by
  have hd : isAbsolute (Text.Utf8.encode "/a/./b") = true := rfl
  have hspec := resolve_join (ε := Unit) hd
  refine ⟨hd, ?_, ?_⟩
  · obtain ⟨r, s, hr, hs, hjoin⟩ :=
      hspec.1 (Text.Utf8.encode "../../../c//d/") (Text.Utf8.encode "../../e/.")
    have hfirst : resolve (ε := Unit) (.ok (Text.Utf8.encode "/a/./b"))
        (Text.Utf8.encode "../../../c//d/") = .ok (Text.Utf8.encode "/c/d") := rfl
    rw [hfirst] at hr
    cases hr
    rw [hjoin, hs]
  · obtain ⟨r, s, hr, hs, hdirectory⟩ := hspec.2 (Text.Utf8.encode "../e")
    have hnormal : resolve (ε := Unit) (.error ()) (Text.Utf8.encode "/a/./b") =
        .ok (Text.Utf8.encode "/a/b") := rfl
    rw [hr] at hnormal
    cases hnormal
    rw [hdirectory, hs]

end Intake.Path
