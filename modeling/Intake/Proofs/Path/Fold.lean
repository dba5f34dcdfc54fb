import Intake.Proofs.Path.Pieces
import Mathlib.Data.List.Basic

/-!
# Folding

Folding a path builds up another path, octet by octet.  It does what a list of names would do: a
name is put at its end, a double dot takes the last name away, and at the root nothing is left to
take away (`step_path`).  The folded path is the path of the position that is left.

* `position`: the names that are left of a path.
* `fold_eq_path`: folding an absolute path gives the path of its position.
* `foldl_after_components_join`, `position_join`: going on from another path.
* `Normal`: the root, and the names of a position with one slash before each.
* `normal_fold`, `fold_of_normal`: folding leads into the normal paths and leaves them as they are.
* `normal_of_resolve`, `resolve_of_normal`: the same for resolution from an `Anchored` working
  directory.
-/

namespace Intake

/-- The position after one component more.  Nothing is above the root. -/
def Position.after : Position → Path.Component → Position
  | _, .root => []
  | here, .parent => here.dropLast
  | here, .name octets => here ++ [octets]

namespace Path

/-- The names that are left of a path when every double dot has taken one away. -/
def position (p : Path) : Position := (components p).foldl Position.after []

/-! ### One component -/

theorem path_concat (here : Position) (name : Name) :
    Position.path (here ++ [name]) = here.flatMap (slash :: ·) ++ slash :: name := by
  cases here with
  | nil => simp [Position.path]
  | cons first here => simp [Position.path]

theorem not_isAbsolute_of_isName {name : Path} (h : IsName name) : isAbsolute name = false := by
  rw [Bool.eq_false_iff]
  intro habs
  obtain ⟨q, rfl⟩ := isAbsolute_iff.mp habs
  exact h.slash_notMem List.mem_cons_self

/-- Behind a name a slash is put before the next one. -/
theorem join_append_slash {last name : Path} (hl : IsName last) (hn : IsName name) (above : Path) :
    join (above ++ slash :: last) name = above ++ slash :: last ++ slash :: name := by
  have hlast : (above ++ slash :: last).getLast? ≠ some slash := by
    intro hs
    rw [List.getLast?_append, List.getLast?_cons, List.getLast?_eq_some_getLast hl.ne_nil] at hs
    exact hl.slash_notMem (Option.some.inj hs ▸ List.getLast_mem hl.ne_nil)
  have hends : ((above ++ slash :: last).isEmpty || (above ++ slash :: last).getLast? ==
      some slash) = false := by
    rw [Bool.or_eq_false_iff, beq_eq_false_iff_ne]
    exact ⟨by simp, hlast⟩
  rw [join, not_isAbsolute_of_isName hn, hends]
  rfl

/-- A name goes away with the slash before it, unless this is the root's. -/
theorem parent_append_slash {last : Path} (hl : slash ∉ last) (above : Path) :
    parent (above ++ slash :: last) = if above = [] then root else above := by
  have hdrop : (above ++ slash :: last).reverse.dropWhile (· ≠ slash) = slash :: above.reverse := by
    rw [List.reverse_append, List.reverse_cons, List.append_assoc,
      List.dropWhile_append_of_pos]
    · rfl
    · intro octet ho
      rw [decide_eq_true_iff]
      rintro rfl
      exact hl (List.mem_reverse.mp ho)
  rw [parent, hdrop, List.reverse_cons, List.reverse_reverse]
  by_cases habove : above = []
  · rw [habove, if_pos rfl]
    rfl
  · have hne : above ++ [slash] ≠ root := by simpa [root] using habove
    rw [if_neg hne, if_neg habove, List.dropLast_concat]

/-- **One component.**  What a component does to the path of a position, it does to the names of
the position, and these stay names. -/
theorem step_path {here : Position} (hh : ∀ name ∈ here, IsName name) {c : Component}
    (hc : ∀ octets, c = .name octets → IsName octets) :
    step here.path c = Position.path (here.after c) ∧ ∀ name ∈ here.after c, IsName name := by
  cases c with
  | root => exact ⟨rfl, nofun⟩
  | parent =>
      refine ⟨?_, fun name hname => hh name (List.dropLast_subset here hname)⟩
      rcases List.eq_nil_or_concat' here with rfl | ⟨above, last, rfl⟩
      · rfl
      · have hl : IsName last := hh last List.mem_concat_self
        rw [step, path_concat, parent_append_slash hl.slash_notMem, Position.after,
          List.dropLast_concat]
        cases above with
        | nil => rfl
        | cons first above => simp [Position.path]
  | name octets =>
      have ho : IsName octets := hc octets rfl
      refine ⟨?_, ?_⟩
      · rcases List.eq_nil_or_concat' here with rfl | ⟨above, last, rfl⟩
        -- the root ends with a slash already
        · simp [step, join, not_isAbsolute_of_isName ho, Position.after, Position.path, root]
        · have hl : IsName last := hh last List.mem_concat_self
          rw [step, path_concat, join_append_slash hl ho, Position.after, path_concat]
          simp
      · intro name hname
        rcases List.mem_append.mp hname with h | h
        · exact hh name h
        · exact List.mem_singleton.mp h ▸ ho

/-! ### All components -/

/-- What components do to the path of a position, they do to the names of the position. -/
theorem foldl_step_path {cs : List Component} (hc : ∀ octets, .name octets ∈ cs → IsName octets)
    {here : Position} (hh : ∀ name ∈ here, IsName name) :
    cs.foldl step here.path = Position.path (cs.foldl Position.after here) ∧
      ∀ name ∈ cs.foldl Position.after here, IsName name := by
  induction cs generalizing here with
  | nil => exact ⟨rfl, hh⟩
  | cons c cs ih =>
      obtain ⟨hstep, hnames⟩ :=
        step_path hh fun octets h => hc octets (h ▸ List.mem_cons_self)
      rw [List.foldl_cons, List.foldl_cons, hstep]
      exact ih (fun octets h => hc octets (List.mem_cons_of_mem c h)) hnames

theorem isName_of_mem_position {p : Path} {name : Name} (h : name ∈ position p) : IsName name :=
  (foldl_step_path (fun _ => isName_of_mem_components) (List.forall_mem_nil _)).2 name h

/-- **Folding.**  The folded form of an absolute path is the path of its position. -/
theorem fold_eq_path {p : Path} (h : isAbsolute p = true) : fold p = (position p).path := by
  have hc : ∀ octets, .name octets ∈ components p → IsName octets :=
    fun _ => isName_of_mem_components
  rw [components_of_isAbsolute h] at hc
  rw [fold, position, components_of_isAbsolute h]
  -- the first component leads from the empty path to the root
  exact (foldl_step_path (fun octets ho => hc octets (List.mem_cons_of_mem _ ho))
    (List.forall_mem_nil _)).1

theorem foldl_after_names (here names : Position) :
    (names.map Component.name).foldl Position.after here = here ++ names := by
  induction names generalizing here with
  | nil => simp
  | cons name names ih => rw [List.map_cons, List.foldl_cons, ih, Position.after]; simp

/-- The path of a position has that position. -/
theorem position_path {names : Position} (h : ∀ name ∈ names, IsName name) :
    position names.path = names := by
  rw [position, components_path h, List.foldl_cons, foldl_after_names]
  rfl

/-- Folding keeps the position of a path. -/
theorem position_fold {p : Path} (h : isAbsolute p = true) : position (fold p) = position p := by
  rw [fold_eq_path h, position_path fun _ => isName_of_mem_position]

/-! ### Going on from another path -/

theorem isAbsolute_join {base : Path} (h : isAbsolute base = true) (p : Path) :
    isAbsolute (join base p) = true := by
  have hne : base ≠ [] := by
    rintro rfl
    cases h
  rw [join]
  split
  · assumption
  · split
    · rw [isAbsolute_append hne, h]
    · rw [isAbsolute_append hne, h]

theorem filterMap_pieces_append_slash (p q : Path) :
    (pieces (p ++ slash :: q)).filterMap component? =
      (pieces p).filterMap component? ++ (pieces q).filterMap component? := by
  rw [pieces_append_slash, List.filterMap_append]

/-- The components of a relative path come after those of the path that it is taken from. -/
theorem components_join (base : Path) {p : Path} (hp : isAbsolute p = false) :
    components (join base p) = components base ++ components p := by
  rw [join, hp, components_of_not_isAbsolute hp]
  rcases List.eq_nil_or_concat' base with rfl | ⟨above, last, rfl⟩
  -- taken from nothing, a path stays as it is
  · exact components_of_not_isAbsolute hp
  · have happ : ∀ q, isAbsolute (above ++ [last] ++ q) = isAbsolute (above ++ [last]) :=
      isAbsolute_append (List.concat_ne_nil last above)
    by_cases hlast : last = slash
    -- the path that it is taken from ends with a slash, which has nothing behind it
    · have hends : ((above ++ [last]).isEmpty || (above ++ [last]).getLast? == some slash) =
          true := by simp [hlast]
      rw [hends, components, components, if_neg Bool.false_ne_true, if_pos rfl, happ,
        List.append_assoc above, hlast, List.singleton_append, filterMap_pieces_append_slash,
        filterMap_pieces_append_slash above [], List.append_assoc]
      simp [pieces, component?]
    · have hends : ((above ++ [last]).isEmpty || (above ++ [last]).getLast? == some slash) =
          false := by simp [hlast]
      rw [hends, components, components, if_neg Bool.false_ne_true, if_neg Bool.false_ne_true, happ,
        filterMap_pieces_append_slash, List.append_assoc]

/-- **Going on.**  What the components of a path do when it is taken from another one: they do it
after those of the other one. -/
theorem foldl_after_components_join (here : Position) (base p : Path) :
    (components (join base p)).foldl Position.after here =
      (components p).foldl Position.after ((components base).foldl Position.after here) := by
  cases hp : isAbsolute p with
  | true =>
      -- an absolute path starts from the root again, wherever one is
      rw [join, if_pos hp, components_of_isAbsolute hp]
      rfl
  | false => rw [components_join base hp, List.foldl_append]

/-- A path taken from another one leads on from the position of the other one. -/
theorem position_join (base p : Path) :
    position (join base p) = (components p).foldl Position.after (position base) :=
  foldl_after_components_join [] base p

/-! ### Normal paths -/

/-- A path in normal form: the root, or names with one slash before each. -/
def Normal (p : Path) : Prop :=
  p = root ∨ ∃ q, p = slash :: q ∧ ∀ piece ∈ pieces q, IsName piece

/-- The normal paths are the paths of positions. -/
theorem normal_iff {p : Path} :
    Normal p ↔ ∃ names : Position, (∀ name ∈ names, IsName name) ∧ p = names.path := by
  constructor
  · rintro (rfl | ⟨q, rfl, hq⟩)
    · exact ⟨[], nofun, rfl⟩
    · refine ⟨pieces q, hq, ?_⟩
      obtain ⟨piece, more, hp⟩ := List.exists_cons_of_ne_nil (pieces_ne_nil q)
      rw [← flatMap_slash_pieces, hp]
      rfl
  · rintro ⟨names, hnames, rfl⟩
    cases names with
    | nil => exact Or.inl rfl
    | cons name names =>
        refine Or.inr ⟨name ++ names.flatMap (slash :: ·), by simp [Position.path], ?_⟩
        have hname := List.forall_mem_cons.mp hnames
        rw [pieces_append_flatMap (fun n hn => (hname.2 n hn).slash_notMem),
          pieces_of_notMem hname.1.slash_notMem]
        exact hnames

theorem Normal.isAbsolute {p : Path} (h : Normal p) : p.isAbsolute = true := by
  obtain ⟨names, -, rfl⟩ := normal_iff.mp h
  exact isAbsolute_path names

theorem normal_fold {p : Path} (h : isAbsolute p = true) : Normal (fold p) :=
  normal_iff.mpr ⟨position p, fun _ => isName_of_mem_position, fold_eq_path h⟩

/-- Folding leaves a normal path as it is. -/
theorem fold_of_normal {p : Path} (h : Normal p) : fold p = p := by
  obtain ⟨names, hnames, rfl⟩ := normal_iff.mp h
  rw [fold_eq_path (isAbsolute_path names), position_path hnames]

/-! ### Resolution -/

/-- A working directory is an absolute path, where it is available. -/
def Anchored {ε : Type} (workingDirectory : Except ε Path) : Prop :=
  ∀ directory, workingDirectory = .ok directory → isAbsolute directory = true

section
variable {ε : Type} {workingDirectory : Except ε Path} {p r : Path}

theorem resolve_of_isAbsolute (h : isAbsolute p = true) :
    resolve workingDirectory p = .ok (fold p) := if_pos h

theorem resolve_ok (directory p : Path) :
    resolve (ε := ε) (.ok directory) p = .ok (fold (join directory p)) := by
  rw [resolve]
  split
  next h => rw [join, if_pos h]
  next => rfl

/-- Resolution fails where a relative path meets a working directory that is unavailable. -/
theorem resolve_eq_error {cause : ε} :
    resolve workingDirectory p = .error cause ↔
      isAbsolute p = false ∧ workingDirectory = .error cause := by
  cases workingDirectory with
  | ok directory => simp [resolve_ok]
  | error e =>
      cases h : isAbsolute p with
      | true => simp [resolve_of_isAbsolute h]
      | false =>
          rw [resolve, h]
          exact ⟨fun he => ⟨rfl, he⟩, fun he => he.2⟩

/-- What a path is resolved to is in normal form. -/
theorem normal_of_resolve (hw : Anchored workingDirectory)
    (h : resolve workingDirectory p = .ok r) : Normal r := by
  cases workingDirectory with
  | ok directory =>
      rw [resolve_ok] at h
      cases h
      exact normal_fold (isAbsolute_join (hw directory rfl) p)
  | error e =>
      cases hp : isAbsolute p with
      | true =>
          rw [resolve_of_isAbsolute hp] at h
          cases h
          exact normal_fold hp
      | false =>
          rw [resolve_eq_error.mpr ⟨hp, rfl⟩] at h
          cases h

/-- A path in normal form resolves to itself, from whatever working directory. -/
theorem resolve_of_normal (h : Normal p) : resolve workingDirectory p = .ok p := by
  rw [resolve_of_isAbsolute h.isAbsolute, fold_of_normal h]

end

end Path
end Intake
