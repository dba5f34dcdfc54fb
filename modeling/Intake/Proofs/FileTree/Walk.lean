import Intake.Proofs.Path.Fold

/-!
# Walks without links

In a tree that holds no link a walk takes one piece of a path after the other, and each leads from
one position to the next (`pace`).  What a walk passes on its way it may pass again, so that the
names of the position that it reaches can be walked from the root (`Trodden`).  These are the names
that folding leaves of the path: folding does not change where a path leads.

This holds whatever a walk asks of the nodes that it passes: nothing at all, that they be
directories, or that their owner may enter them.  A walk along the folded path passes no node that
the walk along the path has not passed.

* `LinkFree`: trees without links.
* `walk_eq_foldlM`: walks without links, piece by piece.
* `Trodden.pace`, `Trodden.foldlM_pace`: what one piece preserves, and what a walk preserves.
* `walk_resolve`: a path and its resolved form lead to the same node.
-/

namespace Intake.Node
open Intake.Path (IsName component? pieces position slash dot)

/-! ### Nodes and positions -/

theorem at?_append (node : Node) (names more : Position) :
    node.at? (names ++ more) = (node.at? names).bind (·.at? more) := by
  induction names generalizing node with
  | nil => rfl
  | cons name names ih =>
      rw [List.cons_append, at?, at?]
      cases node.child? name with
      | none => rfl
      | some child => exact ih child

theorem at?_concat {root node : Node} {here : Position} (h : root.at? here = some node)
    (name : Name) : root.at? (here ++ [name]) = node.child? name := by
  rw [at?_append, h, Option.bind_some, at?]
  cases node.child? name with
  | none => rfl
  | some child => rfl

/-- No position of the tree holds a link. -/
def LinkFree (root : Node) : Prop := ∀ position target, root.at? position ≠ some (.link target)

theorem linkFree_leaf (number : Nat) : LinkFree (.leaf number) := by
  intro position target h
  cases position with
  | nil => cases h
  | cons name names => cases h

/-- A directory is free of links if its entries are. -/
theorem linkFree_directory {mode : Nat} {entries : List (Name × Node)}
    (h : ∀ entry ∈ entries, LinkFree entry.2) : LinkFree (.directory mode entries) := by
  intro position target hat
  cases position with
  | nil => cases hat
  | cons name names =>
      rw [at?] at hat
      cases hc : (directory mode entries).child? name with
      | none => rw [hc] at hat; cases hat
      | some child =>
          rw [hc] at hat
          rw [child?, List.lookup_eq_some_iff] at hc
          obtain ⟨before, after, hentries, -⟩ := hc
          exact h (name, child) (by simp [hentries]) names target hat

/-! ### One piece -/

/-- The position after one piece, if no link is met. -/
def pace (passage : Passage) (root : Node) (here : Position) (piece : Path) : Option Position :=
  (root.at? here).bind fun node =>
    if piece = [] then if passage.stay node then some here else none
    else if !passage.enter node then none
    else if piece = [dot] then some here
    else if piece = [dot, dot] then some here.dropLast
    else (node.child? piece).map fun _ => here ++ [piece]

variable {passage : Passage} {root : Node} {here there : Position} {piece : Path}

/-- A walk that meets no link takes its first piece, and goes on from where this leads. -/
theorem walkPieces_cons (hroot : root.LinkFree) {follow : Position → List Path → Option Position}
    (more : List Path) :
    walkPieces passage follow root here (piece :: more) =
      (pace passage root here piece).bind (walkPieces passage follow root · more) := by
  rw [walkPieces, pace]
  cases hnode : root.at? here with
  | none => rfl
  | some node =>
      simp only [Option.bind_some]
      by_cases hnil : piece = []
      · rw [if_pos hnil, if_pos hnil]
        split <;> rfl
      rw [if_neg hnil, if_neg hnil]
      by_cases henter : (!passage.enter node) = true
      · rw [if_pos henter, if_pos henter]
        rfl
      rw [if_neg henter, if_neg henter]
      by_cases hdot : piece = [dot]
      · rw [if_pos hdot, if_pos hdot]
        rfl
      rw [if_neg hdot, if_neg hdot]
      by_cases hdots : piece = [dot, dot]
      · rw [if_pos hdots, if_pos hdots]
        rfl
      rw [if_neg hdots, if_neg hdots]
      cases hchild : node.child? piece with
      | none => rfl
      | some child =>
          cases child with
          | leaf number => rfl
          | directory mode entries => rfl
          | link target =>
              rw [← at?_concat hnode] at hchild
              exact absurd hchild (hroot _ target)

/-- **Walks without links.**  A walk goes from piece to piece, however many links it might
follow. -/
theorem walk_eq_foldlM (hroot : root.LinkFree) (links : Nat) (here : Position)
    (pieces : List Path) :
    root.walk passage links here pieces = pieces.foldlM (pace passage root) here := by
  have hpieces : ∀ follow, walkPieces passage follow root here pieces =
      pieces.foldlM (pace passage root) here := by
    intro follow
    induction pieces generalizing here with
    | nil => rfl
    | cons piece more ih =>
        rw [walkPieces_cons hroot, List.foldlM_cons]
        cases pace passage root here piece with
        | none => rfl
        | some there => exact ih there
  cases links with
  | zero => exact hpieces _
  | succ links => exact hpieces _

/-- A name leads down from a node that may be entered, to an entry of this node. -/
theorem pace_name_eq_some (hn : IsName piece) :
    pace passage root here piece = some there ↔
      ∃ node, root.at? here = some node ∧ passage.enter node = true ∧
        (node.child? piece).isSome = true ∧ there = here ++ [piece] := by
  rw [pace, Option.bind_eq_some_iff]
  refine exists_congr fun node => and_congr_right fun _ => ?_
  rw [if_neg hn.ne_nil, if_neg hn.ne_dot, if_neg hn.ne_dots]
  cases passage.enter node with
  | false => simp
  | true =>
      cases node.child? piece with
      | none => simp
      | some child => simp [eq_comm]

/-- A piece that leads somewhere leads where its component does. -/
theorem eq_of_pace (hs : slash ∉ piece) (h : pace passage root here piece = some there) :
    there = ((component? piece).map here.after).getD here := by
  rcases Path.component?_cases hs with ⟨hc, hp⟩ | ⟨hc, hp⟩ | ⟨hc, hn⟩
  · obtain ⟨node, -, h⟩ := Option.bind_eq_some_iff.mp h
    rw [hc]
    rcases hp with rfl | rfl
    · rw [if_pos rfl, Option.ite_none_right_eq_some] at h
      exact (Option.some.inj h.2).symm
    · rw [if_neg (List.cons_ne_nil _ _), if_pos rfl, Option.ite_none_left_eq_some] at h
      exact (Option.some.inj h.2).symm
  · obtain ⟨node, -, h⟩ := Option.bind_eq_some_iff.mp h
    rw [hc]
    subst hp
    rw [if_neg (List.cons_ne_nil _ _), Option.ite_none_left_eq_some, if_neg (by decide),
      if_pos rfl] at h
    exact (Option.some.inj h.2).symm
  · obtain ⟨node, -, -, -, heq⟩ := (pace_name_eq_some hn).mp h
    rw [hc]
    exact heq

/-- A walk along names puts them behind the position that it starts from. -/
theorem eq_of_foldlM_pace_names {names : Position} (hn : ∀ name ∈ names, IsName name)
    (h : names.foldlM (pace passage root) here = some there) : there = here ++ names := by
  induction names generalizing here with
  | nil =>
      cases h
      exact (List.append_nil there).symm
  | cons name names ih =>
      rw [List.forall_mem_cons] at hn
      rw [List.foldlM_cons] at h
      obtain ⟨next, hnext, h⟩ := Option.bind_eq_some_iff.mp h
      obtain ⟨-, -, -, -, rfl⟩ := (pace_name_eq_some hn.1).mp hnext
      rw [ih hn.2 h, List.append_assoc]
      rfl

/-! ### Trodden positions -/

/-- The names of a position can be walked from the root. -/
structure Trodden (passage : Passage) (root : Node) (here : Position) : Prop where
  names : ∀ name ∈ here, IsName name
  walked : here.foldlM (pace passage root) [] = some here

theorem trodden_root : Trodden passage root [] := ⟨List.forall_mem_nil _, rfl⟩

/-- **One piece.**  A piece leads from a trodden position to a trodden one. -/
theorem Trodden.pace (hh : Trodden passage root here) (hs : slash ∉ piece)
    (h : pace passage root here piece = some there) : Trodden passage root there := by
  have heq := eq_of_pace hs h
  rcases Path.component?_cases hs with ⟨hc, -⟩ | ⟨hc, -⟩ | ⟨hc, hn⟩
  · rw [hc] at heq
    exact heq ▸ hh
  -- the walk along the names before the last one has come to the position that they are
  · rw [hc] at heq
    subst heq
    refine ⟨fun name hname => hh.names name (List.dropLast_subset here hname), ?_⟩
    rcases List.eq_nil_or_concat' here with rfl | ⟨above, last, rfl⟩
    · rfl
    · have hwalked := hh.walked
      rw [List.foldlM_append] at hwalked
      obtain ⟨before, hbefore, -⟩ := Option.bind_eq_some_iff.mp hwalked
      have hnames : ∀ name ∈ above, IsName name :=
        fun name hname => hh.names name (List.mem_append_left _ hname)
      have heq := eq_of_foldlM_pace_names hnames hbefore
      rw [List.nil_append] at heq
      rw [heq] at hbefore
      simpa [Position.after] using hbefore
  · rw [hc] at heq
    subst heq
    refine ⟨?_, ?_⟩
    · intro name hname
      rcases List.mem_append.mp hname with hm | hm
      · exact hh.names name hm
      · exact List.mem_singleton.mp hm ▸ hn
    · change (here ++ [piece]).foldlM _ _ = _
      rw [List.foldlM_append, hh.walked]
      simpa using h

/-- **A walk.**  A walk leads from a trodden position to a trodden one, the one that the components
of its pieces lead to. -/
theorem Trodden.foldlM_pace {pieces : List Path} (hh : Trodden passage root here)
    (hs : ∀ piece ∈ pieces, slash ∉ piece)
    (h : pieces.foldlM (Node.pace passage root) here = some there) :
    Trodden passage root there ∧
      there = (pieces.filterMap component?).foldl Position.after here := by
  induction pieces generalizing here with
  | nil =>
      cases h
      exact ⟨hh, rfl⟩
  | cons piece pieces ih =>
      rw [List.forall_mem_cons] at hs
      rw [List.foldlM_cons] at h
      obtain ⟨next, hnext, h⟩ := Option.bind_eq_some_iff.mp h
      obtain ⟨htrodden, heq⟩ := ih (hh.pace hs.1 hnext) hs.2 h
      refine ⟨htrodden, ?_⟩
      rw [heq, eq_of_pace hs.1 hnext]
      cases hc : component? piece with
      | none => rw [List.filterMap_cons_none hc]; rfl
      | some c => rw [List.filterMap_cons_some hc]; rfl

/-- A trodden position holds a node. -/
theorem Trodden.exists_node (hh : Trodden passage root here) : ∃ node, root.at? here = some node := by
  rcases List.eq_nil_or_concat' here with rfl | ⟨above, last, rfl⟩
  · exact ⟨root, rfl⟩
  · have hwalked := hh.walked
    rw [List.foldlM_append] at hwalked
    obtain ⟨before, -, hlast⟩ := Option.bind_eq_some_iff.mp hwalked
    rw [List.foldlM_cons] at hlast
    obtain ⟨next, hnext, hlast⟩ := Option.bind_eq_some_iff.mp hlast
    cases hlast
    obtain ⟨node, hnode, -, hchild, heq⟩ :=
      (pace_name_eq_some (hh.names last List.mem_concat_self)).mp hnext
    obtain ⟨rfl, -⟩ := List.append_inj' heq rfl
    rw [at?_concat hnode]
    exact Option.isSome_iff_exists.mp hchild

/-- The path of a trodden position leads there, if the walk may start with a slash. -/
theorem Trodden.walk_path (hh : Trodden passage root here) (hstay : passage.stay root = true) :
    (pieces here.path).foldlM (Node.pace passage root) [] = some here := by
  have hslash : Node.pace passage root [] [] = some [] := by
    rw [Node.pace, at?, Option.bind_some, if_pos rfl, if_pos hstay]
  rw [Path.pieces_path hh.names, List.foldlM_cons, hslash]
  change List.foldlM _ _ _ = _
  split
  next hnil =>
    rw [hnil, List.foldlM_cons, hslash]
    rfl
  next => exact hh.walked

/-! ### Resolution -/

/-- Where a path leads, with so many links followed in a walk at most.  A relative path leads on
from where the working directory does. -/
def reach? (passage : Passage) (root : Node) (links : Nat) (directory p : Path) : Option Position :=
  if p.isAbsolute then root.walk passage links [] p.pieces
  else (root.walk passage links [] directory.pieces).bind (root.walk passage links · p.pieces)

/-- A walk along an absolute path starts with a slash. -/
theorem stay_of_walk {p : Path} (hp : p.isAbsolute = true)
    (h : (pieces p).foldlM (pace passage root) [] = some there) : passage.stay root = true := by
  obtain ⟨q, rfl⟩ := Path.isAbsolute_iff.mp hp
  rw [Path.pieces_slash_cons, List.foldlM_cons] at h
  obtain ⟨next, hnext, -⟩ := Option.bind_eq_some_iff.mp h
  rw [pace, at?, Option.bind_some, if_pos rfl, Option.ite_none_right_eq_some] at hnext
  exact hnext.1

/-- A walk along an absolute path leads to the position of the path. -/
theorem trodden_of_walk {p : Path} (hp : p.isAbsolute = true)
    (h : (pieces p).foldlM (pace passage root) [] = some there) :
    Trodden passage root there ∧ there = position p := by
  obtain ⟨htrodden, heq⟩ :=
    trodden_root.foldlM_pace (fun _ => Path.slash_notMem_of_mem_pieces) h
  rw [position, Path.components_of_isAbsolute hp]
  exact ⟨htrodden, heq⟩

/-- **Resolution keeps what a path leads to.**  In a tree without links, from an absolute working
directory, the resolved form of a path leads to the node that the path leads to.  This is so
whatever the walks ask of the nodes that they pass. -/
theorem walk_resolve {root : Node} (hroot : root.LinkFree) (passage : Passage) (links : Nat)
    {directory : Path} (hd : directory.isAbsolute = true) {p : Path} {here : Position}
    (h : reach? passage root links directory p = some here) :
    ∃ r node, p.resolve (.ok directory : Except SystemError Path) = .ok r ∧
      root.walk passage links [] r.pieces = some here ∧ root.at? here = some node := by
  simp only [reach?, walk_eq_foldlM hroot] at h
  have htrodden : Trodden passage root here ∧ here = position (directory.join p) ∧
      passage.stay root = true := by
    split at h
    next hp =>
      obtain ⟨htrodden, heq⟩ := trodden_of_walk hp h
      rw [Path.join, if_pos hp]
      exact ⟨htrodden, heq, stay_of_walk hp h⟩
    next hp =>
      rw [Bool.not_eq_true] at hp
      obtain ⟨start, hstart, h⟩ := Option.bind_eq_some_iff.mp h
      obtain ⟨htrodden, rfl⟩ := trodden_of_walk hd hstart
      obtain ⟨htrodden, heq⟩ := htrodden.foldlM_pace (fun _ => Path.slash_notMem_of_mem_pieces) h
      rw [Path.position_join, Path.components_of_not_isAbsolute hp]
      exact ⟨htrodden, heq, stay_of_walk hd hstart⟩
  obtain ⟨htrodden, heq, hstay⟩ := htrodden
  obtain ⟨node, hnode⟩ := htrodden.exists_node
  refine ⟨here.path, node, ?_, ?_, hnode⟩
  · rw [Path.resolve_ok, Path.fold_eq_path (Path.isAbsolute_join hd p), ← heq]
  · rw [walk_eq_foldlM hroot]
    exact htrodden.walk_path hstay

/-! ### A walk that goes up and down -/

/-- The passage of a walk that only a missing name can stop. -/
def Passage.free : Passage where
  enter _ := true
  stay _ := true

/-- A file in a directory, and an empty directory beside it. -/
def twoDirectories : Node :=
  .directory 0o755 [([0x61], .directory 0o755 [([0x66], .leaf 0)]), ([0x62], .directory 0o755 [])]

theorem linkFree_twoDirectories : twoDirectories.LinkFree := by
  refine linkFree_directory ?_
  intro entry hentry
  rcases List.mem_cons.mp hentry with rfl | hentry
  · exact linkFree_directory (by simpa using linkFree_leaf 0)
  · rw [List.mem_singleton.mp hentry]
    exact linkFree_directory (List.forall_mem_nil _)

/-- From the empty directory a path leads up, down to the file, up from the file and back to it. -/
theorem walk_resolve_twoDirectories :
    reach? .free twoDirectories 0 (Text.Utf8.encode "/b") (Text.Utf8.encode "../a//./f/../f/") =
        some [[0x61], [0x66]] ∧
      twoDirectories.walk .free 0 [] (pieces (Text.Utf8.encode "/a/f")) =
        some [[0x61], [0x66]] := by
  have hreach : reach? .free twoDirectories 0 (Text.Utf8.encode "/b")
      (Text.Utf8.encode "../a//./f/../f/") = some [[0x61], [0x66]] := rfl
  obtain ⟨r, node, hr, hwalk, -⟩ := walk_resolve linkFree_twoDirectories .free 0 rfl hreach
  have hresolved : Path.resolve (.ok (Text.Utf8.encode "/b") : Except SystemError Path)
      (Text.Utf8.encode "../a//./f/../f/") = .ok (Text.Utf8.encode "/a/f") := rfl
  rw [hresolved] at hr
  cases hr
  exact ⟨hreach, hwalk⟩

end Intake.Node
