import SourceSurvey.Proofs.Pipeline.Discovered

/-!
# What discovery finds

Below a root that is a directory the walk goes from entry to entry: it enters real directories, leaves
out hidden names if it is told to, and follows no link (`Discovery.Visits`). In a tree in which every
node stands once and in a directory (`Tree.Sound`) it comes to the nodes below whose names are shown
(`Discovery.mem_visited_iff`).

* `Discovery.discover_exact`: a directory whose path is too long ends the discovery; otherwise the
  accepted files of all roots are found, each once and in order.
-/

namespace SourceSurvey

open SourceSurvey.Path (IsName)

/-- Every node stands there once, under names, and in a directory. -/
structure Tree.Sound (t : Tree) : Prop where
  once : ∀ e ∈ t.nodes, t.find? e.1 = some e.2
  parent : ∀ e ∈ t.nodes, t.find? e.1.dropLast = some .directory
  names : ∀ e ∈ t.nodes, ∀ name ∈ e.1, IsName name

theorem Tree.Sound.rooted {t : Tree} (h : t.Sound) (home : Place) : t.Rooted home where
  once e he _ := h.once e he
  parent e he _ := h.parent e he
  names e he _ := h.names e he

namespace Discovery

variable {d : Discovery} {t : Tree} {roots : List Path} {root p : Path} {place : Place}
  {names : List String}

/-! ## The walk below a root -/

/-- No name starts with a dot if hidden names are skipped. -/
def Shown (d : Discovery) (names : List String) : Prop :=
  d.skipHidden = true → ∀ name ∈ names, name.toList.head? ≠ some '.'

theorem isHidden_nameBytes {name : String} :
    isHidden (nameBytes name) = true ↔ name.toList.head? = some '.' := by
  unfold isHidden nameBytes
  rw [Text.decode?_encode, decide_eq_true_iff]

theorem shows_iff : d.shows (names.map nameBytes) = true ↔ d.Shown names := by
  unfold shows Shown
  rw [Bool.or_eq_true, Bool.not_eq_true', Bool.not_eq_true', List.any_map, List.any_eq_false]
  simp only [Function.comp_apply, isHidden_nameBytes]
  cases d.skipHidden <;> simp

theorem shown_nil : d.Shown [] := fun _ => nofun

theorem shown_concat {name : String} : d.Shown (names ++ [name]) ↔ d.Shown names ∧ d.Shown [name] := by
  unfold Shown
  simp only [List.forall_mem_append, imp_and]

/-- The names that lead from a place to the entries that are visited below it. Only real directories
are entered, and no entry with a hidden name is visited if hidden names are skipped. -/
inductive Visits (d : Discovery) (t : Tree) (place : Place) : List String → Prop
  | start : Visits d t place []
  | entry {names : List String} {name : String} {n : Node} (above : Visits d t place names)
      (directory : t.find? (place ++ names) = some .directory)
      (present : t.find? (place ++ (names ++ [name])) = some n)
      (shown : d.Shown [name]) : Visits d t place (names ++ [name])

/-- Every name but the last one is that of a real directory. -/
def Through (t : Tree) (place : Place) (names : List String) : Prop :=
  ∀ above, above <+: names → above ≠ names → t.find? (place ++ above) = some .directory

theorem through_nil : Through t place [] := fun _ habove hne =>
  absurd (List.prefix_nil.mp habove) hne

theorem through_concat {name : String} :
    Through t place (names ++ [name]) ↔
      Through t place names ∧ t.find? (place ++ names) = some .directory := by
  constructor
  · intro h
    refine ⟨fun above habove hne => h above (habove.trans (List.prefix_append _ _)) ?_,
      h names (List.prefix_append _ _) (by simp)⟩
    rintro rfl
    exact absurd habove.length_le (by simp)
  · rintro ⟨h, hd⟩ above habove hne
    rcases List.prefix_concat_iff.mp habove with rfl | habove
    · exact absurd rfl hne
    · by_cases heq : above = names
      · rw [heq]
        exact hd
      · exact h above habove heq

/-- What is visited: shown names over real directories. -/
theorem visits_iff (hpresent : ∃ n, t.find? (place ++ names) = some n) :
    d.Visits t place names ↔ Through t place names ∧ d.Shown names := by
  constructor
  · intro h
    induction h with
    | start => exact ⟨through_nil, shown_nil⟩
    | entry above directory present shown ih =>
      obtain ⟨hthrough, hshown⟩ := ih ⟨_, directory⟩
      exact ⟨through_concat.mpr ⟨hthrough, directory⟩, shown_concat.mpr ⟨hshown, shown⟩⟩
  · rintro ⟨hthrough, hshown⟩
    induction names using List.reverseRecOn with
    | nil => exact .start
    | append_singleton names name ih =>
      obtain ⟨hthrough, directory⟩ := through_concat.mp hthrough
      obtain ⟨hshown, hname⟩ := shown_concat.mp hshown
      obtain ⟨n, present⟩ := hpresent
      exact .entry (ih ⟨_, directory⟩ hthrough hshown) directory present hname

/-- The walk comes to the nodes below a place that are visited. -/
theorem mem_visited_iff (sound : t.Sound) {n : Node} :
    (names, n) ∈ d.visited nameBytes t.nodes place ↔
      names ≠ [] ∧ d.Visits t place names ∧ t.find? (place ++ names) = some n := by
  rw [mem_visited, shows_iff]
  constructor
  · rintro ⟨ne, mem, shown⟩
    have hnode := sound.once _ mem
    have hthrough : Through t place names := fun above habove hne =>
      (sound.rooted (place ++ names)).directory hnode (fun hb => hb.2 rfl)
        ((List.prefix_append_right_inj _).mpr habove) fun he => hne (List.append_cancel_left he)
    exact ⟨ne, (visits_iff ⟨_, hnode⟩).mpr ⟨hthrough, shown⟩, hnode⟩
  · rintro ⟨ne, hvisits, hnode⟩
    exact ⟨ne, Tree.mem_nodes_of_find? (by simp [ne]) hnode, ((visits_iff ⟨_, hnode⟩).mp hvisits).2⟩

/-- Below a root that leads to a directory, names lead over real directories to a node, and none of
them is hidden if hidden names are skipped. -/
inductive Meets (d : Discovery) (t : Tree) (root : Path) (names : List String) (n : Node) : Prop
  | below {place : Place} (directory : t.locate root = .ok (place, .directory)) (ne : names ≠ [])
      (through : Through t place names) (node : t.find? (place ++ names) = some n)
      (shown : d.Shown names)

/-- The walk below a root comes to what stands there and to nothing else. -/
theorem mem_visited_meets (sound : t.Sound) (directory : t.locate root = .ok (place, .directory))
    {n : Node} : (names, n) ∈ d.visited nameBytes t.nodes place ↔ d.Meets t root names n := by
  rw [mem_visited_iff sound]
  constructor
  · rintro ⟨ne, hvisits, hnode⟩
    obtain ⟨through, shown⟩ := (visits_iff ⟨_, hnode⟩).mp hvisits
    exact .below directory ne through hnode shown
  · rintro ⟨directory', ne, through, hnode, shown⟩
    obtain ⟨rfl, -⟩ := Prod.mk.inj (Except.ok.inj (directory.symm.trans directory'))
    exact ⟨ne, (visits_iff ⟨_, hnode⟩).mpr ⟨through, shown⟩, hnode⟩

/-! ## Directories that cannot be read -/

/-- The walk below a root comes to a directory whose path is longer than the system takes. -/
def Overlong (d : Discovery) (t : Tree) (root p : Path) : Prop :=
  ∃ names, d.Meets t root names .directory ∧ p = pathBelow root names ∧
    Tree.pathLimit < p.text.utf8ByteSize

theorem isLong_iff : isLong p = true ↔ Tree.pathLimit < p.text.utf8ByteSize := by
  unfold isLong
  exact decide_eq_true_iff

theorem overlong_of_unreadable (sound : t.Sound) (h : d.unreadable? t root = some p) :
    d.Overlong t root p := by
  unfold unreadable? at h
  split at h
  · rename_i place hl
    obtain ⟨⟨names, n⟩, hvisited, h⟩ := List.exists_of_findSome?_eq_some h
    dsimp only at h
    split at h
    · rename_i hc
      rw [Bool.and_eq_true, Bool.and_eq_true, decide_eq_true_iff, isLong_iff] at hc
      obtain ⟨⟨rfl, long⟩, -⟩ := hc
      obtain rfl := Option.some.inj h
      exact ⟨names, (mem_visited_meets sound hl).mp hvisited, rfl, long⟩
    · exact nomatch h
  · exact nomatch h

/-- Above a directory whose path is too long, the walk has ended at the first such directory. -/
theorem unreadable_of_overlong (sound : t.Sound) (h : d.Overlong t root p) :
    ∃ q, d.unreadable? t root = some q := by
  obtain ⟨names, hmeets, rfl, long⟩ := h
  induction names using List.reverseRecOn with
  | nil =>
    obtain ⟨-, ne, -⟩ := hmeets
    exact absurd rfl ne
  | append_singleton above name ih =>
    obtain ⟨hl, -, through, node, shown⟩ := hmeets
    obtain ⟨through, directory⟩ := through_concat.mp through
    by_cases hlong : isLong (pathBelow root above) = true
    · refine ih (.below hl ?_ through directory (shown_concat.mp shown).1) (isLong_iff.mp hlong)
      rintro rfl
      exact absurd (isLong_iff.mp hlong) (Nat.not_lt.mpr (Tree.nameable_of_locate hl).within.not_long)
    · rw [← Option.isSome_iff_exists]
      unfold unreadable?
      rw [hl]
      refine List.findSome?_isSome_iff.mpr ⟨(above ++ [name], .directory), ?_, ?_⟩
      · refine (mem_visited_meets sound hl).mpr (.below hl (by simp) ?_ node shown)
        exact through_concat.mpr ⟨through, directory⟩
      · dsimp only
        rw [List.dropLast_concat, if_pos]
        · rfl
        · simp [isLong_iff.mpr long, hlong]

theorem readable_iff (sound : t.Sound) :
    d.Readable t roots ↔ ∀ root ∈ roots, ∀ p, ¬ d.Overlong t root p := by
  constructor
  · intro h root hroot p hp
    obtain ⟨q, hq⟩ := unreadable_of_overlong sound hp
    exact nomatch (h root hroot).symm.trans hq
  · intro h root hroot
    rcases hu : d.unreadable? t root with - | p
    · rfl
    · exact absurd (overlong_of_unreadable sound hu) (h root hroot p)

/-! ## The files of all roots -/

/-- The patterns pass a path: one for inclusion, if there are any, and none for exclusion. -/
def Passes (d : Discovery) (p : Path) : Prop :=
  (d.included = [] ∨ ∃ g ∈ d.included, g.accepts p.text = true) ∧
    ∀ g ∈ d.excluded, g.accepts p.text = false

theorem accepts_iff : d.accepts p = true ↔ d.Passes p := by
  simp [accepts, Passes]

/-- A root leads by a path to a regular file: the root is one, or it is a directory, and the names
behind it are those of real directories and of a regular file, none of them hidden if hidden names
are skipped. -/
inductive Leads (d : Discovery) (t : Tree) : Path → Path → Prop
  | root {root : Path} {place : Place} {bytes : List UInt8} {changed : Instant}
      (file : t.locate root = .ok (place, .file bytes changed)) : Leads d t root root
  | below {root : Path} {names : List String} {bytes : List UInt8} {changed : Instant}
      (file : d.Meets t root names (.file bytes changed)) : Leads d t root (pathBelow root names)

theorem Finds.leads (h : d.Finds t root p place) (sound : t.Sound) :
    d.Passes p ∧ d.Leads t root p := by
  cases h with
  | root file accepted => exact ⟨accepts_iff.mp accepted, .root file⟩
  | below directory ne mem shown accepted =>
    have hvisited := mem_visited.mpr ⟨ne, mem, shown⟩
    exact ⟨accepts_iff.mp accepted, .below ((mem_visited_meets sound directory).mp hvisited)⟩

/-- The accepted files of a root. -/
theorem mem_filesOf_iff (sound : t.Sound) :
    p ∈ d.filesOf t root ↔ d.Passes p ∧ d.Leads t root p := by
  constructor
  · intro h
    obtain ⟨place, hfinds⟩ := mem_filesOf h
    exact hfinds.leads sound
  · rintro ⟨passes, hleads⟩
    have accepted := accepts_iff.mpr passes
    unfold filesOf
    cases hleads with
    | root file =>
      rw [file]
      dsimp only
      rw [if_pos accepted]
      exact List.mem_singleton_self _
    | below file =>
      obtain ⟨directory, -⟩ := id file
      rw [directory]
      refine List.mem_filterMap.mpr ⟨_, (mem_visited_meets sound directory).mpr file, ?_⟩
      exact if_pos accepted

/-- The accepted files of all roots stand in order. -/
theorem run_increasing (d : Discovery) (t : Tree) (roots : List Path) :
    (d.run t roots).Pairwise fun p q => p.order q = .lt := by
  have hsorted := PathMap.sorted_empty.foldl_insert
    ((roots.flatMap (d.filesOf t)).map fun p => (p, ()))
  rw [List.foldl_map] at hsorted
  exact List.pairwise_map.mpr hsorted

/-- A path with the components of an accepted file of a root is found. -/
theorem exists_mem_run (hroot : root ∈ roots) (hp : p ∈ d.filesOf t root) :
    ∃ q ∈ d.run t roots, p.same q = true := by
  have hmem : (p, ()) ∈ (roots.flatMap (d.filesOf t)).map fun p => (p, ()) :=
    List.mem_map_of_mem (List.mem_flatMap.mpr ⟨root, hroot, hp⟩)
  have hcontains := PathMap.contains_foldl_insert (m := .empty) (.inr ⟨_, hmem, Path.same_refl p⟩)
  rw [List.foldl_map] at hcontains
  exact PathMap.contains_iff.mp hcontains

/-- The components of what is found are those of the accepted files of the roots. -/
theorem mem_components_run (sound : t.Sound) {cs : List Component} :
    cs ∈ (d.run t roots).map Path.components ↔
      ∃ p, p.components = cs ∧ d.Passes p ∧ ∃ root ∈ roots, d.Leads t root p := by
  constructor
  · intro h
    obtain ⟨p, hp, rfl⟩ := List.mem_map.mp h
    obtain ⟨root, hroot, place, hfinds⟩ := mem_run hp
    obtain ⟨passes, hleads⟩ := hfinds.leads sound
    exact ⟨p, rfl, passes, root, hroot, hleads⟩
  · rintro ⟨p, rfl, passes, root, hroot, hleads⟩
    obtain ⟨q, hq, hs⟩ := exists_mem_run hroot ((mem_filesOf_iff sound).mpr ⟨passes, hleads⟩)
    rw [Path.same_iff.mp hs]
    exact List.mem_map_of_mem hq

/-- What is found are the paths that pass the patterns and by which a root leads to a regular file,
one for each list of components, in order. -/
theorem run_exact (sound : t.Sound) (d : Discovery) (roots : List Path) :
    (d.run t roots).Pairwise (fun p q => p.order q = .lt) ∧
    (∀ p ∈ d.run t roots, d.Passes p ∧ ∃ root ∈ roots, d.Leads t root p) ∧
    ∀ p, (∃ q ∈ d.run t roots, q.same p = true) ↔
      ∃ q, q.same p = true ∧ d.Passes q ∧ ∃ root ∈ roots, d.Leads t root q := by
  refine ⟨run_increasing d t roots, fun p hp => ?_, fun p => ?_⟩
  · obtain ⟨root, hroot, place, hfinds⟩ := mem_run hp
    obtain ⟨passes, hleads⟩ := hfinds.leads sound
    exact ⟨passes, root, hroot, hleads⟩
  · simp only [Path.same_iff]
    rw [← mem_components_run sound, List.mem_map]

/-- The number and the order of the roots do not matter. -/
theorem run_same_roots (sound : t.Sound) (d : Discovery) {roots' : List Path}
    (hroots : ∀ root, root ∈ roots' ↔ root ∈ roots) :
    (d.run t roots').map Path.components = (d.run t roots).map Path.components := by
  refine Path.eq_of_increasing id (List.pairwise_map.mpr (run_increasing d t roots'))
    (List.pairwise_map.mpr (run_increasing d t roots)) fun cs => ?_
  rw [mem_components_run sound, mem_components_run sound]
  simp only [hroots]

/-- A directory with a file, a link to it and a hidden directory, and a link to all of this. -/
def yard : Tree where
  nodes := [(["d"], .directory), (["d", "x"], .file [] ⟨0, 0⟩), (["d", "l"], .link "x"),
    (["d", ".h"], .directory), (["d", ".h", "y"], .file [] ⟨0, 0⟩), (["r"], .link "d")]
  now := ⟨0, 0⟩

theorem locate_yard :
    yard.locate ⟨"r"⟩ = .ok (["d"], .directory) ∧
      yard.locate ⟨"d/.h"⟩ = .ok (["d", ".h"], .directory) := by
  constructor <;> refine Tree.locate_of_resolve ?_
  · rw [Tree.resolve_eq ⟨by decide, by decide⟩ (by decide),
      show (⟨"r"⟩ : Path).pieces = ["r"] by decide, show yard.start ⟨"r"⟩ = [] by decide,
      show Tree.linkLimit = 39 + 1 from rfl,
      Tree.walk_link (.of_name (by decide) (by decide)) rfl (by decide),
      show (⟨"d"⟩ : Path).pieces ++ [] = ["d"] by decide, if_neg (by decide),
      Tree.walk_directory (.of_name (by decide) (by decide)) rfl, Tree.walk]
    rfl
  · rw [Tree.resolve_eq ⟨by decide, by decide⟩ (by decide),
      show (⟨"d/.h"⟩ : Path).pieces = ["d", ".h"] by decide, show yard.start ⟨"d/.h"⟩ = [] by decide,
      Tree.walk_directory (.of_name (by decide) (by decide)) rfl,
      Tree.walk_directory (.of_name (by decide) (by decide)) rfl, Tree.walk]
    rfl

/-- The current directory, written with many dots and slashes. -/
def here (n : Nat) : Path := ⟨"/".intercalate (List.replicate n "." ++ [""])⟩

theorem text_here_succ (n : Nat) : (here (n + 1)).text = "./" ++ (here n).text := by
  unfold here
  rw [List.replicate_succ, List.cons_append, String.intercalate_cons_of_ne_nil (by simp)]
  rfl

theorem utf8ByteSize_here (n : Nat) : (here n).text.utf8ByteSize = 2 * n := by
  induction n with
  | zero => rfl
  | succ n ih =>
    rw [text_here_succ, String.utf8ByteSize_append, ih, show "./".utf8ByteSize = 2 from rfl]
    omega

theorem no_nul_here (n : Nat) : '\x00' ∉ (here n).text.toList := by
  induction n with
  | zero => decide
  | succ n ih =>
    rw [text_here_succ, String.toList_append, List.mem_append]
    rintro (h | h)
    · exact absurd h (by decide)
    · exact ih h

theorem pieces_here (n : Nat) : (here n).pieces = List.replicate n "." ++ [""] := by
  refine Path.pieces_intercalate (by simp) fun name hname => ?_
  rcases List.mem_append.mp hname with h | h
  · rw [List.eq_of_mem_replicate h]
    decide
  · rw [List.mem_singleton.mp h]
    decide

theorem walk_here (links n : Nat) :
    t.walk true links place (List.replicate n "." ++ [""]) = .ok (.found place .directory) := by
  induction n with
  | zero => rw [List.replicate_zero, List.nil_append, Tree.walk_idle (by decide), Tree.walk]
  | succ n ih => rw [List.replicate_succ, List.cons_append, Tree.walk_idle (by decide), ih]

/-- The current directory is found under dots and slashes, if there are not too many of them. -/
theorem locate_here {n : Nat} (pos : 0 < n) (short : 2 * n ≤ Tree.pathLimit) :
    t.locate (here n) = .ok (t.current, .directory) := by
  obtain ⟨k, rfl⟩ := Nat.exists_eq_succ_of_ne_zero pos.ne'
  have hstart : t.start (here (k + 1)) = t.current := by
    refine if_neg ?_
    unfold Path.isAbsolute
    rw [text_here_succ, String.toList_append, show "./".toList = ['.', '/'] from rfl,
      List.cons_append, List.head?_cons]
    decide
  have he : (here (k + 1)).text ≠ "" := by
    intro he
    have hsize := utf8ByteSize_here (k + 1)
    rw [he, String.utf8ByteSize_empty] at hsize
    omega
  refine Tree.locate_of_resolve ?_
  have within : (here (k + 1)).WithinLimits :=
    ⟨no_nul_here _, (utf8ByteSize_here _).trans_le short⟩
  rw [Tree.resolve_eq within he, hstart, pieces_here, walk_here]
  rfl

/-- A name of a hundred letters. -/
def deep : String := String.ofList (List.replicate 100 'd')

/-- A directory with a long name and a file in it. -/
def well : Tree where
  nodes := [([deep], .directory), ([deep, "a.py"], .file [] ⟨0, 0⟩)]
  now := ⟨0, 0⟩

theorem sound_well : well.Sound := ⟨by decide, by decide, by decide⟩

end Discovery
end SourceSurvey
