import SourceSurvey.Discovery
import SourceSurvey.Proofs.Cache.Home
import SourceSurvey.Proofs.PathMap

/-!
# Discovered files

A discovered file is one that a root leads to or that stands below a directory that a root leads to
(`Discovery.Finds`), and no walk below a root has come to a directory that cannot be read
(`Discovery.discover_cases`). Each path is discovered once (`Discovery.run_distinct`). In a rooted tree it
leads to the place of its file, unless the system does not take it (`Discovery.mem_run_cases`), and
it does so as long as nothing but the files of a home change where no discovered file stands
(`Discovery.locate_rewrites`).
-/

namespace SourceSurvey

open SourceSurvey.Tree (Houses Rewrites)

namespace Discovery

variable {d : Discovery} {t t' : Tree} {roots : List Path} {root p dir : Path} {home place : Place}

/-! ## Places of discovered files -/

/-- A root leads by a path to an accepted file at a place. -/
inductive Finds (d : Discovery) (t : Tree) (root : Path) : Path → Place → Prop
  | root {place : Place} {bytes : List UInt8} {changed : Instant}
      (h : t.locate root = .ok (place, .file bytes changed)) (accepted : d.accepts root = true) :
      Finds d t root root place
  | below {place : Place} {names : List String} {bytes : List UInt8} {changed : Instant}
      (h : t.locate root = .ok (place, .directory)) (ne : names ≠ [])
      (mem : (place ++ names, .file bytes changed) ∈ t.nodes)
      (shown : d.shows (names.map nameBytes) = true)
      (accepted : d.accepts (pathBelow root names) = true) :
      Finds d t root (pathBelow root names) (place ++ names)

/-- No discovered file stands below a home. -/
def Avoids (d : Discovery) (home : Place) (t : Tree) (roots : List Path) : Prop :=
  ∀ root ∈ roots, ∀ p place, d.Finds t root p place → ¬ Below home place

theorem mem_entriesBelow {ν : Type} [BEq ν] [LawfulBEq ν] {nodes : List (List ν × Node)}
    {place names : List ν} {node : Node} :
    (names, node) ∈ entriesBelow nodes place ↔ names ≠ [] ∧ (place ++ names, node) ∈ nodes := by
  unfold entriesBelow
  rw [List.mem_filterMap]
  constructor
  · rintro ⟨⟨q, node'⟩, hq, h⟩
    dsimp only at h
    split at h
    · rename_i hc
      rw [Bool.and_eq_true, List.isPrefixOf_iff_prefix, bne_iff_ne] at hc
      obtain ⟨⟨rest, rfl⟩, hne⟩ := hc
      rw [List.drop_left] at h
      obtain ⟨rfl, rfl⟩ := Prod.mk.inj (Option.some.inj h)
      refine ⟨?_, hq⟩
      rintro rfl
      exact hne (List.append_nil _)
    · exact nomatch h
  · rintro ⟨hne, hmem⟩
    refine ⟨_, hmem, ?_⟩
    dsimp only
    rw [if_pos, List.drop_left]
    rw [Bool.and_eq_true, List.isPrefixOf_iff_prefix, bne_iff_ne]
    exact ⟨List.prefix_append _ _, fun he => hne (List.append_right_eq_self.mp he)⟩

/-- What the walk comes to below a place. -/
theorem mem_visited {ν : Type} [BEq ν] [LawfulBEq ν] {bytes : ν → List UInt8}
    {nodes : List (List ν × Node)} {place names : List ν} {node : Node} :
    (names, node) ∈ d.visited bytes nodes place ↔
      names ≠ [] ∧ (place ++ names, node) ∈ nodes ∧ d.shows (names.map bytes) = true := by
  unfold visited
  rw [List.mem_filter, mem_entriesBelow, and_assoc]

theorem mem_filesOf (h : p ∈ d.filesOf t root) : ∃ place, d.Finds t root p place := by
  unfold filesOf at h
  split at h
  · exact nomatch h
  · exact nomatch h
  · rename_i place bytes changed hl
    split at h
    · rename_i accepted
      rw [List.mem_singleton.mp h]
      exact ⟨place, .root hl accepted⟩
    · exact nomatch h
  · rename_i place hl
    obtain ⟨⟨names, node⟩, hvisited, h⟩ := List.mem_filterMap.mp h
    obtain ⟨ne, mem, shown⟩ := mem_visited.mp hvisited
    dsimp only at h
    split at h
    · rename_i bytes changed
      split at h
      · rename_i accepted
        rw [← Option.some.inj h]
        exact ⟨place ++ names, .below hl ne mem shown accepted⟩
      · exact nomatch h
    · exact nomatch h

theorem mem_run (h : p ∈ d.run t roots) : ∃ root ∈ roots, ∃ place, d.Finds t root p place := by
  have hkeys (ps : List Path) (m : PathMap Unit)
      (hp : p ∈ (ps.foldl (fun m p => m.insert p ()) m).keys) : p ∈ ps ∨ p ∈ m.keys := by
    induction ps generalizing m with
    | nil => exact .inr hp
    | cons q ps ih =>
      rcases ih _ hp with hp | hp
      · exact .inl (List.mem_cons_of_mem _ hp)
      · rcases PathMap.mem_keys_insert hp with rfl | hp
        · exact .inl List.mem_cons_self
        · exact .inr hp
  rcases hkeys _ _ h with h | h
  · obtain ⟨root, hroot, hp⟩ := List.mem_flatMap.mp h
    exact ⟨root, hroot, mem_filesOf hp⟩
  · exact nomatch h

/-- Each path is discovered once. -/
theorem run_distinct (d : Discovery) (t : Tree) (roots : List Path) :
    (d.run t roots).Pairwise fun p q => p.same q = false := by
  have hfold (ps : List Path) (m : PathMap Unit) (hm : m.Sorted) :
      (ps.foldl (fun m p => m.insert p ()) m).Sorted := by
    induction ps generalizing m with
    | nil => exact hm
    | cons p ps ih => exact ih _ (hm.insert p ())
  exact List.pairwise_map.mpr (hfold _ _ PathMap.sorted_empty).distinct

/-- The walks below some roots come to no directory that cannot be read. -/
def Readable (d : Discovery) (t : Tree) (roots : List Path) : Prop :=
  ∀ root ∈ roots, d.unreadable? t root = none

/-- Discovery fails at a directory that cannot be read, or finds the accepted files. -/
theorem discover_cases (d : Discovery) (t : Tree) (roots : List Path) :
    (∃ root ∈ roots, ∃ p, d.unreadable? t root = some p ∧
        d.discover t roots = .error (failure root p)) ∨
      d.Readable t roots ∧ d.discover t roots = .ok (d.run t roots) := by
  unfold discover
  split
  case h_1 e h =>
    obtain ⟨root, hroot, h⟩ := List.exists_of_findSome?_eq_some h
    obtain ⟨p, hp, rfl⟩ := Option.map_eq_some_iff.mp h
    exact .inl ⟨root, hroot, p, hp, rfl⟩
  case h_2 h =>
    refine .inr ⟨fun root hroot => ?_, rfl⟩
    exact Option.map_eq_none_iff.mp (List.findSome?_eq_none_iff.mp h root hroot)

theorem discover_of_readable (h : d.Readable t roots) : d.discover t roots = .ok (d.run t roots) := by
  rcases d.discover_cases t roots with ⟨root, hroot, p, hp, -⟩ | ⟨-, hok⟩
  · exact nomatch (h root hroot).symm.trans hp
  · exact hok

/-! ## Where discovered paths lead -/

/-- The path of a discovered file reaches the file. -/
theorem Finds.reaches (h : d.Finds t root p place) (rooted : t.Rooted home)
    (hout : ¬ Below home place) :
    ∃ bytes changed, t.find? place = some (.file bytes changed) ∧
      t.Reaches p place (.file bytes changed) := by
  cases h with
  | root h accepted =>
    exact ⟨_, _, Tree.find?_of_locate h, .inl ⟨Tree.nameable_of_locate h, h⟩⟩
  | below h ne mem shown accepted =>
    have hf := rooted.once _ mem hout
    exact ⟨_, _, hf, rooted.locate_below h hf hout ne⟩

/-- What is discovered outside of a home is discovered when the files of the home have changed. -/
theorem Finds.rewrites (h : d.Finds t root p place) (hout : ¬ Below home place)
    (houses : t.Houses dir home) (hw : Rewrites home t t') : d.Finds t' root p place := by
  cases h with
  | root h accepted =>
    refine .root (Tree.locate_mono h hw.current fun q m hf hk => hw.keep houses hf ?_) accepted
    rcases hk with hk | rfl
    · exact .inl hk
    · exact .inr hout
  | below h ne mem shown accepted =>
    refine .below (Tree.locate_mono h hw.current fun q m hf hk => hw.keep houses hf ?_)
      ne ((hw.nodes _ hout).mpr mem) shown accepted
    rcases hk with hk | rfl
    · exact .inl hk
    · exact .inr (Tree.not_below_ancestor hout (List.prefix_append _ _))

/-- A discovered path leads to its file, unless the system does not take it. -/
theorem mem_run_cases (rooted : t.Rooted home) (avoids : d.Avoids home t roots)
    (hp : p ∈ d.run t roots) :
    (p.Nameable ∧ ∃ place bytes changed, ¬ Below home place ∧
        t.locate p = .ok (place, .file bytes changed)) ∨
      ¬ p.Nameable ∧ t.locate p = .error p.refusal := by
  obtain ⟨root, hroot, place, hfinds⟩ := mem_run hp
  have hout := avoids root hroot p place hfinds
  obtain ⟨bytes, changed, -, ⟨hn, hl⟩ | hr⟩ := hfinds.reaches rooted hout
  · exact .inl ⟨hn, place, bytes, changed, hout, hl⟩
  · exact .inr hr

/-- A discovered path leads where it led when the files of the home have changed. -/
theorem locate_rewrites (rooted : t.Rooted home) (avoids : d.Avoids home t roots)
    (hp : p ∈ d.run t roots) (houses : t.Houses dir home) (hw : Rewrites home t t') :
    t'.locate p = t.locate p := by
  obtain ⟨root, hroot, place, hfinds⟩ := mem_run hp
  have hout := avoids root hroot p place hfinds
  obtain ⟨bytes, changed, hf, hr⟩ := hfinds.reaches rooted hout
  obtain ⟨bytes', changed', hf', hr'⟩ :=
    (hfinds.rewrites hout houses hw).reaches (rooted.within hw.toWithin) hout
  rw [hw.outside place hout, hf] at hf'
  obtain ⟨rfl, rfl⟩ := Node.file.inj (Option.some.inj hf')
  rcases hr with ⟨hn, hl⟩ | ⟨hn, hl⟩
  · rcases hr' with ⟨-, hl'⟩ | ⟨hn', -⟩
    · rw [hl', hl]
    · exact absurd hn hn'
  · rcases hr' with ⟨hn', -⟩ | ⟨-, hl'⟩
    · exact absurd hn' hn
    · rw [hl', hl]

end Discovery
end SourceSurvey
