import Mathlib.Data.List.Forall2
import SourceSurvey.Proofs.PathMap
import SourceSurvey.Proofs.Text
import SourceSurvey.Relationship

/-!
# Relationships of a growing set of modules

What an edge says comes from the module that declares it. The other modules of the set have a say in
one thing, whether its target is known (`Module.edges_eq`), so modules that join the set add their own
edges and resolve some of the others.

* `PathMap.values_kept`: a map that agrees with a smaller one on its keys has its values in its order,
  with further ones between them.
* `KnownNames.resolves_ofModules`: which targets are known.
* `PathMap.edges_extended`: the edges of a set of modules among those of a larger one.
-/

namespace SourceSurvey

open KnownNames (lastSegment)

/-! ## Maps that agree -/

namespace PathMap

variable {α : Type} {m n : PathMap α} {p : Path} {a : α}

/-- The second map agrees with the first one on the keys of the first one. -/
def Agrees (m n : PathMap α) : Prop := ∀ p, m.contains p = true → n.get? p = m.get? p

/-- The values of the second map at paths that the first one lacks, in order. -/
def added (m n : PathMap α) : List α := (n.entries.filter (!m.contains ·.1)).map Prod.snd

/-- A map agrees with itself after a new path was inserted. -/
theorem agrees_insert (h : m.contains p = false) : m.Agrees (m.insert p a) := by
  intro q hq
  have hqp : q.same p = false := by
    by_contra hs
    rw [Bool.not_eq_false] at hs
    rw [contains_eq_isSome, m.get?_congr hs, ← contains_eq_isSome, h] at hq
    exact nomatch hq
  rw [get?_insert, hqp, if_neg Bool.false_ne_true]

/-- The components of the path of an entry, and its value. -/
def keyed (e : Path × α) : List Component × α := (e.1.components, e.2)

theorem Sorted.increasing {m : PathMap α} (h : m.Sorted) (keep : Path × α → Bool) :
    ((m.entries.filter keep).map keyed).Pairwise fun a b =>
      Path.orderComponents a.1 b.1 = .lt :=
  List.pairwise_map.mpr (List.Pairwise.filter keep h)

/-- A map that agrees with a smaller one on its keys has its values there, in the same order. -/
theorem values_kept (hm : m.Sorted) (hn : n.Sorted) (h : m.Agrees n) :
    (n.entries.filter (m.contains ·.1)).map Prod.snd = m.values := by
  have hkeyed : (n.entries.filter (m.contains ·.1)).map keyed = m.entries.map keyed := by
    have hall := hm.increasing fun _ => true
    rw [List.filter_true] at hall
    refine Path.eq_of_increasing Prod.fst (hn.increasing _) hall fun e => ?_
    simp only [List.mem_map, List.mem_filter]
    constructor
    · rintro ⟨e, ⟨he, hc⟩, rfl⟩
      obtain ⟨q, hq, hs⟩ := exists_of_get? ((h e.1 hc).symm.trans (hn.get?_of_mem he))
      exact ⟨(q, e.2), hq, Prod.ext (Path.same_iff.mp hs).symm rfl⟩
    · rintro ⟨e, he, rfl⟩
      have hc : m.contains e.1 = true := by
        rw [contains_eq_isSome, hm.get?_of_mem he]
        rfl
      obtain ⟨q, hq, hs⟩ := exists_of_get? ((h e.1 hc).trans (hm.get?_of_mem he))
      refine ⟨(q, e.2), ⟨hq, ?_⟩, Prod.ext (Path.same_iff.mp hs).symm rfl⟩
      rwa [contains_eq_isSome, ← m.get?_congr hs, ← contains_eq_isSome]
  have hsnd := congrArg (List.map Prod.snd) hkeyed
  rwa [List.map_map, List.map_map] at hsnd

/-- The values of the larger map are those of the smaller one and the added ones. -/
theorem mem_values_iff (hm : m.Sorted) (hn : n.Sorted) (h : m.Agrees n) :
    a ∈ n.values ↔ a ∈ m.values ∨ a ∈ m.added n := by
  have hperm := (List.filter_append_perm (fun e => m.contains e.1) n.entries).map Prod.snd
  rw [List.map_append, values_kept hm hn h] at hperm
  rw [values, ← hperm.mem_iff, List.mem_append]
  rfl

end PathMap

/-! ## Known targets -/

namespace KnownNames

/-- Dots in front of a name do not change its last segment. -/
theorem lastSegment_dropWhile (name : List Char) :
    lastSegment (name.dropWhile (· == '.')) = lastSegment name := by
  induction name with
  | nil => rfl
  | cons c name ih =>
    by_cases hc : (c == '.') = true
    · have hlast : Text.lastField (· == '.') (c :: name) = Text.lastField (· == '.') name := by
        unfold Text.lastField Text.firstField
        rw [List.reverse_cons, List.takeWhile_append]
        split
        · rename_i hlength
          rw [(List.takeWhile_prefix _).eq_of_length hlength]
          simp [hc]
        · rfl
      rw [List.dropWhile_cons, if_pos hc, ih, lastSegment, lastSegment, hlast]
    · rw [List.dropWhile_cons, if_neg hc]

/-- Whether the target of an edge is known; a containing element always knows what it contains. -/
def resolves (k : KnownNames) (e : Edge) : Bool :=
  match e.kind with
  | .contains => true
  | .imports => k.hasModule e.target
  | .inherits => k.hasClass e.target

end KnownNames

/-- Whether a module is what an import names, or has the class that a base names. -/
def Module.Provides (m : Module) (e : Edge) : Prop :=
  match e.kind with
  | .contains => False
  | .imports => m.name = lastSegment e.target.toList
  | .inherits => ∃ c ∈ m.classes, c.name = lastSegment e.target.toList

/-- An edge is resolved if it says that something is contained or some module provides its target. -/
theorem KnownNames.resolves_ofModules {ms : List Module} {e : Edge} :
    (ofModules ms).resolves e = true ↔ e.kind = .contains ∨ ∃ m ∈ ms, m.Provides e := by
  unfold resolves Module.Provides
  cases e.kind with
  | contains => simp
  | imports => simp [hasModule, ofModules, lastSegment_dropWhile]
  | inherits => simp [hasClass, ofModules, eq_comm]

/-! ## Edges -/

/-- The edges that a module declares on its own. -/
def Module.declared (m : Module) : List Edge := m.edges ⟨[], []⟩

/-- The names that are known decide which of the declared edges are resolved, and nothing else. -/
theorem Module.edges_eq (m : Module) (known : KnownNames) :
    m.edges known = m.declared.map fun e => { e with resolved := known.resolves e } := by
  unfold declared edges
  simp [List.map_flatMap, Function.comp_def, KnownNames.resolves]

theorem Module.flatMap_edges (ms : List Module) (known : KnownNames) :
    (ms.flatMap fun m => m.edges known) =
      (ms.flatMap Module.declared).map fun e => { e with resolved := known.resolves e } := by
  simp only [edges_eq, List.map_flatMap]

/-- The second edge is the first one, resolved if it was or an added module provides its target. -/
structure Edge.Gains (added : List Module) (e e' : Edge) : Prop where
  alike : e' = { e with resolved := e'.resolved }
  keeps : e.resolved = true → e'.resolved = true
  gains : e.resolved = false ∧ e'.resolved = true ↔
    e.resolved = false ∧ ∃ m ∈ added, m.Provides e

namespace PathMap

variable {m n : PathMap Module}

/-- An edge that is declared in both sets. -/
theorem gains_resolved (hm : m.Sorted) (hn : n.Sorted) (h : m.Agrees n) (e : Edge) :
    Edge.Gains (m.added n)
      { e with resolved := (KnownNames.ofModules m.values).resolves e }
      { e with resolved := (KnownNames.ofModules n.values).resolves e } := by
  have hlarger : (KnownNames.ofModules n.values).resolves e = true ↔
      (KnownNames.ofModules m.values).resolves e = true ∨ ∃ x ∈ m.added n, x.Provides e := by
    simp only [KnownNames.resolves_ofModules, mem_values_iff hm hn h, or_and_right, exists_or,
      or_assoc]
  refine ⟨rfl, fun hr => hlarger.mpr (.inl hr), ?_⟩
  dsimp only
  rw [hlarger]
  refine and_congr_right fun hr => ?_
  rw [hr]
  simp [Module.Provides]

/-- What the elements of a list yield, each piece marked with whether its element satisfies `p`. -/
def marked {β γ : Type} (p : β → Bool) (f : β → List γ) (l : List β) : List (Bool × γ) :=
  l.flatMap fun b => (f b).map (p b, ·)

theorem map_snd_marked {β γ : Type} (p : β → Bool) (f : β → List γ) (l : List β) :
    (marked p f l).map Prod.snd = l.flatMap f := by
  simp [marked, List.map_flatMap, Function.comp_def]

/-- The pieces with one mark come from the elements with that mark. -/
theorem filter_marked {β γ : Type} (p : β → Bool) (f : β → List γ) (l : List β) (mark : Bool) :
    ((marked p f l).filter (·.1 == mark)).map Prod.snd = (l.filter (p · == mark)).flatMap f := by
  induction l with
  | nil => rfl
  | cons b l ih =>
    rw [marked, List.flatMap_cons, List.filter_append, List.map_append, ← marked, ih,
      List.filter_cons, List.filter_map]
    by_cases hb : (p b == mark) = true
    · simp [Function.comp_def, hb]
    · simp [Function.comp_def, hb]

/-- The edges of a set of modules are edges of a larger set, in their order and with some more of them
resolved; the other edges of the larger set are those of the modules that were added. -/
theorem edges_extended (hm : m.Sorted) (hn : n.Sorted) (h : m.Agrees n) :
    ∃ all : List (Bool × Edge),
      all.map Prod.snd = n.edges ∧
      List.Forall₂ (Edge.Gains (m.added n)) m.edges ((all.filter fun e => e.1).map Prod.snd) ∧
      (all.filter fun e => !e.1).map Prod.snd =
        (m.added n).flatMap fun x => x.edges (KnownNames.ofModules n.values) := by
  have hfilter (mark : Bool) := filter_marked (fun r => m.contains r.1)
    (fun r => r.2.edges (.ofModules n.values)) n.entries mark
  have hvalues (keep : Path × Module → Bool) : ((n.entries.filter keep).flatMap fun r =>
      r.2.edges (.ofModules n.values)) = ((n.entries.filter keep).map Prod.snd).flatMap fun x =>
        x.edges (.ofModules n.values) := by
    rw [List.flatMap_map]
  refine ⟨marked (fun r => m.contains r.1) (fun r => r.2.edges (.ofModules n.values)) n.entries,
    ?_, ?_, ?_⟩
  · rw [map_snd_marked, edges, values, List.flatMap_map]
  · have hcommon := hfilter true
    simp only [beq_true] at hcommon
    rw [hcommon, hvalues, values_kept hm hn h, edges, Module.flatMap_edges, Module.flatMap_edges,
      List.forall₂_map_left_iff, List.forall₂_map_right_iff, List.forall₂_same]
    exact fun e _ => gains_resolved hm hn h e
  · have hnew := hfilter false
    simp only [beq_false] at hnew
    rw [hnew, hvalues, added]

/-- A module with an import and a base that lack their targets, and one after it that has the other
base. -/
def outer : PathMap Module :=
  .ofList [(⟨"a"⟩, { path := ⟨"a"⟩, name := "a", imports := [{ source := "..b", line := 1 }]
                     classes := [{ name := "A", line := 2, bases := ["b.B", "C"] }] }),
    (⟨"c"⟩, { path := ⟨"c"⟩, name := "c", classes := [{ name := "C", line := 1 }] })]

/-- The module between them that has both targets. -/
def inner : Module := { path := ⟨"b"⟩, name := "b", classes := [{ name := "B", line := 1 }] }

/-- The module that is added has an edge between those of the others, of which it resolves two. -/
theorem edges_extended_between :
    (outer.edges.map Edge.resolved = [false, true, false, true, true] ∧
      (outer.insert ⟨"b"⟩ inner).edges.map Edge.resolved = [true, true, true, true, true, true]) ∧
    ∃ all : List (Bool × Edge),
      all.map Prod.snd = (outer.insert ⟨"b"⟩ inner).edges ∧
      List.Forall₂ (Edge.Gains (outer.added (outer.insert ⟨"b"⟩ inner))) outer.edges
        ((all.filter fun e => e.1).map Prod.snd) ∧
      (all.filter fun e => !e.1).map Prod.snd =
        (outer.added (outer.insert ⟨"b"⟩ inner)).flatMap fun x =>
          x.edges (KnownNames.ofModules (outer.insert ⟨"b"⟩ inner).values) :=
  ⟨⟨by decide, by decide⟩,
    edges_extended (sorted_ofList _) ((sorted_ofList _).insert _ _) (agrees_insert (by decide))⟩

end PathMap
end SourceSurvey
