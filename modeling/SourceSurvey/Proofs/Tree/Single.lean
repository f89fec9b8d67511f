import SourceSurvey.Proofs.Tree.Outcome

/-!
# Trees with one node

What happens to a file that is written over a draft in a tree with a single node.

* The node is a link at the draft name: the file can be written and moved wherever the link leads
  (`Tree.exists_replaced_linked`), and the draft is beside the name unless the link leads to that very
  name (`Tree.beside_linked`).
* The node has another name: nothing stands at the draft (`Tree.fresh_single`), and it can be written
  (`Tree.exists_write_single`).
-/

namespace SourceSurvey

open SourceSurvey.Path (IsName)

/-- A name that the system takes as a path. -/
structure Path.IsEntry (name : String) : Prop where
  isName : IsName name
  nameable : (⟨name⟩ : Path).Nameable

instance (name : String) : Decidable (Path.IsEntry name) :=
  decidable_of_iff (IsName name ∧
      ('\x00' ∉ name.toList ∧ name.utf8ByteSize ≤ Tree.pathLimit) ∧
        ∀ piece ∈ (⟨name⟩ : Path).pieces, piece.utf8ByteSize ≤ Tree.nameLimit)
    ⟨fun ⟨hn, ⟨hz, hs⟩, hp⟩ => ⟨hn, ⟨⟨hz, hs⟩, hp⟩⟩, fun ⟨hn, ⟨⟨hz, hs⟩, hp⟩⟩ => ⟨hn, ⟨hz, hs⟩, hp⟩⟩

theorem Path.IsEntry.enters {name : String} (h : IsEntry name) : Tree.Enters name := by
  refine .of_name h.isName (h.nameable.pieces name ?_)
  rw [h.isName.pieces]
  exact List.mem_singleton_self _

namespace Tree

open SourceSurvey.Path (IsEntry)

variable {name draft target : String} {node : Node} {q : Place}

/-- A tree with nothing but one node below the root. -/
def single (name : String) (node : Node) : Tree where
  nodes := [([name], node)]
  now := ⟨0, 0⟩

theorem find?_single (hq : q ≠ []) :
    (single name node).find? q = if q = [name] then some node else none := by
  rw [find?_of_ne_nil _ hq]
  exact lookup_cons [name] q _ []

theorem find?_single_self : (single name node).find? [name] = some node := by
  rw [find?_single (List.cons_ne_nil _ _), if_pos rfl]

theorem find?_single_of_ne (hq : q ≠ []) (h : q ≠ [name]) : (single name node).find? q = none := by
  rw [find?_single hq, if_neg h]

theorem fileOnly_single (hq : q ≠ []) (h : q ≠ [name]) : (single name node).FileOnly q :=
  fun _ hn => nomatch (find?_single_of_ne hq h).symm.trans hn

theorem start_single (p : Path) : (single name node).start p = [] := by
  unfold start
  split <;> rfl

/-- A name that is a path leads to what stands there. -/
theorem resolve_single (hn : IsEntry draft) :
    (single name node).resolve false ⟨draft⟩ = .ok ((single name node).standing [] draft) := by
  have hpieces : (⟨draft⟩ : Path).pieces = [] ++ [draft] := hn.isName.pieces
  refine resolve_standing hn.nameable.within hn.isName.ne_empty hpieces hn.enters (Nat.zero_le _) ?_
  rw [start_single]
  exact .rest

/-! ## Nodes under other names -/

section Other

variable (hd : IsEntry draft) (hne : draft ≠ name)
include hd hne

theorem fresh_single : (single name node).Fresh (single name node) ⟨draft⟩ := by
  intro place n hr
  rw [resolve_single hd, standing_none (find?_single_of_ne (by simp) (by simpa using hne))] at hr
  cases hr

theorem exists_write_single (bytes : List UInt8) :
    ∃ t', (single name node).write ⟨draft⟩ bytes = .ok t' := by
  have fileOnly : (single name node).FileOnly ([] ++ [draft]) :=
    fileOnly_single (by simp) (by simpa using hne)
  have leaf : (single name node).Leaf ((single name node).start ⟨draft⟩) (⟨draft⟩ : Path).pieces 0 []
      draft := by
    rw [start_single, hd.isName.pieces]
    exact ⟨.rest, hd.enters, fileOnly⟩
  exact ⟨_, write_ok (leaf.resolve hd.nameable.within hd.isName.ne_empty (by decide)) leaf.fileOnly
    bytes⟩

end Other

/-! ## Drafts that are links -/

section Linked

variable (hd : IsEntry draft) (ht : IsEntry target) (hne : target ≠ draft)
include hd ht

/-- The draft leads to the target of the link. -/
theorem way_linked : (single draft (.link target)).Way [] [draft] 1 [] [target] := by
  have next : (single draft (.link target)).next? [] [draft] = some (1, [], [target]) := by
    rw [next?_link hd.enters find?_single_self, ht.isName.pieces, linkStart, ht.isName.not_absolute]
    rfl
  exact .step next .rest

include hne

/-- The draft leads to where a file may come to be. -/
theorem leaf_linked : (single draft (.link target)).Leaf [] [draft] 1 [] target :=
  ⟨way_linked hd ht, ht.enters, fileOnly_single (by simp) (by simpa using hne)⟩

/-- The draft comes across the link and its target. -/
theorem crosses_linked :
    (single draft (.link target)).Crosses q [] [draft] ↔ q = [draft] ∨ q = [target] := by
  have leaf := leaf_linked hd ht hne
  constructor
  · intro hc
    by_cases hq : q = [draft]
    · exact .inl hq
    · have hbehind := hc.behind hd.enters find?_single_self hq
      rw [ht.isName.pieces, linkStart, ht.isName.not_absolute] at hbehind
      exact .inr (hbehind.eq_of_fileOnly leaf.enters leaf.fileOnly)
  · rintro (rfl | rfl)
    · exact ⟨0, [], draft, [], .rest, hd.enters, rfl⟩
    · exact ⟨1, [], target, [], leaf.way, leaf.enters, rfl⟩

variable (hn : IsEntry name) (hdn : draft ≠ name)
include hn hdn

/-- The draft is beside another name unless the link leads to that name. -/
theorem beside_linked :
    (single draft (.link target)).Beside ⟨name⟩ ⟨draft⟩ ↔ target ≠ name := by
  have hcross := crosses_linked (q := [name]) hd ht hne
  unfold Beside
  rw [resolve_single hn, start_single, hd.isName.pieces]
  constructor
  · rintro hbeside rfl
    refine hbeside _ rfl ?_
    rw [place_standing]
    exact hcross.mpr (.inr rfl)
  · rintro h goal hgoal hc
    rw [← Except.ok.inj hgoal, place_standing] at hc
    rcases hcross.mp hc with hq | hq
    · exact hdn (List.singleton_inj.mp hq).symm
    · exact h (List.singleton_inj.mp hq).symm

/-- A file can be written through the link, which can then be moved to another name. -/
theorem exists_replaced_linked (bytes : List UInt8) :
    ∃ t' t'', (single draft (.link target)).write ⟨draft⟩ bytes = .ok t' ∧
      t'.rename ⟨draft⟩ ⟨name⟩ = .ok t'' := by
  let t := single draft (.link target)
  have hdir : t.find? [name] ≠ some .directory := fun h =>
    Node.not_isFile_directory (fileOnly_single (by simp) (by simpa using hdn.symm) _ h)
  have way : t.Way (t.start ⟨name⟩) [] 0 [] [] := by
    rw [start_single]
    exact .rest
  have leaf : t.Leaf (t.start ⟨name⟩) ([] ++ [draft]) 1 [] target := by
    rw [start_single]
    exact leaf_linked hd ht hne
  exact exists_replaced hn.isName hd.isName hdn hn.isName.pieces hd.isName.pieces hn.nameable.within
    hd.nameable.within hn.enters hd.enters way leaf (by decide) hdir bytes

end Linked

end Tree
end SourceSurvey
