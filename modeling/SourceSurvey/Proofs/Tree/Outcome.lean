import SourceSurvey.Proofs.Tree.Replace

/-!
# How writing over a draft ends

A writer over a draft makes the directories above a file, writes the draft and moves it. Making directories
keeps every node and adds directories only (`Tree.Grows.createDirectories`). If no file and no link stands
at the draft (`Tree.Undrafted`), then either the file is replaced and everything else is as it was
(`Tree.replaced_of_rename`), or the draft cannot be moved and is left (`Tree.abandoned_of_rename`), as
happens where the path of the file leads to a directory (`Tree.abandoned_of_directory`).
-/

namespace SourceSurvey

open SourceSurvey.Path (IsName)

namespace Tree

variable {t t' t'' : Tree} {p draft : Path} {place d : Place} {node : Node} {name : String}
  {pieces : List String} {links : Nat} {bytes : List UInt8}

/-! ## Making directories -/

/-- A tree with all nodes of another one, and directories besides. -/
structure Grows (t t' : Tree) : Prop extends Fewer t' t where
  now : t'.now = t.now
  directories : ∀ q n, t'.find? q = some n → t.find? q = some n ∨ n = .directory

/-- A place to which a path leads as a free name is free. -/
theorem find?_of_free {follow slash : Bool}
    (h : t.walk follow links place pieces = .ok (.free d name slash)) : t.find? (d ++ [name]) = none := by
  fun_induction walk t follow links place pieces with
  | case1 => cases h
  | case2 _ _ _ _ _ ih => exact ih h
  | case3 _ _ _ _ ih => exact ih h
  | case4 => cases h
  | case5 _ _ _ _ _ _ _ _ hf =>
    obtain ⟨rfl, rfl, -⟩ := Target.free.inj (Except.ok.inj h)
    exact hf
  | case6 => cases h
  | case7 _ _ _ _ _ _ _ _ _ ih => exact ih h
  | case8 => cases h
  | case9 => cases h
  | case10 => cases h
  | case11 => cases h
  | case12 _ _ _ _ _ _ _ _ _ _ _ _ ih => exact ih h

namespace Grows

theorem refl (t : Tree) : Grows t t := ⟨.refl t, rfl, fun _ _ => .inl⟩

theorem trans (h : Grows t t') (h' : Grows t' t'') : Grows t t'' where
  toFewer := h'.toFewer.trans h.toFewer
  now := h'.now.trans h.now
  directories q n hn := by
    rcases h'.directories q n hn with hn | hn
    · exact h.directories q n hn
    · exact .inr hn

/-- Making a directory adds it. -/
theorem createDirectory (h : t.createDirectory p = .ok t') : t.Grows t' := by
  unfold Tree.createDirectory at h
  obtain ⟨goal, hgoal, h⟩ := bind_ok h
  cases goal with
  | found => cases h
  | free d name slash =>
    obtain rfl := Except.ok.inj h
    have hfree := find?_of_free (resolve_ok hgoal).2.2
    refine ⟨⟨(current_put ..).symm, fun q n hn => ?_⟩, now_put .., fun q n hn => ?_⟩
    · rw [find?_put t (by simp), if_neg, hn]
      rintro rfl
      exact nomatch hfree.symm.trans hn
    · rw [find?_put t (by simp)] at hn
      split at hn
      · exact .inr (Option.some.inj hn).symm
      · exact .inl hn

theorem createUpTo (t : Tree) (p : Path) (depth : Nat) : t.Grows (t.createUpTo p depth).1 := by
  induction depth generalizing p with
  | zero => exact .refl t
  | succ depth ih =>
    unfold Tree.createUpTo
    split
    · exact .refl t
    split
    · exact createDirectory ‹_›
    split
    · split
      · exact .refl t
      · rename_i parent _
        have above := ih parent
        split
        · rename_i hcreate
          rwa [hcreate] at above
        · rename_i hcreate
          rw [hcreate] at above
          split
          · exact above.trans (createDirectory ‹_›)
          · exact above
    · exact .refl t

/-- Making a directory and those above it keeps every node and adds directories. -/
theorem createDirectories (t : Tree) (p : Path) : t.Grows (t.createDirectories p).1 :=
  createUpTo t p _

/-- Making the directory above a path keeps every node and adds directories, whichever directories
count as made. -/
theorem createParent (t : Tree) (made : Path → Bool) (p : Path) : t.Grows (t.createParent made p).1 := by
  unfold Tree.createParent
  split
  · split
    · exact .refl t
    · exact .createDirectories t _
  · exact .refl t

end Grows

/-- Above a single name nothing is made if the current directory counts as made. -/
theorem createParent_top {made : Path → Bool} (hp : p.parent? = some ⟨""⟩) (hm : made ⟨""⟩ = true) :
    t.createParent made p = (t, .ok ()) := by
  unfold createParent
  rw [hp]
  exact if_pos hm

/-! ## Drafts that are not there -/

/-- No file and no link stands at the path of a draft. -/
def Undrafted (t : Tree) (draft : Path) : Prop :=
  ∀ place node, t.resolve false draft = .ok (.found place node) → node = .directory

/-- Nothing of a tree stands where a path leads once directories were made. -/
def Fresh (t t' : Tree) (draft : Path) : Prop :=
  ∀ place node, t'.resolve false draft = .ok (.found place node) → t.find? place = none

/-- Making directories puts no file and no link at a draft. -/
theorem Undrafted.of_grows (h : t'.Undrafted draft) (grows : t.Grows t') : t.Undrafted draft :=
  fun _ _ hr => h _ _ (grows.resolve hr)

theorem Fresh.undrafted (fresh : t.Fresh t' draft) (grows : t.Grows t') : t'.Undrafted draft := by
  intro place node hr
  by_contra hnode
  rcases grows.directories _ _ (find?_of_walk (resolve_ok hr).2.2 hnode) with hf | rfl
  · exact nomatch (fresh place node hr).symm.trans hf
  · exact hnode rfl

/-- What is not there is not removed. -/
theorem Undrafted.removeFile (h : t.Undrafted draft) : ∃ e, t.removeFile draft = .error e := by
  cases hw : t.removeFile draft with
  | error e => exact ⟨e, rfl⟩
  | ok t' =>
    unfold Tree.removeFile at hw
    obtain ⟨goal, hgoal, hw⟩ := bind_ok hw
    cases goal with
    | free => cases hw
    | found place node =>
      obtain rfl := h place node hgoal
      cases hw

/-- A path leads to a link, or it does not matter whether a link at its end is followed. -/
theorem walk_follow (t : Tree) (links : Nat) (place : Place) (pieces : List String) :
    (∃ x target, t.walk false links place pieces = .ok (.found x (.link target))) ∨
      t.walk true links place pieces = t.walk false links place pieces := by
  fun_induction walk t true links place pieces with
  | case1 => exact .inr (by rw [walk])
  | case2 _ _ _ _ idle ih => rwa [walk_idle idle]
  | case3 _ _ _ _ ih => rwa [walk_up]
  | case4 _ _ _ _ hi hu hl => exact .inr (by rw [walk, if_neg hi, if_neg hu, if_pos hl])
  | case5 _ _ _ _ hi hu hl _ hf hall =>
    exact .inr (by rw [walk_none ⟨hi, hu, hl⟩ hf, if_pos hall])
  | case6 _ _ _ _ hi hu hl _ hf hall =>
    exact .inr (by rw [walk_none ⟨hi, hu, hl⟩ hf, if_neg hall])
  | case7 _ _ _ _ hi hu hl _ hf ih => rwa [walk_directory ⟨hi, hu, hl⟩ hf]
  | case8 _ _ _ _ hi hu hl _ _ _ hf he =>
    exact .inr (by rw [walk_file ⟨hi, hu, hl⟩ hf, if_pos he])
  | case9 _ _ _ _ hi hu hl _ _ _ hf he =>
    exact .inr (by rw [walk_file ⟨hi, hu, hl⟩ hf, if_neg he])
  | case10 _ _ _ _ _ _ _ _ _ _ he => simp at he
  | case11 _ _ rest hi hu hl _ target hf he =>
    by_cases hrest : (rest.isEmpty && !false) = true
    · exact .inl ⟨_, target, walk_link_end ⟨hi, hu, hl⟩ hf hrest⟩
    · exact .inr (by rw [walk_link_loop ⟨hi, hu, hl⟩ hf hrest])
  | case12 _ _ rest hi hu hl _ target hf he _ _ ih =>
    by_cases hrest : (rest.isEmpty && !false) = true
    · exact .inl ⟨_, target, walk_link_end ⟨hi, hu, hl⟩ hf hrest⟩
    · rwa [walk_link ⟨hi, hu, hl⟩ hf hrest]

theorem resolve_follow (t : Tree) (p : Path) :
    (∃ x target, t.resolve false p = .ok (.found x (.link target))) ∨
      t.resolve true p = t.resolve false p := by
  by_cases hp : p.WithinLimits
  · by_cases he : p.text = ""
    · exact .inr (by rw [resolve_empty he, resolve_empty he])
    · rw [resolve_eq hp he, resolve_eq hp he]
      rcases t.walk_follow linkLimit (t.start p) p.pieces with ⟨x, target, hw⟩ | hw
      · exact .inl ⟨x, target, by rw [hw]; rfl⟩
      · exact .inr (by rw [hw])
  · exact .inr (by rw [resolve_of_not_within hp, resolve_of_not_within hp])

/-- A path at which there is neither file nor link is followed in one way only. -/
theorem Undrafted.resolve (h : t.Undrafted draft) : t.resolve true draft = t.resolve false draft := by
  refine (t.resolve_follow draft).resolve_left ?_
  rintro ⟨x, target, hr⟩
  exact nomatch h _ _ hr

/-- A draft that is not there is written at a place where nothing stands. -/
theorem Undrafted.write (h : t.Undrafted draft) (hw : t.write draft bytes = .ok t') :
    ∃ d name, t.find? (d ++ [name]) = none ∧ t' = t.put (d ++ [name]) (.file bytes t.now) ∧
      t'.resolve false draft = .ok (.found (d ++ [name]) (.file bytes t.now)) := by
  obtain ⟨_, hgoal, -⟩ := bind_ok hw
  obtain ⟨hl, he, -⟩ := resolve_ok hgoal
  obtain ⟨links, d, name, hlinks, leaf, rfl⟩ := write_leaf hw
  have hput (q : Place) := find?_put t (by simp : d ++ [name] ≠ []) (.file bytes t.now) q
  have hfree : t.find? (d ++ [name]) = none := by
    have hstanding := h.resolve.symm.trans (leaf.resolve hl he hlinks)
    refine leaf.fileOnly.cases.resolve_right ?_
    rintro ⟨_, _, hf⟩
    rw [standing_some hf] at hstanding
    exact nomatch h _ _ hstanding
  have hfollowed : (t.put (d ++ [name]) (.file bytes t.now)).resolve true draft =
      .ok (.found (d ++ [name]) (.file bytes t.now)) := by
    refine locate_ok (locate_of_way hl he hlinks (leaf.way.put leaf.fileOnly bytes) leaf.enters ?_)
    rw [hput, if_pos rfl]
  refine ⟨d, name, hfree, rfl, ?_⟩
  rcases (t.put (d ++ [name]) (.file bytes t.now)).resolve_follow draft with ⟨x, target, hr⟩ | hr
  · -- the link was there before
    refine nomatch h _ _ (resolve_keep hr (current_put ..).symm fun q m hm hq => ?_)
    rw [hput] at hm
    split at hm
    · obtain rfl := Option.some.inj hm
      rcases hq with hq | ⟨-, hq⟩
      · exact absurd (.intro _ _) hq
      · exact nomatch hq
    · exact hm
  · rw [← hr, hfollowed]

/-! ## How it ends -/

/-- A file was replaced over a draft: its entry holds the bytes, its path leads to them if the draft is
beside it, nothing is at the draft, and every other node is as it was. -/
structure Replaced (t t' : Tree) (p draft : Path) (bytes : List UInt8) : Prop where
  entry : ∃ goal, t.resolve false p = .ok goal ∧
    t'.find? goal.place = some (.file bytes t.now) ∧ ∀ q, q ≠ goal.place → t'.find? q = t.find? q
  read : t.Beside p draft ↔ t'.read p = .ok bytes
  gone : ∀ place node, t'.resolve false draft ≠ .ok (.found place node)

/-- A draft was written and could not be moved: it is left where nothing was, and every other node is as
it was. -/
structure Abandoned (t t' : Tree) (p draft : Path) (bytes : List UInt8) : Prop where
  written : t.write draft bytes = .ok t'
  stuck : ∃ e, t'.rename draft p = .error e
  left : ∃ place, t.find? place = none ∧
    t'.resolve false draft = .ok (.found place (.file bytes t.now)) ∧
    ∀ q, q ≠ place → t'.find? q = t.find? q

/-- How a writer over a draft ends, and whether it reports success. -/
inductive Outcome (t : Tree) (p draft : Path) (bytes : List UInt8) : Tree → Bool → Prop
  | replaced {t₀ t' : Tree} (grows : t.Grows t₀) (replaced : t₀.Replaced t' p draft bytes) :
      Outcome t p draft bytes t' true
  | untouched {t₀ : Tree} (grows : t.Grows t₀) (undrafted : t₀.Undrafted draft) :
      Outcome t p draft bytes t₀ false
  | abandoned {t₀ t' : Tree} (grows : t.Grows t₀) (abandoned : t₀.Abandoned t' p draft bytes) :
      Outcome t p draft bytes t' false

/-- A draft that was not there and cannot be moved is left. -/
theorem abandoned_of_rename (h : t.Undrafted draft) (hw : t.write draft bytes = .ok t') {e : IoFailure}
    (hr : t'.rename draft p = .error e) : t.Abandoned t' p draft bytes := by
  obtain ⟨d, name, hfree, ht', hdraft⟩ := h.write hw
  refine ⟨hw, ⟨e, hr⟩, d ++ [name], hfree, hdraft, fun q hq => ?_⟩
  rw [ht', find?_put t (by simp), if_neg hq]

namespace Drafted

variable {name' : String} {e : Place} {x : String} {above : Nat}
  (h : t.Drafted p pieces d name name' above links e x bytes node)
include h

/-- At a draft name that nothing had the file itself is written. -/
theorem eq_of_free (hfree : t.find? (d ++ [name']) = none) :
    e ++ [x] = d ++ [name'] ∧ node = .file bytes t.now := by
  rcases h.leaf.cases h.enters' h.way with ⟨-, hplace, -⟩ | ⟨target, _, hlink, -⟩
  · have hheld := h.held
    rw [find?_put t (by simp), if_pos hplace.symm] at hheld
    exact ⟨hplace, (Option.some.inj hheld).symm⟩
  · exact nomatch hfree.symm.trans hlink

theorem above_le (hlinks : links ≤ linkLimit) : above ≤ linkLimit := by
  rcases h.cases with ⟨habove, -⟩ | ⟨_, _, -, -, habove, -⟩ <;> omega

/-- A draft that was not there is a name that nothing had. -/
theorem free_of_undrafted (undrafted : t.Undrafted draft)
    (hr : t.resolve false draft = .ok (t.standing d name')) : t.find? (d ++ [name']) = none := by
  cases hf : t.find? (d ++ [name']) with
  | none => rfl
  | some m =>
    rw [standing_some hf] at hr
    obtain rfl := undrafted _ _ hr
    rcases h.cases with ⟨-, -, hfile⟩ | ⟨_, _, hlink, -⟩
    · exact absurd (hfile _ hf) Node.not_isFile_directory
    · exact nomatch hf.symm.trans hlink

/-- After the move of a file its draft is not there. -/
theorem draft_gone (hnode : node = .file bytes t.now) {most : Nat} {place' : Place} {node' : Node} :
    (t.moved e x d name' name bytes node).walk false most (t.start p) (pieces ++ [name']) ≠
      .ok (.found place' node') := by
  subst hnode
  intro hw
  have hne : name' ≠ "" := by
    rintro rfl
    exact h.enters'.not_idle rfl
  obtain ⟨_, _, d', -, way, hlast⟩ := exists_way_above hne hw
  by_cases hc : t.Crosses (d ++ [name]) (t.start p) pieces
  · -- the way stops at the file
    obtain ⟨_, rest, hway, enters⟩ := (h.crosses_moved hc).exists_way
    have hentry := t.find?_name e x d name' name bytes (.file bytes t.now)
    have hend : Tree.next? _ d (name :: rest) = none :=
      next?_fileOnly enters (fileOnly_of_find? hentry)
    obtain ⟨-, -, hnil⟩ := way.unique hway rfl hend
    exact nomatch hnil
  · obtain ⟨-, rfl, -⟩ := (h.way_moved hc).unique way rfl rfl
    rw [walk_standing h.enters', standing_none] at hlast
    · exact nomatch hlast
    · rw [find?_moved, if_neg (by simpa using h.ne), if_pos rfl]

end Drafted

/-- A draft that was not there and is moved replaces the file. -/
theorem replaced_of_rename (drafts : draft.Drafts p) (undrafted : t.Undrafted draft)
    (hw : t.write draft bytes = .ok t') (hr : t'.rename draft p = .ok t'') :
    t.Replaced t'' p draft bytes := by
  obtain ⟨hread, hunread⟩ := read_replaced drafts hw hr
  obtain ⟨_, hgoal, -⟩ := bind_ok hw
  obtain ⟨hl, he, -⟩ := resolve_ok hgoal
  obtain ⟨-, -, pieces, name, name', d, above, links, e, x, node, hlinks, hd, hstart, h, hresolve,
    rfl⟩ := exists_drafted drafts hw hr
  have hfree := h.free_of_undrafted undrafted
    (resolve_standing hl he hd h.enters' (h.above_le hlinks) (hstart ▸ h.way))
  obtain ⟨hplace, hnode⟩ := h.eq_of_free hfree
  refine ⟨⟨_, hresolve, ?_, fun q hq => ?_⟩, ⟨hread, fun hb => ?_⟩, fun place node' hr' => ?_⟩
  · rw [place_standing, find?_name, hnode]
  · rw [place_standing] at hq
    rw [find?_moved, if_neg hq, hplace]
    split
    · rename_i hq
      rw [hq, hfree]
    · rfl
  · by_contra hbeside
    exact hunread hbeside _ hb
  · have hstart' : (t.moved e x d name' name bytes node).start draft = t.start p :=
      (start_moved t e x d name' name bytes node draft).trans hstart
    obtain ⟨-, -, hw'⟩ := resolve_ok hr'
    rw [hstart', hd] at hw'
    exact h.draft_gone hnode hw'

/-- Nothing is moved to where a path leads to a directory. -/
theorem rename_onto_directory (h : t.resolve false p = .ok (.found place .directory)) :
    ∃ e, t.rename draft p = .error e := by
  cases hr : t.rename draft p with
  | error e => exact ⟨e, rfl⟩
  | ok t' =>
    obtain ⟨_, _, goal, -, -, hg, -, hmove⟩ := rename_inv hr
    obtain rfl := Except.ok.inj (h.symm.trans hg)
    rcases hmove with ⟨_, m, heq, hm, -⟩ | ⟨_, _, _, heq, -⟩
    · exact absurd (Target.found.inj heq).2.symm hm
    · exact nomatch heq

/-- A draft that was not there is left if the path of the file leads to a directory. -/
theorem abandoned_of_directory (undrafted : t.Undrafted draft) (hw : t.write draft bytes = .ok t')
    (h : t.resolve false p = .ok (.found place .directory)) : t.Abandoned t' p draft bytes := by
  obtain ⟨d, name, hfree, rfl, -⟩ := undrafted.write hw
  have hkept := resolve_keep h (current_put t (d ++ [name]) (.file bytes t.now)) fun q m hm _ => by
    rw [find?_put t (by simp), if_neg, hm]
    rintro rfl
    exact nomatch hfree.symm.trans hm
  obtain ⟨e, hr⟩ := rename_onto_directory hkept
  exact abandoned_of_rename undrafted hw hr

end Tree
end SourceSurvey
