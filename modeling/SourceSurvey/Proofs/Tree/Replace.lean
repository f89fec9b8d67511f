import SourceSurvey.Proofs.Tree.Canonical
import SourceSurvey.Proofs.Tree.Ways

/-!
# Files that are moved into their place

A file is written under a draft name and then moved to its name in the same directory. If following the
draft path does not come across the entry of the name, the path of the name leads to the file
afterwards; if it does, the path of the name leads to no file any more (`Tree.read_replaced`). A link
that stands at the draft name is moved itself; it leads where it led, because a way to a file never
meets its own link again.

* `Tree.Drafted.read`, `Tree.Drafted.not_read`: what the path of the name leads to after the move.
* `Tree.exists_replaced`: a file can be written and moved.
-/

namespace SourceSurvey

open SourceSurvey.Path (IsName)

namespace Tree

variable {t t' t'' : Tree} {p draft : Path} {d : Place} {name name' : String} {pieces : List String}
  {links : Nat} {goal : Target} {follow : Bool} {bytes : List UInt8}

/-- A name that is not followed leads to what stands there, or is free. -/
theorem walk_standing (hp : Enters name) (links : Nat) (d : Place) :
    t.walk false links d [name] = .ok (t.standing d name) := by
  unfold standing
  cases hf : t.find? (d ++ [name]) with
  | none =>
    rw [walk_none hp hf]
    rfl
  | some node =>
    cases node with
    | directory => rw [walk_directory hp hf, walk]
    | file bytes changed => rw [walk_file hp hf]; rfl
    | link target => rw [walk_link_end hp hf rfl]

/-- A name along which a walk leads somewhere is not too long. -/
theorem enters_of_walk (hn : IsName name) (h : t.walk follow links d [name] = .ok goal) :
    Enters name := by
  refine ⟨by simp [hn.ne_empty, hn.ne_here], hn.ne_up, fun hlong => ?_⟩
  rw [walk, if_neg (by simp [hn.ne_empty, hn.ne_here]), if_neg hn.ne_up, if_pos hlong] at h
  cases h

theorem place_standing (t : Tree) (d : Place) (name : String) :
    (t.standing d name).place = d ++ [name] := by
  unfold standing
  split <;> rfl

/-- What a path leads to whose last name is not followed. -/
theorem resolve_standing (hp : p.WithinLimits) (he : p.text ≠ "")
    (hpieces : p.pieces = pieces ++ [name]) (enters : Enters name) (hlinks : links ≤ linkLimit)
    (above : t.Way (t.start p) pieces links d []) :
    t.resolve false p = .ok (t.standing d name) := by
  obtain ⟨more, hmore⟩ := Nat.exists_eq_add_of_le hlinks
  rw [resolve_eq hp he, hpieces, hmore, above.walk (.inr (List.cons_ne_nil _ _)), List.nil_append,
    walk_standing enters]
  rfl

/-- A path to which something was moved has a last name. -/
theorem name_of_rename (h : t.rename draft p = .ok t') :
    ∃ goal, t.resolve false p = .ok goal ∧
      ∃ pieces name, p.pieces = pieces ++ [name] ∧ IsName name := by
  obtain ⟨_, _, goal, -, -, hg, hlast, -⟩ := rename_inv h
  have hpieces : p.pieces ≠ [] := by simp [Path.pieces, Text.fields_ne_nil]
  obtain ⟨pieces, name, hsplit⟩ := List.eq_nil_or_concat p.pieces |>.resolve_left hpieces
  rw [List.concat_eq_append] at hsplit
  rw [hsplit, List.getLastD_concat] at hlast
  simp only [List.mem_cons, List.not_mem_nil, or_false, not_or] at hlast
  refine ⟨goal, hg, pieces, name, hsplit, hlast.1, hlast.2.1, hlast.2.2, ?_⟩
  exact Path.no_slash_of_mem_pieces (hsplit ▸ List.mem_append_right _ (List.mem_singleton_self _))

/-- What a draft leads to from its directory: its own name, or what the link there leads to. -/
theorem Leaf.cases {above : Nat} {e : Place} {x : String} {place : Place}
    (leaf : t.Leaf place (pieces ++ [name']) links e x) (enters : Enters name')
    (way : t.Way place pieces above d []) :
    (above = links ∧ e ++ [x] = d ++ [name'] ∧ t.FileOnly (d ++ [name'])) ∨
      ∃ target more, t.find? (d ++ [name']) = some (.link target) ∧ links = above + 1 + more ∧
        t.Leaf (linkStart target d) (⟨target⟩ : Path).pieces more e x := by
  have hend := leaf.stops []
  obtain ⟨more, hlinks, way'⟩ := (way.append [name']).rest_of leaf.way hend
  rw [List.nil_append] at way'
  by_cases hfile : t.FileOnly (d ++ [name'])
  · obtain ⟨rfl, rfl, hx⟩ := Way.rest.unique way' (next?_fileOnly enters hfile) hend
    obtain rfl := List.singleton_inj.mp hx
    exact .inl ⟨hlinks.symm, rfl, hfile⟩
  · cases hf : t.find? (d ++ [name']) with
    | none => exact absurd (fun n hn => nomatch hf.symm.trans hn) hfile
    | some node =>
      cases node with
      | directory =>
        have hstep : t.Way d [name'] 0 (d ++ [name']) [] := .step (next?_directory enters hf) .rest
        obtain ⟨-, -, hnil⟩ := hstep.unique way' rfl hend
        exact nomatch hnil
      | file bytes changed => exact absurd (fileOnly_of_find? hf) hfile
      | link target =>
        have hstep : t.Way d [name'] 1 (linkStart target d) ((⟨target⟩ : Path).pieces ++ []) :=
          .step (next?_link enters hf) .rest
        rw [List.append_nil] at hstep
        obtain ⟨more', rfl, way''⟩ := hstep.rest_of way' hend
        exact .inr ⟨target, more', rfl, by omega, way'', leaf.enters, leaf.fileOnly⟩

theorem start_put (t : Tree) (q : Place) (n : Node) (p : Path) : (t.put q n).start p = t.start p := by
  unfold start
  rw [current_put]

/-- A file that is written does not stand in a way. -/
theorem Way.put {e : Place} {x : String} {rest : List String}
    (h : t.Way (t.start p) pieces links d rest) (hfile : t.FileOnly (e ++ [x])) (bytes : List UInt8) :
    let t' := t.put (e ++ [x]) (.file bytes t.now)
    t'.Way (t'.start p) pieces links d rest := by
  intro t'
  rw [start_put]
  refine h.mono fun q m hm hdir _ => ?_
  rw [find?_put t (by simp), if_neg, hm]
  rintro rfl
  exact hdir (hfile m hm)

/-- What stands at a draft name is moved to a name of the same directory. -/
theorem rename_beside (hn : IsName name) (hne : name' ≠ name) (hp : p.pieces = pieces ++ [name])
    (hd : draft.pieces = pieces ++ [name']) (hstart : t.start draft = t.start p)
    (hl : draft.WithinLimits) (he : draft.text ≠ "") (enters : Enters name')
    (hlinks : links ≤ linkLimit) (above : t.Way (t.start p) pieces links d [])
    (h : t.rename draft p = .ok t') :
    p.WithinLimits ∧ p.text ≠ "" ∧ Enters name ∧ ∃ node, t.find? (d ++ [name']) = some node ∧
      t' = (t.remove (d ++ [name'])).put (d ++ [name]) node := by
  obtain ⟨goal, hgoal, -⟩ := name_of_rename h
  obtain ⟨hpl, hpe, hwalk⟩ := resolve_ok hgoal
  obtain ⟨more, hmore⟩ := Nat.exists_eq_add_of_le hlinks
  rw [hp, hmore, above.walk (.inr (List.cons_ne_nil _ _))] at hwalk
  have enters₁ := enters_of_walk hn hwalk
  have hdraft := resolve_standing hl he hd enters hlinks (hstart.symm ▸ above)
  have hname := resolve_standing hpl hpe hp enters₁ hlinks above
  exact ⟨hpl, hpe, enters₁, rename_standing (.inr hdraft) (.inr hname) hne h⟩

/-! ## Drafts -/

/-- Following a draft path does not come across the entry of the path for which it is a draft. -/
def Beside (t : Tree) (p draft : Path) : Prop :=
  ∀ goal, t.resolve false p = .ok goal → ¬ t.Crosses goal.place (t.start draft) draft.pieces

/-! ## After the move -/

/-- The tree after a file was written at one place and what stood at a draft name was moved to another
name of the directory. -/
def moved (t : Tree) (e : Place) (x : String) (d : Place) (name' name : String) (bytes : List UInt8)
    (node : Node) : Tree :=
  ((t.put (e ++ [x]) (.file bytes t.now)).remove (d ++ [name'])).put (d ++ [name]) node

section Moved

variable (t : Tree) (e : Place) (x : String) (d : Place) (name' name : String) (bytes : List UInt8)
  (node : Node)

theorem start_moved (p : Path) : (t.moved e x d name' name bytes node).start p = t.start p :=
  (start_put _ _ _ p).trans (start_put t _ _ p)

theorem find?_moved (q : Place) :
    (t.moved e x d name' name bytes node).find? q =
      if q = d ++ [name] then some node
      else if q = d ++ [name'] then none
      else if q = e ++ [x] then some (.file bytes t.now) else t.find? q := by
  rw [moved, find?_put _ (by simp), find?_remove _ (by simp), find?_put _ (by simp)]

theorem find?_name : (t.moved e x d name' name bytes node).find? (d ++ [name]) = some node := by
  rw [find?_moved, if_pos rfl]

end Moved

/-- A draft and a name in one directory, the place to which the draft leads, and what the draft holds
once the file is written there. -/
structure Drafted (t : Tree) (p : Path) (pieces : List String) (d : Place) (name name' : String)
    (above links : Nat) (e : Place) (x : String) (bytes : List UInt8) (node : Node) : Prop where
  split : p.pieces = pieces ++ [name]
  enters : Enters name
  enters' : Enters name'
  ne : name' ≠ name
  way : t.Way (t.start p) pieces above d []
  leaf : t.Leaf (t.start p) (pieces ++ [name']) links e x
  held : (t.put (e ++ [x]) (.file bytes t.now)).find? (d ++ [name']) = some node

namespace Drafted

variable {above : Nat} {e : Place} {x : String} {node : Node}
  (h : t.Drafted p pieces d name name' above links e x bytes node)
include h

/-- All directories and links stay where they are, but for the two names. -/
theorem keep {q : Place} {m : Node} (hm : t.find? q = some m) (hdir : ¬ m.IsFile)
    (hold : q ≠ d ++ [name']) (hnew : q ≠ d ++ [name]) :
    (t.moved e x d name' name bytes node).find? q = some m := by
  rw [find?_moved, if_neg hnew, if_neg hold, if_neg, hm]
  rintro rfl
  exact hdir (h.leaf.fileOnly m hm)

/-- The written file stands at the draft itself, or where the link at the draft leads. -/
theorem cases :
    (above = links ∧ node = .file bytes t.now ∧ t.FileOnly (d ++ [name'])) ∨
      ∃ target more, t.find? (d ++ [name']) = some (.link target) ∧ node = .link target ∧
        links = above + 1 + more ∧ t.Leaf (linkStart target d) (⟨target⟩ : Path).pieces more e x := by
  have hnode := h.held
  rw [find?_put _ (by simp)] at hnode
  rcases h.leaf.cases h.enters' h.way with
    ⟨habove, hplace, hfile⟩ | ⟨target, more, hlink, hlinks, hleaf⟩
  · rw [if_pos hplace.symm] at hnode
    exact .inl ⟨habove, (Option.some.inj hnode).symm, hfile⟩
  · have hne : d ++ [name'] ≠ e ++ [x] := fun heq =>
      Node.not_isFile_link target (hleaf.fileOnly _ (heq ▸ hlink))
    rw [if_neg hne, hlink] at hnode
    exact .inr ⟨target, more, hlink, (Option.some.inj hnode).symm, hlinks, hleaf⟩

/-- The draft is not come across on the way to the directory. -/
theorem not_crosses_draft {q : Place} {m : Node} (hm : t.find? q = some m) (hdir : ¬ m.IsFile)
    (hc : t.Crosses q (t.start p) pieces) : q ≠ d ++ [name'] := by
  rintro rfl
  rcases h.cases with ⟨-, -, hfile⟩ | ⟨target, more, hlink, -, -, hleaf⟩
  · exact hdir (hfile m hm)
  · exact hleaf.not_crosses_above hlink h.way hc

/-- What is come across behind the link at a draft is come across by the draft. -/
theorem crosses_of_link {q : Place} {target : String}
    (hlink : t.find? (d ++ [name']) = some (.link target))
    (hc : t.Crosses q (linkStart target d) (⟨target⟩ : Path).pieces) :
    t.Crosses q (t.start p) (pieces ++ [name']) := by
  have hway := (h.way.append [name']).trans (.step (next?_link h.enters' hlink) .rest)
  rw [List.append_nil] at hway
  exact hway.crosses hc

theorem way_moved (hc : ¬ t.Crosses (d ++ [name]) (t.start p) pieces) :
    (t.moved e x d name' name bytes node).Way (t.start p) pieces above d [] :=
  h.way.mono fun _ _ hm hdir hcross =>
    h.keep hm hdir (h.not_crosses_draft hm hdir hcross) fun hq => hc (hq ▸ hcross)

/-- Behind the link that was moved the file still stands where the link leads. -/
theorem behind_moved {target : String} {more : Nat}
    (hlink : t.find? (d ++ [name']) = some (.link target))
    (hleaf : t.Leaf (linkStart target d) (⟨target⟩ : Path).pieces more e x)
    (hc : ¬ t.Crosses (d ++ [name]) (linkStart target d) (⟨target⟩ : Path).pieces) :
    (t.moved e x d name' name bytes node).Way (linkStart target d) (⟨target⟩ : Path).pieces more e
        [x] ∧
      (t.moved e x d name' name bytes node).find? (e ++ [x]) =
        some (.file bytes t.now) := by
  have hold : e ++ [x] ≠ d ++ [name'] := fun heq =>
    Node.not_isFile_link target (hleaf.fileOnly _ (heq ▸ hlink))
  have hnew : e ++ [x] ≠ d ++ [name] := fun heq =>
    hc (hleaf.way.crosses ⟨0, e, x, [], .rest, h.leaf.enters, heq⟩)
  refine ⟨hleaf.way.mono fun q m hm hdir hcross => ?_, ?_⟩
  · exact h.keep hm hdir (fun hq => hleaf.not_crosses_self hlink (hq ▸ hcross)) fun hq =>
      hc (hq ▸ hcross)
  · rw [find?_moved, if_neg hnew, if_neg hold, if_pos rfl]

/-- If the draft does not come across the name, the path of the name leads to the file. -/
theorem read (beside : ¬ t.Crosses (d ++ [name]) (t.start p) (pieces ++ [name']))
    (hl : p.WithinLimits) (he : p.text ≠ "") (hlinks : links ≤ linkLimit) :
    (t.moved e x d name' name bytes node).read p = .ok bytes := by
  have way := h.way_moved fun hc => beside (hc.append [name'])
  rcases h.cases with ⟨rfl, rfl, -⟩ | ⟨target, more, hlink, rfl, rfl, hleaf⟩
  · refine read_of_way hl he hlinks ?_ h.enters (find?_name ..)
    rw [start_moved, h.split]
    exact way.append [name]
  · obtain ⟨behind, hend⟩ := h.behind_moved hlink hleaf fun hc => beside (h.crosses_of_link hlink hc)
    have hway :=
      (way.append [name]).trans (.step (next?_link h.enters (find?_name ..)) (behind.append []))
    rw [← Nat.add_assoc] at hway
    refine read_of_way hl he hlinks ?_ h.leaf.enters hend
    rw [start_moved, h.split]
    exact hway

/-- The name is still come across before its directory is reached. -/
theorem crosses_moved (hc : t.Crosses (d ++ [name]) (t.start p) pieces) :
    (t.moved e x d name' name bytes node).Crosses (d ++ [name]) (t.start p) pieces :=
  hc.first fun _ _ hm hdir hcross => h.keep hm hdir (h.not_crosses_draft hm hdir hcross)

/-- A way comes to the link that was moved, with pieces behind it if the name is come across before. -/
theorem way_link {target : String} (hnode : node = .link target) :
    ∃ k rest, (t.moved e x d name' name bytes node).Way (t.start p) (pieces ++ [name]) k
        (linkStart target d) ((⟨target⟩ : Path).pieces ++ rest) ∧
      (t.Crosses (d ++ [name]) (t.start p) pieces → rest ≠ []) := by
  subst hnode
  have hentry := t.find?_name e x d name' name bytes (.link target)
  by_cases hc : t.Crosses (d ++ [name]) (t.start p) pieces
  · obtain ⟨k, rest, hway⟩ := (h.crosses_moved hc).link hentry
    have hway := hway.append [name]
    rw [List.append_assoc] at hway
    exact ⟨_, _, hway, fun _ => by simp⟩
  · exact ⟨_, [], ((h.way_moved hc).append [name]).trans (.step (next?_link h.enters hentry) .rest),
      fun hc' => absurd hc' hc⟩

/-- If the draft comes across the name, the way to the name goes past it or in a circle, and no file is
at its end. -/
theorem not_read (hc : t.Crosses (d ++ [name]) (t.start p) (pieces ++ [name']))
    (content : List UInt8) :
    (t.moved e x d name' name bytes node).read p ≠ .ok content := by
  intro hread
  obtain ⟨k, d', y, leaf⟩ := read_leaf hread
  rw [start_moved, h.split] at leaf
  have hend := leaf.stops []
  have hentry := t.find?_name e x d name' name bytes node
  have hne : d ++ [name] ≠ d ++ [name'] := by simpa using h.ne.symm
  have hbefore := crosses_cases hc h.way hne
  rcases h.cases with ⟨-, rfl, hfile⟩ | ⟨target, more, hlink, rfl, -, hleaf⟩
  · -- the file stands where the path of the name goes on
    have hc := hbefore.resolve_right fun hc => hne (hc.eq_of_fileOnly h.enters' hfile)
    obtain ⟨_, rest, hway, enters⟩ := (h.crosses_moved hc).exists_way
    obtain ⟨-, -, hnil⟩ := (hway.append [name]).unique leaf.way
      (next?_fileOnly enters (fileOnly_of_find? hentry)) hend
    simp at hnil
  · obtain ⟨_, rest, hway, hrest⟩ := h.way_link rfl
    obtain ⟨_, -, hgo⟩ := hway.rest_of leaf.way hend
    by_cases hbehind : t.Crosses (d ++ [name]) (linkStart target d) (⟨target⟩ : Path).pieces
    · -- the link leads to itself
      have hagain := hbehind.first fun q m hm hdir hcross =>
        h.keep hm hdir fun hq => hleaf.not_crosses_self hlink (hq ▸ hcross)
      obtain ⟨_, _, hcircle⟩ := hagain.link hentry
      exact hcircle.no_end hgo hend
    · -- the link leads to the file, where the path of the name goes on
      have hc := hbefore.resolve_right fun hc => hbehind (hc.behind h.enters' hlink hne)
      obtain ⟨behind, hfile⟩ := h.behind_moved hlink hleaf hbehind
      have hmoved : Leaf _ _ _ more e x := ⟨behind, h.leaf.enters, fileOnly_of_find? hfile⟩
      obtain ⟨-, -, heq⟩ := hmoved.ends rest hgo hend
      exact hrest hc (List.cons.inj heq).2.symm

end Drafted

/-- What was written at a draft name and moved to a name in its directory. -/
theorem exists_drafted (drafts : draft.Drafts p) (hw : t.write draft bytes = .ok t')
    (hr : t'.rename draft p = .ok t'') :
    p.WithinLimits ∧ p.text ≠ "" ∧ ∃ pieces name name' d above links e x node, links ≤ linkLimit ∧
      draft.pieces = pieces ++ [name'] ∧ t.start draft = t.start p ∧
      t.Drafted p pieces d name name' above links e x bytes node ∧
      t.resolve false p = .ok (t.standing d name) ∧
      t'' = t.moved e x d name' name bytes node := by
  obtain ⟨_, -, pieces, name, hp, hn⟩ := name_of_rename hr
  obtain ⟨name', hn', hne, hd⟩ := drafts hp hn
  have hstart (u : Tree) : u.start draft = u.start p := by
    unfold start
    rw [Path.isAbsolute_congr hd hp hn' hn]
  obtain ⟨links, e, x, hlinks, leaf, rfl⟩ := write_leaf hw
  obtain ⟨goal, hgoal, -⟩ := bind_ok hw
  obtain ⟨hdl, hde, hwalk⟩ := resolve_ok hgoal
  rw [hd, hstart] at hwalk leaf
  obtain ⟨n, k, d, hk, above, hlast⟩ := exists_way_above hn'.ne_empty hwalk
  have hlimit : n ≤ linkLimit := by omega
  have enters' := enters_of_walk hn' hlast
  have above' := above.put leaf.fileOnly bytes
  obtain ⟨hpl, hpe, enters, node, hnode, rfl⟩ :=
    rename_beside hn hne hp hd (hstart _) hdl hde enters' hlimit above' hr
  exact ⟨hpl, hpe, pieces, name, name', d, n, links, e, x, node, hlinks, hd, hstart t,
    ⟨hp, enters, enters', hne, above, leaf, hnode⟩,
    resolve_standing hpl hpe hp enters hlimit above, rfl⟩

/-- The path of a name leads to the file that was written at a draft name and moved from there, if the
way of the draft does not come across the entry of the name; else it leads to no file at all. -/
theorem read_replaced (drafts : draft.Drafts p) (hw : t.write draft bytes = .ok t')
    (hr : t'.rename draft p = .ok t'') :
    (t.Beside p draft → t''.read p = .ok bytes) ∧
      (¬ t.Beside p draft → ∀ content, t''.read p ≠ .ok content) := by
  obtain ⟨hpl, hpe, pieces, name, name', d, above, links, e, x, node, hlinks, hd, hstart, h, hgoal,
    rfl⟩ := exists_drafted drafts hw hr
  have hbeside : t.Beside p draft ↔ ¬ t.Crosses (d ++ [name]) (t.start p) (pieces ++ [name']) := by
    unfold Beside
    rw [hgoal, hstart, hd]
    constructor
    · intro hb
      have hc := hb _ rfl
      rwa [place_standing] at hc
    · intro hc goal heq
      rwa [← Except.ok.inj heq, place_standing]
  rw [hbeside, not_not]
  exact ⟨fun hc => h.read hc hpl hpe hlinks, h.not_read⟩

/-- A file can be written at a draft name and moved to a name that is not one of a directory. -/
theorem exists_replaced {above : Nat} {e : Place} {x : String} (hn : IsName name) (hn' : IsName name')
    (hne : name' ≠ name) (hp : p.pieces = pieces ++ [name])
    (hd : draft.pieces = pieces ++ [name']) (hpl : p.WithinLimits) (hdl : draft.WithinLimits)
    (enters : Enters name) (enters' : Enters name') (way : t.Way (t.start p) pieces above d [])
    (leaf : t.Leaf (t.start p) (pieces ++ [name']) links e x) (hlinks : links ≤ linkLimit)
    (hdir : t.find? (d ++ [name]) ≠ some .directory) (bytes : List UInt8) :
    ∃ t' t'', t.write draft bytes = .ok t' ∧ t'.rename draft p = .ok t'' := by
  have hpe := Path.text_ne_empty_of_pieces hp hn
  have hde := Path.text_ne_empty_of_pieces hd hn'
  have hstart (u : Tree) : u.start draft = u.start p := by
    unfold start
    rw [Path.isAbsolute_congr hd hp hn' hn]
  have hend := leaf.stops []
  obtain ⟨_, hmore, -⟩ := (way.append [name']).rest_of leaf.way hend
  have hlimit : above ≤ linkLimit := by omega
  have hresolve := Leaf.resolve (hd ▸ hstart t ▸ leaf) hdl hde hlinks
  have way' := way.put leaf.fileOnly bytes
  -- after the file was written the draft holds it or a link still, and the name no directory
  have hheld : ∃ node, (t.put (e ++ [x]) (.file bytes t.now)).find? (d ++ [name']) = some node ∧
      node ≠ .directory := by
    rw [find?_put _ (by simp)]
    split
    · exact ⟨_, rfl, nofun⟩
    · rcases leaf.cases enters' way with ⟨-, hplace, -⟩ | ⟨target, _, hlink, -⟩
      · exact absurd hplace.symm ‹_›
      · exact ⟨_, hlink, nofun⟩
  have hfree : (t.put (e ++ [x]) (.file bytes t.now)).find? (d ++ [name]) ≠ some .directory := by
    rw [find?_put _ (by simp)]
    split
    · exact nofun
    · exact hdir
  obtain ⟨node, hnode, hfile⟩ := hheld
  exact ⟨_, _, write_ok hresolve leaf.fileOnly bytes, rename_of_standing hp hn
    (resolve_standing hdl hde hd enters' hlimit (hstart _ ▸ way'))
    (resolve_standing hpl hpe hp enters hlimit way') hne hnode hfile hfree⟩

end Tree
end SourceSurvey
