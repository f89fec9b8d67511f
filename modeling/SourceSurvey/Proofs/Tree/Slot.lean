import SourceSurvey.Proofs.Tree.Names
import SourceSurvey.Tree.File

/-!
# Slots

A slot is a place of which a path is known to lead there, unless it leads nowhere
(`Tree.SlotAt`), and at which there is nothing but a file. What reading, writing, moving and
removing do to a slot is said by one lemma for each operation; no operation touches another place.
-/

namespace SourceSurvey

open SourceSurvey.Path (IsName)

namespace Tree

variable {t t' : Tree} {p : Path} {d q : Place} {name : String}

theorem bind_ok {ε α β : Type} {x : Except ε α} {f : α → Except ε β} {b : β}
    (h : (x >>= f) = .ok b) : ∃ a, x = .ok a ∧ f a = .ok b := by
  cases x with
  | error e => cases h
  | ok a => exact ⟨a, rfl, h⟩

/-- A path that leads to one target or nowhere leads to that target if it leads anywhere. -/
theorem eq_of_resolve {follow : Bool} {target target' : Target}
    (h : (∃ e, t.resolve follow p = .error e) ∨ t.resolve follow p = .ok target)
    (hr : t.resolve follow p = .ok target') : target' = target := by
  rcases h with ⟨e, he⟩ | ho
  · exact nomatch he.symm.trans hr
  · exact Except.ok.inj (hr.symm.trans ho)

/-- A path leads to a name in a directory, or nowhere. -/
def SlotAt (t : Tree) (p : Path) (d : Place) (name : String) : Prop :=
  ∀ follow, (∃ e, t.resolve follow p = .error e) ∨ t.resolve follow p = .ok (t.standing d name)

/-- There is nothing but a file at a place. -/
def FileOnly (t : Tree) (q : Place) : Prop := ∀ n, t.find? q = some n → n.IsFile

theorem FileOnly.cases (h : t.FileOnly q) :
    t.find? q = none ∨ ∃ bytes changed, t.find? q = some (.file bytes changed) := by
  cases hf : t.find? q with
  | none => exact .inl rfl
  | some n =>
    obtain ⟨bytes, changed⟩ := h n hf
    exact .inr ⟨bytes, changed, rfl⟩

theorem fileOnly_of_find? {q : Place} {bytes : List UInt8} {changed : Instant}
    (h : t.find? q = some (.file bytes changed)) : t.FileOnly q := by
  intro n hn
  rw [← Option.some.inj (h.symm.trans hn)]
  exact ⟨_, _⟩

theorem standing_none (h : t.find? (d ++ [name]) = none) :
    t.standing d name = .free d name false := by
  unfold standing
  rw [h]

theorem standing_some {n : Node} (h : t.find? (d ++ [name]) = some n) :
    t.standing d name = .found (d ++ [name]) n := by
  unfold standing
  rw [h]

/-- What a slot holds. -/
theorem SlotAt.locate (h : t.SlotAt p d name) {place : Place} {n : Node}
    (hl : t.locate p = .ok (place, n)) :
    place = d ++ [name] ∧ t.find? (d ++ [name]) = some n := by
  have hfound := eq_of_resolve (h true) (locate_ok hl)
  cases hf : t.find? (d ++ [name]) with
  | none =>
    rw [standing_none hf] at hfound
    cases hfound
  | some m =>
    rw [standing_some hf] at hfound
    obtain ⟨rfl, rfl⟩ := Target.found.inj hfound
    exact ⟨rfl, rfl⟩

/-- The bytes of a slot. -/
theorem SlotAt.read (h : t.SlotAt p d name) {bytes : List UInt8} (hr : t.read p = .ok bytes) :
    ∃ changed, t.find? (d ++ [name]) = some (.file bytes changed) := by
  unfold Tree.read at hr
  obtain ⟨⟨place, n⟩, hl, hr⟩ := bind_ok hr
  obtain ⟨-, hf⟩ := h.locate hl
  cases n with
  | file bytes' changed =>
    obtain rfl := Except.ok.inj hr
    exact ⟨changed, hf⟩
  | directory => cases hr
  | link => cases hr

/-- The text of a slot is what its bytes decode to. -/
theorem SlotAt.readText (h : t.SlotAt p d name) {text : List Char}
    (hr : t.readText p = .ok text) :
    ∃ bytes changed, t.find? (d ++ [name]) = some (.file bytes changed) ∧
      Text.decode? bytes = some text := by
  unfold Tree.readText at hr
  obtain ⟨bytes, hb, hr⟩ := bind_ok hr
  obtain ⟨changed, hf⟩ := h.read hb
  refine ⟨bytes, changed, hf, ?_⟩
  cases hd : Text.decode? bytes with
  | none => rw [hd] at hr; cases hr
  | some text' =>
    rw [hd] at hr
    rw [Except.ok.inj hr]

/-- Writing a slot puts a file there. -/
theorem SlotAt.write (h : t.SlotAt p d name) (hf : t.FileOnly (d ++ [name])) {bytes : List UInt8}
    (hw : t.write p bytes = .ok t') : t' = t.put (d ++ [name]) (.file bytes t.now) := by
  unfold Tree.write at hw
  obtain ⟨target, hr, hw⟩ := bind_ok hw
  obtain rfl := eq_of_resolve (h true) hr
  rcases hf.cases with hn | ⟨bytes', changed, hn⟩
  · rw [standing_none hn] at hw
    exact (Except.ok.inj hw).symm
  · rw [standing_some hn] at hw
    exact (Except.ok.inj hw).symm

/-- A slot to which the path leads can be written. -/
theorem write_ok (hr : t.resolve true p = .ok (t.standing d name)) (hf : t.FileOnly (d ++ [name]))
    (bytes : List UInt8) : t.write p bytes = .ok (t.put (d ++ [name]) (.file bytes t.now)) := by
  unfold Tree.write
  rw [hr]
  rcases hf.cases with hn | ⟨bytes', changed, hn⟩
  · rw [standing_none hn]
    rfl
  · rw [standing_some hn]
    rfl

/-- Removing a slot removes what stands there. -/
theorem SlotAt.removeFile (h : t.SlotAt p d name) (hw : t.removeFile p = .ok t') :
    t' = t.remove (d ++ [name]) := by
  unfold Tree.removeFile at hw
  obtain ⟨target, hr, hw⟩ := bind_ok hw
  obtain rfl := eq_of_resolve (h false) hr
  cases hn : t.find? (d ++ [name]) with
  | none =>
    rw [standing_none hn] at hw
    cases hw
  | some n =>
    rw [standing_some hn] at hw
    cases n with
    | directory => cases hw
    | file => exact (Except.ok.inj hw).symm
    | link => exact (Except.ok.inj hw).symm

/-- What a move does: it takes a file or a link to where the other path leads, unless that is a
directory. -/
theorem rename_inv {p' : Path} (h : t.rename p p' = .ok t') :
    ∃ old node goal, t.resolve false p = .ok (.found old node) ∧ node ≠ .directory ∧
      t.resolve false p' = .ok goal ∧ p'.pieces.getLastD "" ∉ ["", ".", ".."] ∧
      ((∃ place m, goal = .found place m ∧ m ≠ .directory ∧
          t' = if place = old then t else (t.remove old).put place node) ∨
        ∃ d name slash, goal = .free d name slash ∧ t' = (t.remove old).put (d ++ [name]) node) := by
  unfold Tree.rename at h
  obtain ⟨source, hr, h⟩ := bind_ok h
  cases source with
  | free => cases h
  | found old node =>
    cases node with
    | directory => cases h
    | file | link =>
      obtain ⟨goal, hg, h⟩ := bind_ok h
      split at h
      · cases h
      rename_i hlast
      split at h
      · cases h
      rename_i hslash
      have hslash : p'.withoutSlashes = p' := by simpa using hslash
      rw [hslash] at hg hlast
      refine ⟨old, _, goal, hr, nofun, hg, by simpa using hlast, ?_⟩
      cases goal with
      | free d name slash => exact .inr ⟨d, name, slash, rfl, (Except.ok.inj h).symm⟩
      | found place m =>
        cases m with
        | directory => cases h
        | file | link => exact .inl ⟨place, _, rfl, nofun, (Except.ok.inj h).symm⟩

/-- Moving what stands at a name takes it to the other name of the directory. -/
theorem rename_standing {p' : Path} {name' : String}
    (h : (∃ e, t.resolve false p = .error e) ∨ t.resolve false p = .ok (t.standing d name))
    (h' : (∃ e, t.resolve false p' = .error e) ∨ t.resolve false p' = .ok (t.standing d name'))
    (hne : name ≠ name') (hw : t.rename p p' = .ok t') :
    ∃ node, t.find? (d ++ [name]) = some node ∧
      t' = (t.remove (d ++ [name])).put (d ++ [name']) node := by
  obtain ⟨old, node, goal, hr, -, hg, -, hmove⟩ := rename_inv hw
  have hold : t.standing d name = .found old node := (eq_of_resolve h hr).symm
  have hgoal : t.standing d name' = goal := (eq_of_resolve h' hg).symm
  cases hn : t.find? (d ++ [name]) with
  | none =>
    rw [standing_none hn] at hold
    exact nomatch hold
  | some n =>
    rw [standing_some hn] at hold
    obtain ⟨rfl, rfl⟩ := Target.found.inj hold
    refine ⟨n, rfl, ?_⟩
    have hplace : d ++ [name'] ≠ d ++ [name] := by
      intro heq
      exact hne (List.singleton_inj.mp (List.append_cancel_left heq)).symm
    rcases hmove with ⟨place, m, rfl, -, rfl⟩ | ⟨d', x, slash, rfl, rfl⟩
    · cases hn' : t.find? (d ++ [name']) with
      | none =>
        rw [standing_none hn'] at hgoal
        exact nomatch hgoal
      | some m' =>
        rw [standing_some hn'] at hgoal
        obtain ⟨rfl, -⟩ := Target.found.inj hgoal
        rw [if_neg hplace]
    · cases hn' : t.find? (d ++ [name']) with
      | none =>
        rw [standing_none hn'] at hgoal
        obtain ⟨rfl, rfl, -⟩ := Target.free.inj hgoal
        rfl
      | some m' =>
        rw [standing_some hn'] at hgoal
        exact nomatch hgoal

/-- Moving a slot takes its file from one name to the other. -/
theorem SlotAt.rename {p' : Path} {name' : String} (h : t.SlotAt p d name)
    (h' : t.SlotAt p' d name') (hne : name ≠ name') (hw : t.rename p p' = .ok t') :
    ∃ node, t.find? (d ++ [name]) = some node ∧
      t' = (t.remove (d ++ [name])).put (d ++ [name']) node :=
  rename_standing (h false) (h' false) hne hw

/-- What stands at a name can be moved to another name of the directory, if neither has a directory. -/
theorem rename_of_standing {p' : Path} {pieces : List String} {name' : String} {node : Node}
    (hpieces : p'.pieces = pieces ++ [name']) (hn' : IsName name')
    (hr : t.resolve false p = .ok (t.standing d name))
    (hr' : t.resolve false p' = .ok (t.standing d name')) (hne : name ≠ name')
    (hf : t.find? (d ++ [name]) = some node) (hnode : node ≠ .directory)
    (hf' : t.find? (d ++ [name']) ≠ some .directory) :
    t.rename p p' = .ok ((t.remove (d ++ [name])).put (d ++ [name']) node) := by
  have hplace : d ++ [name'] ≠ d ++ [name] := by
    intro heq
    exact hne (List.singleton_inj.mp (List.append_cancel_left heq)).symm
  have hlast : ¬ (["", ".", ".."].contains (p'.pieces.getLastD "") = true) := by
    rw [hpieces, List.getLastD_concat]
    simp [hn'.ne_empty, hn'.ne_here, hn'.ne_up]
  unfold Tree.rename
  rw [hr, standing_some hf, Path.withoutSlashes_of_pieces hpieces hn', hr']
  cases node with
  | directory => exact absurd rfl hnode
  | file | link =>
    dsimp only [bind, Except.bind]
    rw [if_neg hlast, if_neg (by simp)]
    cases hn : t.find? (d ++ [name']) with
    | none => rw [standing_none hn]
    | some m =>
      rw [standing_some hn]
      cases m with
      | directory => exact absurd hn hf'
      | file | link =>
        dsimp only
        rw [if_neg hplace]

/-- A file can be moved to a slot to which the path leads. -/
theorem rename_ok {p' : Path} {name' : String} (hn' : IsName name')
    (hr : t.resolve false p = .ok (t.standing d name))
    (hr' : t.resolve false (p'.join ⟨name'⟩) = .ok (t.standing d name')) (hne : name ≠ name')
    {bytes : List UInt8} {changed : Instant}
    (hf : t.find? (d ++ [name]) = some (.file bytes changed)) (hf' : t.FileOnly (d ++ [name'])) :
    t.rename p (p'.join ⟨name'⟩) =
      .ok ((t.remove (d ++ [name])).put (d ++ [name']) (.file bytes changed)) :=
  rename_of_standing (Path.pieces_join p' hn') hn' hr hr' hne hf
    nofun fun hd => Node.not_isFile_directory (hf' _ hd)

/-- Removing a directory at a slot removes everything at and below it. -/
theorem SlotAt.removeDirectory (h : t.SlotAt p d name) (hw : t.removeDirectory p = .ok t') :
    t' = t.removeBelow (d ++ [name]) := by
  unfold Tree.removeDirectory at hw
  obtain ⟨target, hr, hw⟩ := bind_ok hw
  obtain rfl := eq_of_resolve (h false) hr
  cases hn : t.find? (d ++ [name]) with
  | none =>
    rw [standing_none hn] at hw
    cases hw
  | some n =>
    rw [standing_some hn] at hw
    cases n with
    | file => cases hw
    | directory => exact (Except.ok.inj hw).symm
    | link => exact (Except.ok.inj hw).symm

/-- Making a directory with those above it makes it at once, or changes nothing if it fails for
another reason than that a directory above is missing. -/
theorem createDirectories_cases (t : Tree) {p : Path} (hp : p.text ≠ "") :
    (∃ t', t.createDirectory p = .ok t' ∧ t.createDirectories p = (t', .ok ())) ∨
      ∃ e, t.createDirectory p = .error e ∧
        (e.kind ≠ .notFound → (t.createDirectories p).1 = t) := by
  unfold createDirectories createUpTo
  rw [if_neg hp]
  cases hc : t.createDirectory p with
  | ok t' => exact .inl ⟨t', rfl, rfl⟩
  | error e =>
    refine .inr ⟨e, rfl, fun he => ?_⟩
    simp only [if_neg he]

end Tree
end SourceSurvey
