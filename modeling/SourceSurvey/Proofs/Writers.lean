import SourceSurvey.Proofs.Export
import SourceSurvey.Proofs.Settings.Saved
import SourceSurvey.Proofs.Tree.Outcome

/-!
# Writers over drafts

Exports and settings are written over drafts. If nothing stands where the draft is to be, a writer that
reports success has replaced the file and nothing else. A writer that fails has kept every node that was
there; it has added nothing but directories, or else it has written the draft, could not move it and left
it (`outcome_of_writers`). The draft of an export that cannot be written is removed, but one that cannot
be moved is not: an export to where a directory stands leaves it (`Exporter.abandoned_run`).
-/

namespace SourceSurvey

open SourceSurvey.Path (IsEntry)
open SourceSurvey.Tree (Outcome Grows Fresh)

variable {t t' : Tree} {p : Path}

namespace Exporter

/-- How an export ends. -/
theorem outcome_run (fresh : t.Fresh (prepareParent t p).1 (draftPath p)) (modules : PathMap Module)
    (edges : List Edge) :
    t.Outcome p (draftPath p) (Text.encode (lines modules edges))
      ((jsonLines p).run t modules edges).1 ((jsonLines p).run t modules edges).2.isOk := by
  have grows : t.Grows (prepareParent t p).1 := .createParent t _ p
  have undrafted := fresh.undrafted grows
  unfold run
  dsimp only
  rw [Text.toUTF8_eq_encode, String.toList_ofList]
  split
  · rename_i t₀ e hprepare
    rw [hprepare] at grows undrafted
    exact .untouched grows undrafted
  · rename_i t₀ hprepare
    rw [hprepare] at grows undrafted
    split
    · obtain ⟨e, hremove⟩ := undrafted.removeFile
      rw [hremove]
      exact .untouched grows undrafted
    · rename_i t₁ hwrite
      split
      · exact .abandoned grows (Tree.abandoned_of_rename undrafted hwrite ‹_›)
      · exact .replaced grows (Tree.replaced_of_rename (drafts p) undrafted hwrite ‹_›)

/-- An export to where a directory stands fails and leaves its draft. -/
theorem abandoned_run {t₀ t₁ : Tree} {place : Place} {modules : PathMap Module} {edges : List Edge}
    (hprepare : prepareParent t p = (t₀, .ok ())) (undrafted : t₀.Undrafted (draftPath p))
    (hwrite : t₀.write (draftPath p) (Text.encode (lines modules edges)) = .ok t₁)
    (hdir : t₀.resolve false p = .ok (.found place .directory)) :
    ∃ e, (jsonLines p).run t modules edges = (t₁, .error (.io e)) ∧
      t₀.Abandoned t₁ p (draftPath p) (Text.encode (lines modules edges)) := by
  have left := Tree.abandoned_of_directory undrafted hwrite hdir
  obtain ⟨e, hrename⟩ := left.stuck
  refine ⟨e, ?_, left⟩
  unfold run
  dsimp only
  rw [hprepare]
  dsimp only
  rw [Text.toUTF8_eq_encode, String.toList_ofList, hwrite]
  dsimp only
  rw [hrename]

end Exporter

namespace Settings

variable {s : Settings}

/-- How saving settings ends. -/
theorem outcome_save (fresh : t.Fresh (prepareParent t p).1 (draftPath p)) (s : Settings) :
    t.Outcome p (draftPath p) (Text.encode s.toToml.toList) (s.save t p).1 (s.save t p).2.isOk := by
  have grows : t.Grows (prepareParent t p).1 := .createParent t _ p
  have undrafted := fresh.undrafted grows
  unfold save
  rw [Text.toUTF8_eq_encode]
  split
  · exact .untouched (.refl t) (undrafted.of_grows grows)
  · split
    · rename_i t₀ e hprepare
      rw [hprepare] at grows undrafted
      exact .untouched grows undrafted
    · rename_i t₀ hprepare
      rw [hprepare] at grows undrafted
      split
      · exact .untouched grows undrafted
      · rename_i t₁ hwrite
        split
        · exact .abandoned grows (Tree.abandoned_of_rename undrafted hwrite ‹_›)
        · exact .replaced grows (Tree.replaced_of_rename (drafts p) undrafted hwrite ‹_›)

/-- Saving settings to where a directory stands fails and leaves the draft. -/
theorem abandoned_save {t₀ t₁ : Tree} {place : Place} (hvalid : s.validate = .ok ())
    (hprepare : prepareParent t p = (t₀, .ok ())) (undrafted : t₀.Undrafted (draftPath p))
    (hwrite : t₀.write (draftPath p) (Text.encode s.toToml.toList) = .ok t₁)
    (hdir : t₀.resolve false p = .ok (.found place .directory)) :
    ∃ e, s.save t p = (t₁, failed "Failed to rename config file" e) ∧
      t₀.Abandoned t₁ p (draftPath p) (Text.encode s.toToml.toList) := by
  have left := Tree.abandoned_of_directory undrafted hwrite hdir
  obtain ⟨e, hrename⟩ := left.stuck
  refine ⟨e, ?_, left⟩
  unfold save
  rw [hvalid, hprepare]
  dsimp only
  rw [Text.toUTF8_eq_encode, hwrite]
  dsimp only
  rw [hrename]

end Settings

/-- Writers over drafts that were not there replace the file and nothing else if they report success, else
they keep every node that was there, and leave a draft if they wrote it and could not move it. -/
theorem outcome_of_writers (t : Tree) (p : Path) :
    (t.Fresh (Exporter.prepareParent t p).1 (Exporter.draftPath p) → ∀ modules edges,
      t.Outcome p (Exporter.draftPath p) (Text.encode (Exporter.lines modules edges))
        ((Exporter.jsonLines p).run t modules edges).1
        ((Exporter.jsonLines p).run t modules edges).2.isOk) ∧
    (t.Fresh (Settings.prepareParent t p).1 (Settings.draftPath p) → ∀ s : Settings,
      t.Outcome p (Settings.draftPath p) (Text.encode s.toToml.toList) (s.save t p).1
        (s.save t p).2.isOk) :=
  ⟨Exporter.outcome_run, Settings.outcome_save⟩

/-- An export to a directory and settings saved there fail, and both leave their drafts. -/
theorem outcome_of_writers_blocked :
    let p : Path := ⟨"out"⟩
    let t := Tree.single "out" .directory
    let r := (Exporter.jsonLines p).run t Exporter.noted []
    let r' := Settings.noted.save t p
    t.Fresh (Exporter.prepareParent t p).1 (Exporter.draftPath p) ∧
      t.Fresh (Settings.prepareParent t p).1 (Settings.draftPath p) ∧
      t.Outcome p ⟨"out.tmp"⟩ (Text.encode (Exporter.lines Exporter.noted [])) r.1 r.2.isOk ∧
      t.Outcome p ⟨"out.toml.tmp"⟩ (Text.encode Settings.noted.toToml.toList) r'.1 r'.2.isOk ∧
      r.2.isOk = false ∧ r'.2.isOk = false ∧
      t.Abandoned r.1 p ⟨"out.tmp"⟩ (Text.encode (Exporter.lines Exporter.noted [])) ∧
      t.Abandoned r'.1 p ⟨"out.toml.tmp"⟩ (Text.encode Settings.noted.toToml.toList) := by
  intro p t r r'
  have hd : Exporter.draftPath p = ⟨"out.tmp"⟩ := by decide
  have hd' : Settings.draftPath p = ⟨"out.toml.tmp"⟩ := by decide
  have hn : IsEntry "out.tmp" := by decide
  have hn' : IsEntry "out.toml.tmp" := by decide
  have hparent : p.parent? = some ⟨""⟩ := by decide
  have hdir : t.resolve false p = .ok (.found ["out"] .directory) := by
    refine (Tree.resolve_single (by decide)).trans ?_
    rw [Tree.standing_some Tree.find?_single_self]
    rfl
  have hprepare : Exporter.prepareParent t p = (t, .ok ()) := Tree.createParent_top hparent (by decide)
  have hprepare' : Settings.prepareParent t p = (t, .ok ()) := Tree.createParent_top hparent rfl
  have fresh : t.Fresh t ⟨"out.tmp"⟩ := Tree.fresh_single hn (by decide)
  have fresh' : t.Fresh t ⟨"out.toml.tmp"⟩ := Tree.fresh_single hn' (by decide)
  obtain ⟨t₁, hwrite⟩ : ∃ t₁, t.write ⟨"out.tmp"⟩ _ = .ok t₁ := Tree.exists_write_single hn (by decide)
    (Text.encode (Exporter.lines Exporter.noted []))
  obtain ⟨t₂, hwrite'⟩ : ∃ t₂, t.write ⟨"out.toml.tmp"⟩ _ = .ok t₂ := Tree.exists_write_single hn'
    (by decide) (Text.encode Settings.noted.toToml.toList)
  rw [← hd] at fresh hwrite
  rw [← hd'] at fresh' hwrite'
  obtain ⟨e, hrun, left⟩ := Exporter.abandoned_run hprepare (fresh.undrafted (.refl _)) hwrite hdir
  obtain ⟨e', hsave, left'⟩ := Settings.abandoned_save Settings.validate_noted hprepare'
    (fresh'.undrafted (.refl _)) hwrite' hdir
  obtain ⟨houtcome, houtcome'⟩ := outcome_of_writers t p
  have hfresh : t.Fresh (Exporter.prepareParent t p).1 (Exporter.draftPath p) := by
    rw [hprepare]
    exact fresh
  have hfresh' : t.Fresh (Settings.prepareParent t p).1 (Settings.draftPath p) := by
    rw [hprepare']
    exact fresh'
  have hr : r = (t₁, .error (.io e)) := hrun
  have hr' : r' = (t₂, Settings.failed "Failed to rename config file" e') := hsave
  have ends := houtcome hfresh Exporter.noted []
  have ends' := houtcome' hfresh' Settings.noted
  rw [hd] at ends left
  rw [hd'] at ends' left'
  refine ⟨hfresh, hfresh', ends, ends', ?_, ?_, ?_, ?_⟩
  · rw [hr]; rfl
  · rw [hr']; rfl
  · rw [hr]; exact left
  · rw [hr']; exact left'

end SourceSurvey
