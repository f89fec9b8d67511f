import SourceSurvey.Proofs.Settings.Document
import SourceSurvey.Proofs.Tree.Single

/-!
# Settings saved and loaded

Settings are saved over a draft, which has another name in the same directory (`Settings.drafts`). If the
draft is beside the file (`Tree.Beside`), the file holds the document of the settings afterwards and
loading it gives the settings back (`Settings.loadFrom_save`), for the rules that were checked before
saving are those that are checked after loading. If the draft is not beside it, saving succeeds all the
same and there is nothing to load (`Settings.not_loadFrom_save`).
-/

namespace SourceSurvey

open SourceSurvey.Path (IsName IsEntry)

/-- None of the variables of the settings is set. -/
def Environment.Unset (e : Environment) : Prop :=
  ∀ name, "STRATA_".toList <+: name.toList → e.get? name = none

namespace Settings

variable {s s' : Settings} {t t' : Tree} {p : Path} {e : Environment}

/-! ## The draft -/

theorem isName_draft {name : String} (hn : IsName name) :
    IsName ((Path.cutName name).1 ++ "." ++ "toml.tmp") := by
  have hlast : '/' ∉ ("." : String).toList ∧ '/' ∉ ("toml.tmp" : String).toList := by decide
  refine .of_mem (c := 't') ?_ (by decide) ?_
  · rw [String.toList_append]
    exact List.mem_append_right _ (by decide)
  · simp only [String.toList_append, List.mem_append, not_or]
    exact ⟨⟨fun hc => hn.no_slash (Path.mem_cutName hc), hlast.1⟩, hlast.2⟩

/-- A draft name is cut elsewhere than the name that it is made of. -/
theorem draft_ne (name : String) : (Path.cutName name).1 ++ "." ++ "toml.tmp" ≠ name := by
  intro h
  have hsplit : (Path.cutName name).1 ++ ".toml" ++ "." ++ "tmp" = name := by
    refine Eq.trans ?_ h
    rw [← String.toList_inj]
    simp
  have hne : (Path.cutName name).1 ++ ".toml" ≠ "" := by simp
  have hcut := Path.cutName_append hne (by decide : '.' ∉ ("tmp" : String).toList)
  rw [hsplit] at hcut
  have hlength := congrArg (fun r => r.1.length) hcut
  simp at hlength

/-- The draft has another name in the directory of the file. -/
theorem drafts (p : Path) : (draftPath p).Drafts p := fun h hn =>
  ⟨_, isName_draft hn, draft_ne _, Path.pieces_withExtension h hn (by decide) (by decide)⟩

/-! ## Saving -/

/-- The steps of saving settings that succeeds. -/
theorem save_ok (h : s.save t p = (t', .ok ())) :
    s.validate = .ok () ∧
      ∃ t₁, (prepareParent t p).1.write (draftPath p) (Text.encode s.toToml.toList) = .ok t₁ ∧
        t₁.rename (draftPath p) p = .ok t' := by
  unfold save at h
  rw [Text.toUTF8_eq_encode] at h
  split at h
  · cases h
  · rename_i hvalid
    split at h
    · cases h
    · rename_i t₀ hprepare
      split at h
      · cases h
      · rename_i t₁ hwrite
        split at h
        · cases h
        · rename_i t₂ hrename
          cases h
          exact ⟨hvalid, t₁, by rw [hprepare]; exact hwrite, hrename⟩

/-- Settings that obey the rules are saved if their document can be written to the draft and moved. -/
theorem save_of_replaced {t₀ t₁ : Tree} (hvalid : s.validate = .ok ())
    (hprepare : prepareParent t p = (t₀, .ok ()))
    (hwrite : t₀.write (draftPath p) (Text.encode s.toToml.toList) = .ok t₁)
    (hrename : t₁.rename (draftPath p) p = .ok t') : s.save t p = (t', .ok ()) := by
  unfold save
  rw [hvalid, hprepare]
  dsimp only
  rw [Text.toUTF8_eq_encode, hwrite]
  dsimp only
  rw [hrename]

/-- The path of saved settings leads to their document if the draft is beside it, else to no file. -/
theorem read_save (h : s.save t p = (t', .ok ())) :
    ((prepareParent t p).1.Beside p (draftPath p) →
      t'.read p = .ok (Text.encode s.toToml.toList)) ∧
    (¬ (prepareParent t p).1.Beside p (draftPath p) → ∀ content, t'.read p ≠ .ok content) := by
  obtain ⟨-, t₁, hwrite, hrename⟩ := save_ok h
  exact Tree.read_replaced (drafts p) hwrite hrename

/-! ## Loading -/

theorem applyOverrides_of_none {os : List Override} (h : ∀ o ∈ os, e.get? o.name = none) :
    applyOverrides e s os = (s, none) := by
  induction os with
  | nil => rfl
  | cons o os ih =>
    obtain ⟨ho, hos⟩ := List.forall_mem_cons.mp h
    rw [applyOverrides, ho]
    exact ih hos

/-- Without variables the settings stay as they are. -/
theorem merge_of_unset (unset : e.Unset) (s : Settings) : s.merge e = (s, none) := by
  have hnames : ∀ o ∈ overrides, "STRATA_".toList <+: o.name.toList := by decide
  exact applyOverrides_of_none fun o ho => unset o.name (hnames o ho)

theorem finish_of_unset (unset : e.Unset) (hvalid : s.validate = .ok ()) : s.finish e = .ok s := by
  unfold finish
  rw [merge_of_unset unset]
  dsimp only
  rw [hvalid]
  rfl

/-- What is loaded was in a file. -/
theorem read_of_loadFrom (h : loadFrom t e p = .ok s) : ∃ content, t.read p = .ok content := by
  unfold loadFrom at h
  split at h
  · cases h
  · rename_i text htext
    obtain ⟨content, hread, -⟩ := Tree.bind_ok htext
    exact ⟨content, hread⟩

/-- Settings whose numbers fit the machine are read back from their document. If they are saved by a draft
beside the file, they are also loaded from the file, and have the digest that they had. -/
theorem loadFrom_save (hs : s.Sized) :
    (∀ e, ofToml? e s.toToml.toList = some s) ∧
      ∀ t t' p e, s.save t p = (t', .ok ()) → (prepareParent t p).1.Beside p (draftPath p) →
        e.Unset → loadFrom t' e p = .ok s ∧ (loadFrom t' e p).map digest = .ok s.digest := by
  refine ⟨ofToml?_toToml hs, fun t t' p e h beside unset => ?_⟩
  have htext : t'.readText p = .ok s.toToml.toList := by
    unfold Tree.readText
    rw [(read_save h).1 beside]
    dsimp only [bind, Except.bind]
    rw [Text.decode?_encode]
  have hload : loadFrom t' e p = .ok s := by
    unfold loadFrom
    rw [htext]
    dsimp only
    rw [ofToml?_toToml hs]
    exact finish_of_unset unset (save_ok h).1
  rw [hload]
  exact ⟨rfl, rfl⟩

/-- If the draft is not beside the file, nothing can be loaded from it. -/
theorem not_loadFrom_save (h : s.save t p = (t', .ok ()))
    (hbeside : ¬ (prepareParent t p).1.Beside p (draftPath p)) : loadFrom t' e p ≠ .ok s' := by
  intro hload
  obtain ⟨content, hread⟩ := read_of_loadFrom hload
  exact (read_save h).2 hbeside content hread

/-! ## Drafts that are links -/

section Linked

variable {target : String}

theorem isEntry_config : IsEntry "config.toml" := by decide

theorem isEntry_configDraft : IsEntry "config.toml.tmp" := by decide

theorem draftPath_config : draftPath ⟨"config.toml"⟩ = ⟨"config.toml.tmp"⟩ := by decide

theorem prepareParent_config (t : Tree) : prepareParent t ⟨"config.toml"⟩ = (t, .ok ()) :=
  Tree.createParent_top (by decide) rfl

variable (ht : IsEntry target) (hne : target ≠ "config.toml.tmp")
include ht hne

/-- The draft is beside the file unless the link leads to the file. -/
theorem beside_config :
    let t := Tree.single "config.toml.tmp" (.link target)
    (prepareParent t ⟨"config.toml"⟩).1.Beside ⟨"config.toml"⟩ (draftPath ⟨"config.toml"⟩) ↔
      target ≠ "config.toml" := by
  intro t
  rw [prepareParent_config, draftPath_config]
  exact Tree.beside_linked isEntry_configDraft ht hne isEntry_config (by decide)

/-- Settings that obey the rules are saved through a link to another name of the directory. -/
theorem exists_save_linked (hvalid : s.validate = .ok ()) :
    ∃ t', s.save (Tree.single "config.toml.tmp" (.link target)) ⟨"config.toml"⟩ = (t', .ok ()) := by
  obtain ⟨t₁, t', hwrite, hrename⟩ := Tree.exists_replaced_linked isEntry_configDraft ht hne
    isEntry_config (by decide) (Text.encode s.toToml.toList)
  rw [← draftPath_config] at hwrite hrename
  exact ⟨t', save_of_replaced hvalid (prepareParent_config _) hwrite hrename⟩

end Linked

/-- Settings with quotes, a line feed and a control character in their texts and no patterns. -/
def noted : Settings where
  general := { version := "1 \"\\\n\t\u0001\x7f\u00e9" }
  cache := { directory := ⟨"C:\\d"⟩ }
  memory := { maxMegabytes := 2 ^ 64 - 1 }
  discovery := { included := [], excluded := ["a\"b", ""] }

theorem sized_noted : noted.Sized :=
  ⟨⟨by decide, by decide⟩, ⟨by decide, by decide⟩, ⟨by decide, by decide⟩,
    ⟨by decide, by decide, by decide, by decide⟩⟩

theorem validate_noted : noted.validate = .ok () := by
  have hrules : noted.violation? = none := by decide
  unfold validate
  rw [hrules]

/-- Settings that are saved through a link to another file are loaded back. -/
theorem loadFrom_save_noted :
    let t := Tree.single "config.toml.tmp" (.link "store.toml")
    let e : Environment := { bindings := [("HOME", "/home")] }
    ∃ t', noted.Sized ∧ noted.save t ⟨"config.toml"⟩ = (t', .ok ()) ∧
      (prepareParent t ⟨"config.toml"⟩).1.Beside ⟨"config.toml"⟩ (draftPath ⟨"config.toml"⟩) ∧
      e.Unset ∧ (∀ e, ofToml? e noted.toToml.toList = some noted) ∧
      loadFrom t' e ⟨"config.toml"⟩ = .ok noted ∧
      (loadFrom t' e ⟨"config.toml"⟩).map digest = .ok noted.digest := by
  intro t e
  have ht : IsEntry "store.toml" := by decide
  have unset : e.Unset := by
    intro name hname
    have hne : (name == "HOME") = false := by
      rw [beq_eq_false_iff_ne]
      rintro rfl
      exact absurd hname (by decide)
    exact List.lookup_cons.trans (by rw [hne]; rfl)
  obtain ⟨t', h⟩ := exists_save_linked ht (by decide) validate_noted
  have beside := (beside_config ht (by decide)).mpr (by decide)
  obtain ⟨hparse, hload⟩ := loadFrom_save sized_noted
  exact ⟨t', sized_noted, h, beside, unset, hparse, hload _ _ _ _ h beside unset⟩

/-- Settings that are saved through a link to their own file cannot be loaded. -/
theorem loadFrom_save_looped :
    ∃ t', noted.Sized ∧
      noted.save (Tree.single "config.toml.tmp" (.link "config.toml")) ⟨"config.toml"⟩ =
        (t', .ok ()) ∧
      Environment.Unset { bindings := [] } ∧
      ∀ s, loadFrom t' { bindings := [] } ⟨"config.toml"⟩ ≠ .ok s := by
  obtain ⟨t', h⟩ := exists_save_linked isEntry_config (by decide) validate_noted
  refine ⟨t', sized_noted, h, fun _ _ => rfl, fun s => not_loadFrom_save h fun beside => ?_⟩
  exact (beside_config isEntry_config (by decide)).mp beside rfl

end Settings
end SourceSurvey
