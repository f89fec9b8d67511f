import SourceSurvey.Proofs.Tree.Slot

/-!
# The way of a path

A path is followed step by step: a step takes one piece and goes to another place, or puts the pieces of
a link in its stead (`Tree.next?`). Several steps are a way (`Tree.Way`), which counts the links that it
follows. There is one way from a place along some pieces (`Tree.Way.unique`), it is the one that
`Tree.walk` takes (`Tree.Way.walk`), and it is there in every tree that has the same directories and
links where the way comes across them (`Tree.Way.mono`).

* `Tree.exists_way`: there is a way to where no step can be gone.
* `Tree.write_leaf`, `Tree.locate_of_way`: a file is written at the end of a way, and found there.
* `Tree.Leaf.not_crosses_self`, `Tree.Leaf.not_crosses_above`: a link that leads to a file is neither
  met again on the way from it nor on the way to a directory.
-/

namespace SourceSurvey

open SourceSurvey.Path (IsName)

namespace Tree

/-! ## Steps -/

/-- The place at which the target of a link in a directory starts. -/
def linkStart (target : String) (place : Place) : Place :=
  if (⟨target⟩ : Path).isAbsolute then [] else place

/-- One step along the pieces of a path: the number of links that are followed, the next place, and the
pieces that are left. There is none at the end of a path, at a file and at a name that nothing has. -/
def next? (t : Tree) (place : Place) : List String → Option (Nat × Place × List String)
  | [] => none
  | piece :: rest =>
    if piece = "" || piece = "." then some (0, place, rest)
    else if piece = ".." then some (0, place.dropLast, rest)
    else if nameLimit < piece.utf8ByteSize then none
    else
      match t.find? (place ++ [piece]) with
      | some .directory => some (0, place ++ [piece], rest)
      | some (.link target) => some (1, linkStart target place, (⟨target⟩ : Path).pieces ++ rest)
      | _ => none

section Steps

variable {t : Tree} {place place' : Place} {piece : String} {links : Nat}
  {pieces rest rest' : List String}

theorem next?_idle (h : (decide (piece = "") || decide (piece = ".")) = true) :
    t.next? place (piece :: rest) = some (0, place, rest) := by
  rw [next?, if_pos h]

theorem next?_up : t.next? place (".." :: rest) = some (0, place.dropLast, rest) := by
  rw [next?, if_neg (by decide), if_pos rfl]

theorem next?_directory (hp : Enters piece) (h : t.find? (place ++ [piece]) = some .directory) :
    t.next? place (piece :: rest) = some (0, place ++ [piece], rest) := by
  rw [next?, if_neg hp.not_idle, if_neg hp.not_up, if_neg hp.not_long, h]

theorem next?_link (hp : Enters piece) {target : String}
    (h : t.find? (place ++ [piece]) = some (.link target)) :
    t.next? place (piece :: rest) =
      some (1, linkStart target place, (⟨target⟩ : Path).pieces ++ rest) := by
  rw [next?, if_neg hp.not_idle, if_neg hp.not_up, if_neg hp.not_long, h]

theorem next?_fileOnly (hp : Enters piece) (h : t.FileOnly (place ++ [piece])) :
    t.next? place (piece :: rest) = none := by
  rw [next?, if_neg hp.not_idle, if_neg hp.not_up, if_neg hp.not_long]
  rcases h.cases with h | ⟨_, _, h⟩ <;> rw [h]

/-- The ways to go a step. -/
theorem next?_cases (h : t.next? place pieces = some (links, place', rest')) :
    ∃ piece rest, pieces = piece :: rest ∧
      ((links = 0 ∧ rest' = rest ∧
          ((decide (piece = "") || decide (piece = ".")) = true ∧ place' = place ∨
            piece = ".." ∧ place' = place.dropLast)) ∨
        Enters piece ∧
          (t.find? (place ++ [piece]) = some .directory ∧ links = 0 ∧ place' = place ++ [piece] ∧
              rest' = rest ∨
            ∃ target, t.find? (place ++ [piece]) = some (.link target) ∧ links = 1 ∧
              place' = linkStart target place ∧ rest' = (⟨target⟩ : Path).pieces ++ rest)) := by
  cases pieces with
  | nil => cases h
  | cons piece rest =>
    refine ⟨piece, rest, rfl, ?_⟩
    rw [next?] at h
    split at h
    · rename_i idle
      cases h
      exact .inl ⟨rfl, rfl, .inl ⟨idle, rfl⟩⟩
    · rename_i not_idle
      split at h
      · rename_i up
        cases h
        exact .inl ⟨rfl, rfl, .inr ⟨up, rfl⟩⟩
      · rename_i not_up
        split at h
        · cases h
        · rename_i not_long
          refine .inr ⟨⟨not_idle, not_up, not_long⟩, ?_⟩
          cases hf : t.find? (place ++ [piece]) with
          | none =>
            rw [hf] at h
            cases h
          | some node =>
            rw [hf] at h
            cases node with
            | directory =>
              cases h
              exact .inl ⟨rfl, rfl, rfl, rfl⟩
            | file => cases h
            | link target =>
              cases h
              exact .inr ⟨target, rfl, rfl, rfl, rfl⟩

/-- Pieces behind the first one do not change a step. -/
theorem next?_cons_append (t : Tree) (place : Place) (piece : String) (rest qs : List String) :
    t.next? place (piece :: rest ++ qs) =
      (t.next? place (piece :: rest)).map fun r => (r.1, r.2.1, r.2.2 ++ qs) := by
  rw [List.cons_append, next?, next?]
  split
  · rfl
  split
  · rfl
  split
  · rfl
  cases t.find? (place ++ [piece]) with
  | none => rfl
  | some node => cases node <;> simp

theorem next?_append (h : t.next? place pieces = some (links, place', rest')) (qs : List String) :
    t.next? place (pieces ++ qs) = some (links, place', rest' ++ qs) := by
  cases pieces with
  | nil => exact nomatch h
  | cons piece rest =>
    rw [next?_cons_append, h]
    rfl

/-- A step is there in every tree that has the directory or link that it comes across. -/
theorem next?_keep {t' : Tree} (h : t.next? place pieces = some (links, place', rest'))
    (keep : ∀ piece rest m, pieces = piece :: rest → Enters piece →
      t.find? (place ++ [piece]) = some m → ¬ m.IsFile → t'.find? (place ++ [piece]) = some m) :
    t'.next? place pieces = some (links, place', rest') := by
  obtain ⟨piece, rest, rfl, ⟨rfl, rfl, ⟨idle, rfl⟩ | ⟨rfl, rfl⟩⟩ | ⟨enters, hstep⟩⟩ := next?_cases h
  · exact next?_idle idle
  · exact next?_up
  · rcases hstep with ⟨directory, rfl, rfl, rfl⟩ | ⟨target, link, rfl, rfl, rfl⟩
    · exact next?_directory enters (keep _ _ _ rfl enters directory Node.not_isFile_directory)
    · exact next?_link enters (keep _ _ _ rfl enters link (Node.not_isFile_link _))

/-- A step is one of a walk, unless it is the last one and at a link that is not to be followed. -/
theorem walk_next (h : t.next? place pieces = some (links, place', rest')) {follow : Bool}
    (hf : follow = true ∨ pieces.tail ≠ []) (more : Nat) :
    t.walk follow (links + more) place pieces = t.walk follow more place' rest' := by
  obtain ⟨piece, rest, rfl, ⟨rfl, rfl, ⟨idle, rfl⟩ | ⟨rfl, rfl⟩⟩ | ⟨enters, hstep⟩⟩ := next?_cases h
  · rw [walk_idle idle, Nat.zero_add]
  · rw [walk_up, Nat.zero_add]
  · rcases hstep with ⟨directory, rfl, rfl, rfl⟩ | ⟨target, link, rfl, rfl, rfl⟩
    · rw [walk_directory enters directory, Nat.zero_add]
    · have he : ¬ (rest.isEmpty && !follow) = true := by
        rcases hf with rfl | hf
        · simp
        · simpa using fun h => absurd h hf
      rw [Nat.add_comm, walk_link enters link he]
      rfl

end Steps

/-! ## Ways -/

/-- Some steps, with the number of links that they follow. -/
inductive Way (t : Tree) : Place → List String → Nat → Place → List String → Prop
  | rest {place : Place} {pieces : List String} : Way t place pieces 0 place pieces
  | step {place place₁ place₂ : Place} {pieces pieces₁ pieces₂ : List String} {links more : Nat}
      (next : t.next? place pieces = some (links, place₁, pieces₁))
      (way : Way t place₁ pieces₁ more place₂ pieces₂) :
      Way t place pieces (links + more) place₂ pieces₂

/-- Following pieces from a place comes across an entry of a directory. -/
def Crosses (t : Tree) (q place : Place) (pieces : List String) : Prop :=
  ∃ links place' piece rest, t.Way place pieces links place' (piece :: rest) ∧ Enters piece ∧
    place' ++ [piece] = q

namespace Way

variable {t t' : Tree} {place place₁ place₂ q : Place} {pieces pieces₁ pieces₂ : List String}
  {links links' : Nat}

theorem append (h : t.Way place pieces links place₁ pieces₁) (qs : List String) :
    t.Way place (pieces ++ qs) links place₁ (pieces₁ ++ qs) := by
  induction h with
  | rest => exact .rest
  | step next way ih => exact .step (next?_append next qs) ih

theorem trans (h : t.Way place pieces links place₁ pieces₁)
    (h' : t.Way place₁ pieces₁ links' place₂ pieces₂) :
    t.Way place pieces (links + links') place₂ pieces₂ := by
  induction h with
  | rest => rwa [Nat.zero_add]
  | step next way ih =>
    rw [Nat.add_assoc]
    exact .step next (ih h')

/-- What is come across later on is come across. -/
theorem crosses (h : t.Way place pieces links place₁ pieces₁) (hc : t.Crosses q place₁ pieces₁) :
    t.Crosses q place pieces := by
  obtain ⟨_, place', piece, rest, way, hq⟩ := hc
  exact ⟨_, place', piece, rest, h.trans way, hq⟩

/-- A way that cannot go on is the only one. -/
theorem rest_of (h : t.Way place pieces links place₁ pieces₁)
    (h' : t.Way place pieces links' place₂ pieces₂) (hend : t.next? place₂ pieces₂ = none) :
    ∃ more, links' = links + more ∧ t.Way place₁ pieces₁ more place₂ pieces₂ := by
  induction h generalizing links' with
  | rest => exact ⟨links', (Nat.zero_add _).symm, h'⟩
  | step next way ih =>
    cases h' with
    | rest =>
      rw [next] at hend
      exact nomatch hend
    | step next' way' =>
      rw [next] at next'
      cases next'
      obtain ⟨more, rfl, hmore⟩ := ih way'
      exact ⟨more, (Nat.add_assoc _ _ _).symm, hmore⟩

theorem unique (h : t.Way place pieces links place₁ pieces₁)
    (h' : t.Way place pieces links' place₂ pieces₂) (hend : t.next? place₁ pieces₁ = none)
    (hend' : t.next? place₂ pieces₂ = none) :
    links' = links ∧ place₂ = place₁ ∧ pieces₂ = pieces₁ := by
  obtain ⟨more, rfl, way⟩ := h.rest_of h' hend'
  cases way with
  | rest => exact ⟨rfl, rfl, rfl⟩
  | step next =>
    rw [hend] at next
    exact nomatch next

/-- Walking goes the way. -/
theorem walk (h : t.Way place pieces links place₁ pieces₁) {follow : Bool} {qs : List String}
    (hf : follow = true ∨ qs ≠ []) (more : Nat) :
    t.walk follow (links + more) place (pieces ++ qs) = t.walk follow more place₁ (pieces₁ ++ qs) := by
  induction h with
  | rest => rw [Nat.zero_add]
  | @step _ _ _ pieces _ _ _ _ next way ih =>
    have htail : follow = true ∨ (pieces ++ qs).tail ≠ [] := by
      refine hf.imp_right fun hq => ?_
      obtain ⟨piece, rest, rfl, -⟩ := next?_cases next
      simp [hq]
    rw [Nat.add_assoc, walk_next (next?_append next qs) htail, ih]

/-- A way is there in every tree that has the directories and links that it comes across. -/
theorem mono (h : t.Way place pieces links place₁ pieces₁)
    (keep : ∀ q m, t.find? q = some m → ¬ m.IsFile → t.Crosses q place pieces →
      t'.find? q = some m) : t'.Way place pieces links place₁ pieces₁ := by
  induction h with
  | rest => exact .rest
  | @step place _ _ pieces _ _ _ _ next way ih =>
    refine .step (next?_keep next fun piece rest m hp enters hm hdir => ?_)
      (ih fun q m hm hdir hc => keep q m hm hdir ((Way.step next .rest).crosses hc))
    exact keep _ m hm hdir ⟨0, place, piece, rest, hp ▸ .rest, enters, rfl⟩

/-- A way along pieces with others behind them stays in the first ones or comes to their end. -/
theorem split {ps qs : List String} (h : t.Way place (ps ++ qs) links place₁ pieces₁) :
    (∃ rest, pieces₁ = rest ++ qs ∧ t.Way place ps links place₁ rest) ∨
      ∃ n m d, links = n + m ∧ t.Way place ps n d [] ∧ t.Way d qs m place₁ pieces₁ := by
  generalize hpieces : ps ++ qs = pieces at h
  induction h generalizing ps with
  | rest => exact .inl ⟨ps, hpieces.symm, .rest⟩
  | @step place _ _ pieces _ _ _ _ next way ih =>
    subst hpieces
    cases ps with
    | nil => exact .inr ⟨0, _, place, (Nat.zero_add _).symm, .rest, .step next way⟩
    | cons piece ps =>
      rw [next?_cons_append] at next
      obtain ⟨⟨more, place', ps'⟩, hps, hr⟩ := Option.map_eq_some_iff.mp next
      cases hr
      rcases ih rfl with ⟨rest, rfl, hway⟩ | ⟨n, m, d, rfl, hway, hend⟩
      · exact .inl ⟨rest, rfl, .step hps hway⟩
      · exact .inr ⟨_, m, d, (Nat.add_assoc _ _ _).symm, .step hps hway, hend⟩

/-- A way that comes back to where it was, with more pieces behind, does not end. -/
theorem no_end {rest qs : List String} (round : t.Way place pieces (links + 1) place (pieces ++ rest))
    (h : t.Way place (pieces ++ qs) links' place₁ pieces₁) : t.next? place₁ pieces₁ ≠ none := by
  intro hend
  induction links' using Nat.strongRecOn generalizing qs with
  | ind links' ih =>
    have hround := round.append qs
    rw [List.append_assoc] at hround
    obtain ⟨more, rfl, hmore⟩ := hround.rest_of h hend
    exact ih more (by omega) hmore

end Way

section Crosses

variable {t t' : Tree} {place q : Place} {pieces pieces' : List String} {links : Nat}

theorem Crosses.append (h : t.Crosses q place pieces) (qs : List String) :
    t.Crosses q place (pieces ++ qs) := by
  obtain ⟨_, place', piece, rest, way, hq⟩ := h
  exact ⟨_, place', piece, _, way.append qs, hq⟩

/-- A name in a directory is come across where it is the next piece. -/
theorem Crosses.exists_way {d : Place} {name : String} (h : t.Crosses (d ++ [name]) place pieces) :
    ∃ links rest, t.Way place pieces links d (name :: rest) ∧ Enters name := by
  obtain ⟨links, d', name', rest, way, enters, heq⟩ := h
  obtain ⟨rfl, hname⟩ := List.append_inj' heq rfl
  obtain rfl := List.singleton_inj.mp hname
  exact ⟨links, rest, way, enters⟩

/-- Behind a link to which a path leads its target is followed. -/
theorem Crosses.behind {d : Place} {name target : String} (hc : t.Crosses q d [name])
    (enters : Enters name) (hlink : t.find? (d ++ [name]) = some (.link target))
    (hne : q ≠ d ++ [name]) : t.Crosses q (linkStart target d) (⟨target⟩ : Path).pieces := by
  obtain ⟨_, place', piece, rest, way, enters', rfl⟩ := hc
  cases way with
  | rest => exact absurd rfl hne
  | step next way =>
    rw [next?_link enters hlink, List.append_nil] at next
    cases next
    exact ⟨_, place', piece, rest, way, enters', rfl⟩

/-- A name at which a path ends with a file is all that it comes across there. -/
theorem Crosses.eq_of_fileOnly {d : Place} {name : String} (hc : t.Crosses q d [name])
    (enters : Enters name) (hfile : t.FileOnly (d ++ [name])) : q = d ++ [name] := by
  obtain ⟨_, place', piece, rest, way, -, rfl⟩ := hc
  cases way with
  | rest => rfl
  | step next =>
    rw [next?_fileOnly enters hfile] at next
    exact nomatch next

/-- The way to where an entry is first come across is there in every tree that has the other directories
and links that are come across. -/
theorem Crosses.first (h : t.Crosses q place pieces)
    (keep : ∀ r m, t.find? r = some m → ¬ m.IsFile → t.Crosses r place pieces → r ≠ q →
      t'.find? r = some m) : t'.Crosses q place pieces := by
  obtain ⟨links, place', piece', rest', way, enters', hq⟩ := h
  generalize hend : piece' :: rest' = pieces' at way
  induction way with
  | rest => exact ⟨0, _, piece', rest', hend ▸ .rest, enters', hq⟩
  | @step place _ _ pieces _ _ _ _ next way ih =>
    by_cases hhere : ∃ piece rest, pieces = piece :: rest ∧ Enters piece ∧ place ++ [piece] = q
    · obtain ⟨piece, rest, rfl, enters, hq⟩ := hhere
      exact ⟨0, place, piece, rest, .rest, enters, hq⟩
    · have next' : t'.next? place pieces = _ := next?_keep next fun piece rest m hp enters hm hdir =>
        keep _ m hm hdir ⟨0, place, piece, rest, hp ▸ .rest, enters, rfl⟩
          fun hq => hhere ⟨piece, rest, hp, enters, hq⟩
      refine (Way.step next' .rest).crosses (ih (fun r m hm hdir hc hne => ?_) hq hend)
      exact keep r m hm hdir ((Way.step next .rest).crosses hc) hne

/-- What is come across on the way along pieces and a name comes up before the name or behind it. -/
theorem crosses_cases {above : Nat} {d : Place} {name : String}
    (hc : t.Crosses q place (pieces ++ [name])) (way : t.Way place pieces above d []) (hne : q ≠ d ++ [name]) :
    t.Crosses q place pieces ∨ t.Crosses q d [name] := by
  obtain ⟨links, place', piece, rest, hway, enters, rfl⟩ := hc
  rcases hway.split with ⟨rest', hrest, hbefore⟩ | ⟨n, m, d', -, habove, hbehind⟩
  · cases rest' with
    | nil =>
      obtain ⟨rfl, -⟩ := List.cons.inj hrest
      obtain ⟨-, rfl, -⟩ := way.unique hbefore rfl rfl
      exact absurd rfl hne
    | cons piece' rest' =>
      obtain ⟨rfl, -⟩ := List.cons.inj hrest
      exact .inl ⟨_, place', piece, rest', hbefore, enters, rfl⟩
  · obtain ⟨-, rfl, -⟩ := way.unique habove rfl rfl
    exact .inr ⟨m, place', piece, rest, hbehind, enters, rfl⟩

end Crosses

/-! ## What a walk leads to -/

/-- The place of a node, or the one that a free name is for. -/
def Target.place : Target → Place
  | .found place _ => place
  | .free directory name _ => directory ++ [name]

/-- No step can be gone with some number of links. -/
def Halts (t : Tree) (links : Nat) (place : Place) (pieces : List String) : Prop :=
  ∀ more place' pieces', t.next? place pieces = some (more, place', pieces') → links < more

section Ends

variable {t t' : Tree} {p : Path} {place d e : Place} {name piece target : String}
  {pieces rest qs : List String} {links k : Nat} {goal : Target} {follow : Bool}

/-- Where no step can be gone. -/
theorem Halts.cases (h : t.Halts k d (piece :: rest)) :
    (¬ (decide (piece = "") || decide (piece = ".")) = true ∧ piece ≠ ".." ∧
        nameLimit < piece.utf8ByteSize) ∨
      Enters piece ∧ (t.FileOnly (d ++ [piece]) ∨
        k = 0 ∧ ∃ target, t.find? (d ++ [piece]) = some (.link target)) := by
  by_cases idle : (decide (piece = "") || decide (piece = ".")) = true
  · exact absurd (h _ _ _ (next?_idle idle)) (Nat.not_lt_zero _)
  by_cases up : piece = ".."
  · rw [up] at h
    exact absurd (h _ _ _ next?_up) (Nat.not_lt_zero _)
  by_cases long : nameLimit < piece.utf8ByteSize
  · exact .inl ⟨idle, up, long⟩
  have enters : Enters piece := ⟨idle, up, long⟩
  refine .inr ⟨enters, ?_⟩
  cases hf : t.find? (d ++ [piece]) with
  | none => exact .inl fun n hn => nomatch hf.symm.trans hn
  | some node =>
    cases node with
    | directory => exact absurd (h _ _ _ (next?_directory enters hf)) (Nat.not_lt_zero _)
    | file bytes changed => exact .inl (fileOnly_of_find? hf)
    | link target => exact .inr ⟨Nat.lt_one_iff.mp (h _ _ _ (next?_link enters hf)), target, rfl⟩

/-- There is a way to where no step can be gone. -/
theorem exists_way (t : Tree) (links : Nat) (place : Place) (pieces : List String) :
    ∃ n k d qs, links = n + k ∧ t.Way place pieces n d qs ∧ t.Halts k d qs := by
  by_cases hend : t.Halts links place pieces
  · exact ⟨0, links, place, pieces, (Nat.zero_add _).symm, .rest, hend⟩
  · unfold Halts at hend
    simp only [not_forall, Nat.not_lt, exists_prop] at hend
    obtain ⟨more, place', pieces', next, hle⟩ := hend
    obtain ⟨n, k, d, qs, hk, way, hend⟩ := exists_way t (links - more) place' pieces'
    exact ⟨more + n, k, d, qs, by omega, .step next way, hend⟩
termination_by (links, pieces.length)
decreasing_by
  obtain ⟨piece, rest, rfl, ⟨rfl, rfl, -⟩ | ⟨-, ⟨-, rfl, -, rfl⟩ | ⟨_, -, rfl, -⟩⟩⟩ :=
    next?_cases next
  · exact Prod.Lex.right _ (Nat.lt_succ_self _)
  · exact Prod.Lex.right _ (Nat.lt_succ_self _)
  · exact Prod.Lex.left _ _ (Nat.sub_lt hle Nat.one_pos)

/-- Where a walk can go no step further it leads nowhere with a name behind it. -/
theorem Halts.walk_append (h : t.Halts k d (piece :: rest)) (hn : name ≠ "") :
    ∃ code, t.walk follow k d (piece :: rest ++ [name]) = .error code := by
  rcases h.cases with ⟨idle, up, long⟩ | ⟨enters, hfile | ⟨rfl, target, hlink⟩⟩
  · rw [List.cons_append, walk, if_neg idle, if_neg up, if_pos long]
    exact ⟨_, rfl⟩
  · rcases hfile.cases with hf | ⟨_, _, hf⟩
    · rw [List.cons_append, walk_none enters hf, if_neg (by simp [hn])]
      exact ⟨_, rfl⟩
    · rw [List.cons_append, walk_file enters hf, if_neg (by simp)]
      exact ⟨_, rfl⟩
  · rw [List.cons_append, walk_link_loop enters hlink (by simp)]
    exact ⟨_, rfl⟩

/-- A path leads to its last name by a way to a directory. -/
theorem exists_way_above (hn : name ≠ "")
    (h : t.walk follow links place (pieces ++ [name]) = .ok goal) :
    ∃ n k d, links = n + k ∧ t.Way place pieces n d [] ∧ t.walk follow k d [name] = .ok goal := by
  obtain ⟨n, k, d, qs, rfl, way, hend⟩ := exists_way t links place pieces
  rw [way.walk (.inr (List.cons_ne_nil _ _))] at h
  cases qs with
  | nil => exact ⟨n, k, d, rfl, way, h⟩
  | cons piece rest =>
    obtain ⟨code, hcode⟩ : ∃ code, t.walk follow k d (piece :: rest ++ [name]) = .error code :=
      hend.walk_append hn
    rw [hcode] at h
    cases h

/-- A place at which a file is or may come to be, and the way to it. -/
structure Leaf (t : Tree) (place : Place) (pieces : List String) (links : Nat) (d : Place)
    (name : String) : Prop where
  way : t.Way place pieces links d [name]
  enters : Enters name
  fileOnly : t.FileOnly (d ++ [name])

theorem Leaf.stops (h : t.Leaf place pieces links d name) (rest : List String) :
    t.next? d (name :: rest) = none := next?_fileOnly h.enters h.fileOnly

/-- What a walk leads to where it can go no step further. -/
theorem Halts.walk_cases (hend : t.Halts k d qs) (h : t.walk true k d qs = .ok goal) :
    goal = .found d .directory ∨
      ∃ name rest, qs = name :: rest ∧ Enters name ∧ t.FileOnly (d ++ [name]) ∧
        (goal = .free d name !rest.isEmpty ∨
          rest = [] ∧ ∃ bytes changed, goal = .found (d ++ [name]) (.file bytes changed)) := by
  cases qs with
  | nil =>
    rw [walk] at h
    exact .inl (Except.ok.inj h).symm
  | cons name rest =>
    rcases hend.cases with ⟨idle, up, long⟩ | ⟨enters, hfile | ⟨rfl, target, hlink⟩⟩
    · rw [walk, if_neg idle, if_neg up, if_pos long] at h
      cases h
    · refine .inr ⟨name, rest, rfl, enters, hfile, ?_⟩
      rcases hfile.cases with hf | ⟨bytes, changed, hf⟩
      · rw [walk_none enters hf] at h
        split at h
        · exact .inl (Except.ok.inj h).symm
        · cases h
      · rw [walk_file enters hf] at h
        split at h
        · rename_i he
          exact .inr ⟨List.isEmpty_iff.mp he, bytes, changed, (Except.ok.inj h).symm⟩
        · cases h
    · rw [walk_link_loop enters hlink (by simp)] at h
      cases h

/-- A path that leads to a file, or to where one may come to be, goes a way to its place. -/
theorem resolve_leaf (h : t.resolve true p = .ok goal) (hdirectory : ∀ d, goal ≠ .found d .directory)
    (hslash : ∀ d name, goal ≠ .free d name true) :
    ∃ links d name, links ≤ linkLimit ∧ t.Leaf (t.start p) p.pieces links d name ∧
      goal.place = d ++ [name] := by
  obtain ⟨-, -, hw⟩ := resolve_ok h
  obtain ⟨n, k, d, qs, hk, way, hend⟩ := exists_way t linkLimit (t.start p) p.pieces
  have hlast := way.walk (.inl rfl : true = true ∨ [] ≠ []) k
  rw [List.append_nil, List.append_nil, ← hk, hw] at hlast
  rcases hend.walk_cases hlast.symm with
    rfl | ⟨name, rest, rfl, enters, hfile, rfl | ⟨rfl, bytes, changed, rfl⟩⟩
  · exact absurd rfl (hdirectory d)
  · cases rest with
    | nil => exact ⟨n, d, name, by omega, ⟨way, enters, hfile⟩, rfl⟩
    | cons => exact absurd rfl (hslash d name)
  · exact ⟨n, d, name, by omega, ⟨way, enters, hfile⟩, rfl⟩

/-- Writing a file puts it at a place to which there is a way. -/
theorem write_leaf {bytes : List UInt8} (h : t.write p bytes = .ok t') :
    ∃ links d name, links ≤ linkLimit ∧ t.Leaf (t.start p) p.pieces links d name ∧
      t' = t.put (d ++ [name]) (.file bytes t.now) := by
  unfold Tree.write at h
  obtain ⟨goal, hr, h⟩ := bind_ok h
  have hgoal : (∀ d, goal ≠ .found d .directory) ∧ (∀ d name, goal ≠ .free d name true) ∧
      t' = t.put goal.place (.file bytes t.now) := by
    cases goal with
    | found place node =>
      cases node with
      | file => exact ⟨nofun, nofun, (Except.ok.inj h).symm⟩
      | directory | link => cases h
    | free directory name slash =>
      cases slash with
      | true => cases h
      | false => exact ⟨nofun, nofun, (Except.ok.inj h).symm⟩
  obtain ⟨hdirectory, hslash, rfl⟩ := hgoal
  obtain ⟨links, d, name, hlinks, leaf, hplace⟩ := resolve_leaf hr hdirectory hslash
  exact ⟨links, d, name, hlinks, leaf, by rw [hplace]⟩

/-- A path by which a file is read goes a way to it. -/
theorem read_leaf {bytes : List UInt8} (h : t.read p = .ok bytes) :
    ∃ links d name, t.Leaf (t.start p) p.pieces links d name := by
  unfold Tree.read at h
  obtain ⟨⟨place, node⟩, hl, h⟩ := bind_ok h
  cases node with
  | directory | link => cases h
  | file bytes' changed =>
    obtain ⟨links, d, name, -, leaf, -⟩ := resolve_leaf (locate_ok hl) nofun nofun
    exact ⟨links, d, name, leaf⟩

/-- A path leads to where its way ends, whether there is a file or not. -/
theorem Leaf.resolve (leaf : t.Leaf (t.start p) p.pieces links d name) (hp : p.WithinLimits)
    (he : p.text ≠ "") (hlinks : links ≤ linkLimit) :
    t.resolve true p = .ok (t.standing d name) := by
  obtain ⟨more, hmore⟩ := Nat.exists_eq_add_of_le hlinks
  have hwalk := leaf.way.walk (.inl rfl : true = true ∨ [] ≠ []) more
  rw [List.append_nil, List.append_nil, ← hmore] at hwalk
  rw [resolve_eq hp he, hwalk]
  rcases leaf.fileOnly.cases with hf | ⟨bytes, changed, hf⟩
  · rw [walk_none leaf.enters hf, standing_none hf]
    rfl
  · rw [walk_file leaf.enters hf, standing_some hf]
    rfl

/-- A path leads to the file to which there is a way. -/
theorem locate_of_way (hp : p.WithinLimits) (he : p.text ≠ "") (hlinks : links ≤ linkLimit)
    (way : t.Way (t.start p) p.pieces links d [name]) (enters : Enters name) {bytes : List UInt8}
    {changed : Instant} (hf : t.find? (d ++ [name]) = some (.file bytes changed)) :
    t.locate p = .ok (d ++ [name], .file bytes changed) := by
  have leaf : t.Leaf (t.start p) p.pieces links d name := ⟨way, enters, fileOnly_of_find? hf⟩
  exact locate_of_resolve (standing_some hf ▸ leaf.resolve hp he hlinks)

theorem read_of_way (hp : p.WithinLimits) (he : p.text ≠ "") (hlinks : links ≤ linkLimit)
    (way : t.Way (t.start p) p.pieces links d [name]) (enters : Enters name) {bytes : List UInt8}
    {changed : Instant} (hf : t.find? (d ++ [name]) = some (.file bytes changed)) :
    t.read p = .ok bytes := by
  unfold Tree.read
  rw [locate_of_way hp he hlinks way enters hf]
  rfl

/-! ## Links that lead to a file -/

/-- A way that comes across a link goes on with what the link says. -/
theorem Crosses.link (h : t.Crosses (d ++ [name]) place pieces)
    (hlink : t.find? (d ++ [name]) = some (.link target)) :
    ∃ links rest, t.Way place pieces (links + 1) (linkStart target d)
      ((⟨target⟩ : Path).pieces ++ rest) := by
  obtain ⟨links, rest, way, enters⟩ := h.exists_way
  exact ⟨links, rest, way.trans (.step (next?_link enters hlink) .rest)⟩

/-- The ways from a link that leads to a file end at the name of the file. -/
theorem Leaf.ends (h : t.Leaf place pieces links d name) {more : Nat} (rest : List String)
    (way : t.Way place (pieces ++ rest) more e qs) (hend : t.next? e qs = none) :
    more = links ∧ e = d ∧ qs = name :: rest :=
  (h.way.append rest).unique way (h.stops rest) hend

/-- A link that leads to a file is not come across on the way from it. -/
theorem Leaf.not_crosses_self {links : Nat} {name' : String}
    (h : t.Leaf (linkStart target d) (⟨target⟩ : Path).pieces links e name')
    (hlink : t.find? (d ++ [name]) = some (.link target)) :
    ¬ t.Crosses (d ++ [name]) (linkStart target d) (⟨target⟩ : Path).pieces := by
  intro hc
  obtain ⟨_, rest, round⟩ := hc.link hlink
  exact round.no_end (h.way.append []) (h.stops _)

/-- A link that leads to a file is not come across on the way to a directory. -/
theorem Leaf.not_crosses_above {links above : Nat} {name' : String} {d' : Place}
    (h : t.Leaf (linkStart target d) (⟨target⟩ : Path).pieces links e name')
    (hlink : t.find? (d ++ [name]) = some (.link target))
    (way : t.Way place pieces above d' []) : ¬ t.Crosses (d ++ [name]) place pieces := by
  intro hc
  obtain ⟨round, rest, hround⟩ := hc.link hlink
  obtain ⟨more, -, way'⟩ := hround.rest_of way rfl
  obtain ⟨-, -, hnil⟩ := h.ends rest way' rfl
  exact nomatch hnil

end Ends

end Tree
end SourceSurvey
