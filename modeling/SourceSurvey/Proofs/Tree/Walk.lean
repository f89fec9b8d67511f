import SourceSurvey.Proofs.Path
import SourceSurvey.Tree.Resolve

/-!
# Looking up places and following paths

* `Tree.find?_put`, `find?_remove`, `find?_removeBelow`: what stands at a place after a change.
* `Tree.walk_mono`: a path that leads to a node leads there in every tree that has the directories
  and links of the first tree and that node.
* `Tree.walk_append`: pieces after those that lead to a directory are followed from there.
* `Tree.resolve_eq`: following a path is walking along its pieces, as long as its text is within
  the limits (`Path.WithinLimits`); otherwise no tree has the path.
* `Tree.locate_top`: a file of the root is found under a slash and its name.
-/

namespace SourceSurvey
namespace Tree

/-! ## What stands at a place -/

@[simp] theorem find?_nil (t : Tree) : t.find? [] = some .directory := rfl

theorem find?_of_ne_nil (t : Tree) {q : Place} (hq : q ≠ []) : t.find? q = t.nodes.lookup q := by
  unfold find?
  rw [if_neg (by simpa using hq)]

theorem lookup_cons (p q : Place) (n : Node) (l : List (Place × Node)) :
    ((p, n) :: l).lookup q = if q = p then some n else l.lookup q := by
  rw [List.lookup_cons]
  by_cases h : q = p
  · rw [if_pos h, h, beq_self_eq_true]
  · rw [if_neg h, beq_false_of_ne h]

theorem lookup_map_replace {l : List (Place × Node)} {p : Place} (n : Node)
    (h : l.any (fun e => e.1 == p) = true) (q : Place) :
    (l.map fun e => if e.1 == p then (p, n) else e).lookup q =
      if q = p then some n else l.lookup q := by
  induction l with
  | nil => cases h
  | cons e l ih =>
    obtain ⟨r, m⟩ := e
    rw [List.map_cons]
    by_cases hr : r = p
    · subst hr
      rw [if_pos (show ((r, m).1 == r) = true by simp), lookup_cons, lookup_cons]
      by_cases hq : q = r
      · rw [if_pos hq, if_pos hq]
      · rw [if_neg hq, if_neg hq, if_neg hq]
        by_cases hl : l.any (fun e => e.1 == r) = true
        · rw [ih hl, if_neg hq]
        · -- No further entry is replaced.
          have hid : (l.map fun e => if e.1 == r then (r, n) else e) = l := by
            refine (List.map_congr_left fun e he => ?_).trans (List.map_id l)
            rw [if_neg fun hr => hl (List.any_eq_true.mpr ⟨e, he, hr⟩)]
            rfl
          rw [hid]
    · have hl : l.any (fun e => e.1 == p) = true := by simpa [hr] using h
      rw [if_neg (show ¬ ((r, m).1 == p) = true by simpa using hr), lookup_cons, lookup_cons,
        ih hl]
      by_cases hq : q = r
      · rw [if_pos hq, if_neg (hq ▸ hr), if_pos hq]
      · rw [if_neg hq, if_neg hq]

theorem lookup_append_new {l : List (Place × Node)} {p : Place} (n : Node)
    (h : l.any (fun e => e.1 == p) = false) (q : Place) :
    (l ++ [(p, n)]).lookup q = if q = p then some n else l.lookup q := by
  induction l with
  | nil => exact lookup_cons p q n []
  | cons e l ih =>
    obtain ⟨r, m⟩ := e
    rw [List.any_cons, Bool.or_eq_false_iff] at h
    obtain ⟨hr, hl⟩ := h
    rw [List.cons_append, lookup_cons, lookup_cons, ih hl]
    by_cases hq : q = r
    · rw [if_pos hq, if_pos hq, if_neg (hq ▸ by simpa using hr)]
    · rw [if_neg hq, if_neg hq]

theorem lookup_filter (l : List (Place × Node)) (keep : Place → Bool) (q : Place) :
    (l.filter fun e => keep e.1).lookup q = if keep q then l.lookup q else none := by
  induction l with
  | nil => rw [List.filter_nil, List.lookup_nil, ite_self]
  | cons e l ih =>
    obtain ⟨r, m⟩ := e
    rw [List.filter_cons, lookup_cons]
    by_cases hr : keep r = true
    · rw [if_pos hr, lookup_cons, ih]
      by_cases hq : q = r
      · rw [if_pos hq, if_pos hq, if_pos (hq ▸ hr)]
      · rw [if_neg hq, if_neg hq]
    · rw [if_neg hr, ih]
      by_cases hq : q = r
      · rw [if_neg (hq ▸ hr), if_neg (hq ▸ hr)]
      · rw [if_neg hq]

/-- What stands at a place after a node was put somewhere. -/
theorem find?_put (t : Tree) {p : Place} (hp : p ≠ []) (n : Node) (q : Place) :
    (t.put p n).find? q = if q = p then some n else t.find? q := by
  by_cases hq : q = []
  · subst hq
    rw [if_neg (Ne.symm hp)]
    rfl
  · rw [find?_of_ne_nil _ hq, find?_of_ne_nil _ hq]
    unfold put
    split
    · rename_i h
      exact lookup_map_replace n h q
    · rename_i h
      exact lookup_append_new n (Bool.eq_false_iff.mpr h) q

/-- What stands at a place after a node was removed. -/
theorem find?_remove (t : Tree) {p : Place} (hp : p ≠ []) (q : Place) :
    (t.remove p).find? q = if q = p then none else t.find? q := by
  by_cases hq : q = []
  · subst hq
    rw [if_neg (Ne.symm hp)]
    rfl
  · rw [find?_of_ne_nil _ hq, find?_of_ne_nil _ hq]
    unfold remove
    rw [lookup_filter t.nodes fun e => e != p]
    by_cases h : q = p
    · rw [if_pos h, if_neg (by simpa using h)]
    · rw [if_neg h, if_pos (by simpa using h)]

/-- What stands at a place after everything at and below some place was removed. -/
theorem find?_removeBelow (t : Tree) {p : Place} (hp : p ≠ []) (q : Place) :
    (t.removeBelow p).find? q = if p <+: q then none else t.find? q := by
  by_cases hq : q = []
  · subst hq
    rw [if_neg (by simpa using hp)]
    rfl
  · rw [find?_of_ne_nil _ hq, find?_of_ne_nil _ hq]
    unfold removeBelow
    rw [lookup_filter t.nodes fun e => !p.isPrefixOf e]
    by_cases h : p <+: q
    · rw [if_pos h, if_neg (by simpa using List.isPrefixOf_iff_prefix.mpr h)]
    · rw [if_neg h, if_pos]
      rw [Bool.not_eq_true', Bool.eq_false_iff]
      exact fun hp => h (List.isPrefixOf_iff_prefix.mp hp)

theorem mem_nodes_put (t : Tree) {p : Place} (n : Node) {e : Place × Node} (he : e.1 ≠ p) :
    e ∈ (t.put p n).nodes ↔ e ∈ t.nodes := by
  have hpair : e ≠ (p, n) := by
    rintro rfl
    exact he rfl
  unfold put
  split
  · constructor
    · intro h
      obtain ⟨x, hx, h⟩ := List.mem_map.mp h
      by_cases hxp : (x.1 == p) = true
      · rw [if_pos hxp] at h
        exact absurd h.symm hpair
      · rw [if_neg hxp] at h
        rwa [← h]
    · intro h
      refine List.mem_map.mpr ⟨e, h, if_neg ?_⟩
      simpa using he
  · simp [hpair]

theorem mem_nodes_remove (t : Tree) {p : Place} {e : Place × Node} (he : e.1 ≠ p) :
    e ∈ (t.remove p).nodes ↔ e ∈ t.nodes := by
  simp [remove, he]

theorem mem_nodes_removeBelow (t : Tree) {p : Place} {e : Place × Node} (he : ¬ p <+: e.1) :
    e ∈ (t.removeBelow p).nodes ↔ e ∈ t.nodes := by
  have hfalse : p.isPrefixOf e.1 = false := by
    rw [Bool.eq_false_iff]
    exact fun h => he (List.isPrefixOf_iff_prefix.mp h)
  simp [removeBelow, hfalse]

@[simp] theorem current_put (t : Tree) (p : Place) (n : Node) : (t.put p n).current = t.current := by
  unfold put
  split <;> rfl

@[simp] theorem now_put (t : Tree) (p : Place) (n : Node) : (t.put p n).now = t.now := by
  unfold put
  split <;> rfl

@[simp] theorem current_remove (t : Tree) (p : Place) : (t.remove p).current = t.current := rfl

@[simp] theorem now_remove (t : Tree) (p : Place) : (t.remove p).now = t.now := rfl

@[simp] theorem current_removeBelow (t : Tree) (p : Place) :
    (t.removeBelow p).current = t.current := rfl

@[simp] theorem now_removeBelow (t : Tree) (p : Place) : (t.removeBelow p).now = t.now := rfl

/-! ## Walking -/

end Tree

/-- A node that is a file. -/
inductive Node.IsFile : Node → Prop
  | intro (bytes : List UInt8) (changed : Instant) : IsFile (.file bytes changed)

theorem Node.not_isFile_directory : ¬ Node.directory.IsFile := fun h => by cases h

theorem Node.not_isFile_link (target : String) : ¬ (Node.link target).IsFile := fun h => by cases h

namespace Tree

/-- A piece that names something in a directory. -/
structure Enters (piece : String) : Prop where
  not_idle : ¬ (decide (piece = "") || decide (piece = ".")) = true
  not_up : ¬ piece = ".."
  not_long : ¬ nameLimit < piece.utf8ByteSize

section Steps

variable {t : Tree} {follow : Bool} {links : Nat} {place : Place} {piece : String}
  {rest : List String}

theorem walk_idle (h : (decide (piece = "") || decide (piece = ".")) = true) :
    t.walk follow links place (piece :: rest) = t.walk follow links place rest := by
  rw [walk, if_pos h]

theorem walk_up :
    t.walk follow links place (".." :: rest) = t.walk follow links place.dropLast rest := by
  rw [walk, if_neg (by decide), if_pos rfl]

theorem walk_none (hp : Enters piece) (h : t.find? (place ++ [piece]) = none) :
    t.walk follow links place (piece :: rest) =
      if rest.all (· = "") then .ok (.free place piece !rest.isEmpty) else .error .noEntry := by
  rw [walk, if_neg hp.not_idle, if_neg hp.not_up, if_neg hp.not_long]
  simp only [h]

theorem walk_directory (hp : Enters piece) (h : t.find? (place ++ [piece]) = some .directory) :
    t.walk follow links place (piece :: rest) = t.walk follow links (place ++ [piece]) rest := by
  rw [walk, if_neg hp.not_idle, if_neg hp.not_up, if_neg hp.not_long]
  simp only [h]

theorem walk_file (hp : Enters piece) {bytes : List UInt8} {changed : Instant}
    (h : t.find? (place ++ [piece]) = some (.file bytes changed)) :
    t.walk follow links place (piece :: rest) =
      if rest.isEmpty then .ok (.found (place ++ [piece]) (.file bytes changed))
      else .error .notDirectory := by
  rw [walk, if_neg hp.not_idle, if_neg hp.not_up, if_neg hp.not_long]
  simp only [h]

theorem walk_link_end (hp : Enters piece) {target : String}
    (h : t.find? (place ++ [piece]) = some (.link target))
    (he : (rest.isEmpty && !follow) = true) :
    t.walk follow links place (piece :: rest) = .ok (.found (place ++ [piece]) (.link target)) := by
  rw [walk, if_neg hp.not_idle, if_neg hp.not_up, if_neg hp.not_long]
  simp only [h]
  rw [if_pos he]

theorem walk_link (hp : Enters piece) {target : String}
    (h : t.find? (place ++ [piece]) = some (.link target))
    (he : ¬ (rest.isEmpty && !follow) = true) :
    t.walk follow (links + 1) place (piece :: rest) =
      t.walk follow links (if (⟨target⟩ : Path).isAbsolute then [] else place)
        ((⟨target⟩ : Path).pieces ++ rest) := by
  rw [walk, if_neg hp.not_idle, if_neg hp.not_up, if_neg hp.not_long]
  simp only [h]
  rw [if_neg he]

theorem walk_link_loop (hp : Enters piece) {target : String}
    (h : t.find? (place ++ [piece]) = some (.link target))
    (he : ¬ (rest.isEmpty && !follow) = true) :
    t.walk follow 0 place (piece :: rest) = .error .linkLoop := by
  rw [walk, if_neg hp.not_idle, if_neg hp.not_up, if_neg hp.not_long]
  simp only [h]
  rw [if_neg he]

end Steps

/-- A path that leads to a node leads there in every tree that has the same directories and links,
and that node. -/
theorem walk_mono {t t' : Tree} {follow : Bool} {links : Nat} {place : Place}
    {pieces : List String} {x : Place} {n : Node}
    (h : t.walk follow links place pieces = .ok (.found x n))
    (keep : ∀ q m, t.find? q = some m → ¬ m.IsFile ∨ q = x ∧ m = n → t'.find? q = some m) :
    t'.walk follow links place pieces = .ok (.found x n) := by
  fun_induction walk t follow links place pieces with
  | case1 => rw [walk, h]
  | case2 _ _ _ _ idle ih => rw [walk_idle idle, ih h]
  | case3 _ _ _ _ ih => rw [walk_up, ih h]
  | case4 => cases h
  | case5 => cases h
  | case6 => cases h
  | case7 _ _ _ _ hi hu hl next hf ih =>
    rw [walk_directory ⟨hi, hu, hl⟩ (keep _ _ hf (.inl Node.not_isFile_directory)), ih h]
  | case8 _ _ _ _ hi hu hl next bytes changed hf he =>
    have hx := Target.found.inj (Except.ok.inj h)
    rw [walk_file ⟨hi, hu, hl⟩ (keep _ _ hf (.inr hx)), if_pos he, h]
  | case9 => cases h
  | case10 _ _ _ _ hi hu hl next target hf he =>
    rw [walk_link_end ⟨hi, hu, hl⟩ (keep _ _ hf (.inl (Node.not_isFile_link _))) he, h]
  | case11 => cases h
  | case12 _ _ _ hi hu hl next target hf he links link ih =>
    rw [walk_link ⟨hi, hu, hl⟩ (keep _ _ hf (.inl (Node.not_isFile_link _))) he]
    exact ih h

/-- Pieces after those that lead to a directory are followed from there. -/
theorem walk_append {t : Tree} {links : Nat} {place : Place} {ps : List String} {d : Place}
    (h : t.walk true links place ps = .ok (.found d .directory)) {qs : List String} (hq : qs ≠ []) :
    ∃ links', ∀ follow, t.walk follow links place (ps ++ qs) = t.walk follow links' d qs := by
  fun_induction walk t true links place ps with
  | case1 links place =>
    obtain ⟨rfl, -⟩ := Target.found.inj (Except.ok.inj h)
    exact ⟨links, fun _ => rfl⟩
  | case2 _ _ _ _ idle ih =>
    obtain ⟨links', hl⟩ := ih h
    exact ⟨links', fun follow => by rw [List.cons_append, walk_idle idle, hl]⟩
  | case3 _ _ _ _ ih =>
    obtain ⟨links', hl⟩ := ih h
    exact ⟨links', fun follow => by rw [List.cons_append, walk_up, hl]⟩
  | case4 => cases h
  | case5 => cases h
  | case6 => cases h
  | case7 _ _ _ _ hi hu hl next hf ih =>
    obtain ⟨links', hl'⟩ := ih h
    exact ⟨links', fun follow => by rw [List.cons_append, walk_directory ⟨hi, hu, hl⟩ hf, hl']⟩
  | case8 => cases (Target.found.inj (Except.ok.inj h)).2
  | case9 => cases h
  | case10 => cases (Target.found.inj (Except.ok.inj h)).2
  | case11 => cases h
  | case12 _ _ rest hi hu hl next target hf he links link ih =>
    obtain ⟨links', hl'⟩ := ih h
    have hne : ¬ (rest ++ qs).isEmpty = true := by
      rw [List.isEmpty_iff, List.append_eq_nil_iff]
      exact fun h => hq h.2
    refine ⟨links', fun follow => ?_⟩
    rw [List.cons_append, walk_link ⟨hi, hu, hl⟩ hf (by simp [hne]), ← List.append_assoc]
    exact hl' follow

/-- A slash after a path that leads to a directory says nothing. -/
theorem walk_of_slash {t : Tree} {links : Nat} {place : Place} {ps : List String} {d : Place}
    (h : t.walk true links place (ps ++ [""]) = .ok (.found d .directory)) :
    t.walk true links place ps = .ok (.found d .directory) := by
  fun_induction walk t true links place ps with
  | case1 => rwa [List.nil_append, walk_idle (by decide), walk] at h
  | case2 _ _ _ _ idle ih => exact ih (by rwa [List.cons_append, walk_idle idle] at h)
  | case3 _ _ _ _ ih => exact ih (by rwa [List.cons_append, walk_up] at h)
  | case4 _ _ _ _ hi hu hl =>
    rw [List.cons_append, walk, if_neg hi, if_neg hu, if_pos hl] at h
    cases h
  | case5 _ _ _ _ hi hu hl next hf =>
    rw [List.cons_append, walk_none ⟨hi, hu, hl⟩ hf] at h
    split at h <;> cases h
  | case6 _ _ _ _ hi hu hl next hf =>
    rw [List.cons_append, walk_none ⟨hi, hu, hl⟩ hf] at h
    split at h <;> cases h
  | case7 _ _ _ _ hi hu hl next hf ih =>
    exact ih (by rwa [List.cons_append, walk_directory ⟨hi, hu, hl⟩ hf] at h)
  | case8 _ _ _ rest hi hu hl next bytes changed hf =>
    rw [List.cons_append, walk_file ⟨hi, hu, hl⟩ hf, if_neg (by simp)] at h
    cases h
  | case9 _ _ _ rest hi hu hl next bytes changed hf =>
    rw [List.cons_append, walk_file ⟨hi, hu, hl⟩ hf, if_neg (by simp)] at h
    cases h
  | case10 _ _ _ _ _ _ _ _ _ _ he => simp at he
  | case11 _ _ rest hi hu hl next target hf he =>
    rw [List.cons_append, walk_link_loop ⟨hi, hu, hl⟩ hf (by simp)] at h
    cases h
  | case12 _ _ rest hi hu hl next target hf he links link ih =>
    rw [List.cons_append, walk_link ⟨hi, hu, hl⟩ hf (by simp), ← List.append_assoc] at h
    exact ih h

/-! ## Following paths -/

/-- Where a path starts. -/
def start (t : Tree) (p : Path) : Place := if p.isAbsolute then [] else t.current

/-- What following a path makes of what walking along its pieces leads to. -/
def followed : Except SystemCode Target → Except IoFailure Target
  | .ok target => .ok target
  | .error code => .error (.system code)

end Tree

/-- A path that the system takes: its text holds no zero byte and is not too long. -/
structure Path.WithinLimits (p : Path) : Prop where
  no_nul : '\x00' ∉ p.text.toList
  not_long : p.text.utf8ByteSize ≤ Tree.pathLimit

namespace Tree

/-- A path within the limits is followed piece by piece. -/
theorem resolve_eq {p : Path} (hp : p.WithinLimits) (hne : p.text ≠ "") (t : Tree)
    (follow : Bool) :
    t.resolve follow p = followed (t.walk follow linkLimit (t.start p) p.pieces) := by
  have hn : ¬ p.text.toList.contains '\x00' = true := by
    rw [List.contains_iff_mem]
    exact hp.no_nul
  unfold resolve start
  rw [if_neg hn, if_neg hne, if_neg (Nat.not_lt.mpr hp.not_long)]
  cases t.walk follow linkLimit (if p.isAbsolute then [] else t.current) p.pieces with
  | ok target => rfl
  | error code => rfl

theorem resolve_empty {p : Path} (hp : p.text = "") (t : Tree) (follow : Bool) :
    t.resolve follow p = .error (.system .noEntry) := by
  unfold resolve
  rw [hp]
  rfl

end Tree

/-- Why the system does not take a path. -/
def Path.refusal (p : Path) : IoFailure :=
  if p.text.toList.contains '\x00' then
    .described .other "file name contained an unexpected NUL byte"
  else .system .nameTooLong

theorem Path.refusal_kind (p : Path) : p.refusal.kind ≠ .notFound := by
  unfold refusal
  split
  · exact nofun
  · decide

theorem Path.WithinLimits.refusal {p : Path} (h : p.WithinLimits) :
    p.refusal = .system .nameTooLong := by
  have hn : ¬ p.text.toList.contains '\x00' = true := by
    rw [List.contains_iff_mem]
    exact h.no_nul
  unfold Path.refusal
  rw [if_neg hn]

namespace Tree

/-- A path beyond the limits is in no tree. -/
theorem resolve_of_not_within {p : Path} (hp : ¬ p.WithinLimits) (t : Tree) (follow : Bool) :
    t.resolve follow p = .error p.refusal := by
  unfold resolve Path.refusal
  by_cases hn : p.text.toList.contains '\x00' = true
  · rw [if_pos hn, if_pos hn]
  · have hlong : pathLimit < p.text.utf8ByteSize := by
      by_contra hle
      refine hp ⟨?_, Nat.not_lt.mp hle⟩
      rwa [List.contains_iff_mem] at hn
    have he : p.text ≠ "" := by
      intro he
      rw [he] at hlong
      exact absurd hlong (by decide)
    rw [if_neg hn, if_neg he, if_pos hlong, if_neg hn]

theorem followed_ok {r : Except SystemCode Target} {target : Target}
    (h : followed r = .ok target) : r = .ok target := by
  cases r with
  | ok x => exact congrArg _ (Except.ok.inj h)
  | error e => cases h

/-- A path that leads somewhere is within the limits. -/
theorem resolve_ok {t : Tree} {p : Path} {follow : Bool} {target : Target}
    (h : t.resolve follow p = .ok target) :
    p.WithinLimits ∧ p.text ≠ "" ∧
      t.walk follow linkLimit (t.start p) p.pieces = .ok target := by
  by_cases hp : p.WithinLimits
  · by_cases he : p.text = ""
    · rw [resolve_empty he] at h
      cases h
    · rw [resolve_eq hp he] at h
      exact ⟨hp, he, followed_ok h⟩
  · rw [resolve_of_not_within hp] at h
    cases h

theorem locate_ok {t : Tree} {p : Path} {place : Place} {node : Node}
    (h : t.locate p = .ok (place, node)) : t.resolve true p = .ok (.found place node) := by
  unfold locate at h
  split at h
  · rename_i place' node' hr
    rw [hr]
    obtain ⟨rfl, rfl⟩ := Prod.mk.inj (Except.ok.inj h)
    rfl
  · cases h
  · cases h

theorem locate_of_resolve {t : Tree} {p : Path} {place : Place} {node : Node}
    (h : t.resolve true p = .ok (.found place node)) : t.locate p = .ok (place, node) := by
  unfold locate
  rw [h]

/-- A file of the root is found under a slash and its name. -/
theorem locate_top {t : Tree} {p : Path} {name : String} {bytes : List UInt8} {changed : Instant}
    (hp : p.WithinLimits) (hne : p.text ≠ "") (habsolute : p.isAbsolute = true)
    (hpieces : p.pieces = ["", name]) (hn : Enters name)
    (hf : t.find? [name] = some (.file bytes changed)) :
    t.locate p = .ok ([name], .file bytes changed) := by
  have hstart : t.start p = [] := if_pos habsolute
  refine locate_of_resolve ?_
  rw [resolve_eq hp hne, hstart, hpieces, walk_idle (by decide), walk_file hn hf]
  rfl

/-- A path that leads to a node leads there in every tree with the same current directory that has the
same directories and links, and that node. -/
theorem resolve_keep {t t' : Tree} {p : Path} {follow : Bool} {x : Place} {n : Node}
    (h : t.resolve follow p = .ok (.found x n)) (current : t'.current = t.current)
    (keep : ∀ q m, t.find? q = some m → ¬ m.IsFile ∨ q = x ∧ m = n → t'.find? q = some m) :
    t'.resolve follow p = .ok (.found x n) := by
  obtain ⟨hp, he, hw⟩ := resolve_ok h
  have hs : t'.start p = t.start p := by
    unfold start
    rw [current]
  rw [resolve_eq hp he, hs, walk_mono hw keep]
  rfl

theorem locate_keep {t t' : Tree} {p : Path} {x : Place} {n : Node} (h : t.locate p = .ok (x, n))
    (current : t'.current = t.current)
    (keep : ∀ q m, t.find? q = some m → ¬ m.IsFile ∨ q = x ∧ m = n → t'.find? q = some m) :
    t'.locate p = .ok (x, n) :=
  locate_of_resolve (resolve_keep (locate_ok h) current keep)

/-- A path that leads to a node leads there in every tree with the same current directory that has
the same directories and links, and that node. -/
theorem locate_mono {t t' : Tree} {p : Path} {x : Place} {n : Node} (h : t.locate p = .ok (x, n))
    (current : t'.current = t.current)
    (keep : ∀ q m, t.find? q = some m → ¬ m.IsFile ∨ q = x → t'.find? q = some m) :
    t'.locate p = .ok (x, n) :=
  locate_keep h current fun q m hm hk => keep q m hm (hk.imp_right And.left)

/-- A path that leads to a directory leads there whatever files stand in the tree. -/
theorem locate_directory_mono {t t' : Tree} {p : Path} {x : Place}
    (h : t.locate p = .ok (x, .directory)) (current : t'.current = t.current)
    (keep : ∀ q m, t.find? q = some m → ¬ m.IsFile → t'.find? q = some m) :
    t'.locate p = .ok (x, .directory) :=
  locate_keep h current fun q m hm hk =>
    keep q m hm (hk.elim id fun hk => hk.2 ▸ Node.not_isFile_directory)

end Tree
end SourceSurvey
