import SourceSurvey.Discovery
import SourceSurvey.Proofs.Tree.Walk

/-!
# Names below a directory

* `Tree.resolve_below`: a path of names below the path of a directory is followed from that
  directory along the names.
* `Tree.walk_name`: one name leads to what stands there or is free.
-/

namespace SourceSurvey

open SourceSurvey.Path (IsName)

namespace Discovery

theorem pathBelow_cons (p : Path) (name : String) (names : List String) :
    pathBelow p (name :: names) = pathBelow (p.join ⟨name⟩) names := rfl

/-- Names below a path are its last pieces. -/
theorem pieces_pathBelow (p : Path) {names : List String} (hn : ∀ n ∈ names, IsName n)
    (hne : names ≠ []) : (pathBelow p names).pieces = p.openPieces ++ names := by
  induction names generalizing p with
  | nil => exact absurd rfl hne
  | cons name names ih =>
    have hname := hn name List.mem_cons_self
    rw [pathBelow_cons]
    cases names with
    | nil => exact Path.pieces_join p hname
    | cons name' names =>
      rw [ih _ (fun n h => hn n (List.mem_cons_of_mem _ h)) nofun, Path.openPieces_join p hname,
        List.append_assoc, List.singleton_append]

theorem text_join_ne_empty (p : Path) {name : String} (hn : IsName name) :
    (p.join ⟨name⟩).text ≠ "" := by
  intro h
  have hp := (Path.pieces_of_empty h).1
  rw [Path.pieces_join p hn] at hp
  have hlast := congrArg List.getLast? hp
  rw [List.getLast?_concat] at hlast
  exact hn.ne_empty (Option.some.inj hlast)

theorem text_pathBelow_ne_empty {p : Path} (hp : p.text ≠ "") {names : List String}
    (hn : ∀ n ∈ names, IsName n) : (pathBelow p names).text ≠ "" := by
  induction names generalizing p with
  | nil => exact hp
  | cons name names ih =>
    rw [pathBelow_cons]
    exact ih (text_join_ne_empty p (hn name List.mem_cons_self))
      fun n h => hn n (List.mem_cons_of_mem _ h)

theorem isAbsolute_pathBelow {p : Path} (hp : p.text ≠ "") {names : List String}
    (hn : ∀ n ∈ names, IsName n) : (pathBelow p names).isAbsolute = p.isAbsolute := by
  induction names generalizing p with
  | nil => rfl
  | cons name names ih =>
    have hname := hn name List.mem_cons_self
    rw [pathBelow_cons, ih (text_join_ne_empty p hname) fun n h => hn n (List.mem_cons_of_mem _ h),
      Path.isAbsolute_join hp hname]

end Discovery

namespace Tree

open Discovery (pathBelow)

/-- A name that is not too long names something in a directory. -/
theorem Enters.of_name {name : String} (hn : IsName name) (hl : name.utf8ByteSize ≤ nameLimit) :
    Enters name :=
  ⟨by simp [hn.ne_empty, hn.ne_here], hn.ne_up, Nat.not_lt.mpr hl⟩

/-- A path of names below the path of a directory is followed from there along the names. -/
theorem resolve_below {t : Tree} {p : Path} {d : Place} (h : t.locate p = .ok (d, .directory))
    (names : List String) (hn : ∀ n ∈ names, IsName n) (hne : names ≠ [])
    (hl : (pathBelow p names).WithinLimits) :
    ∃ links, ∀ follow,
      t.resolve follow (pathBelow p names) = followed (t.walk follow links d names) := by
  obtain ⟨-, he, hw⟩ := resolve_ok (locate_ok h)
  have hopen : t.walk true linkLimit (t.start p) p.openPieces = .ok (.found d .directory) := by
    rcases Path.pieces_open p with hp | hp
    · rwa [← hp]
    · rw [hp] at hw
      exact walk_of_slash hw
  have hstart : t.start (pathBelow p names) = t.start p := by
    unfold start
    rw [Discovery.isAbsolute_pathBelow he hn]
  obtain ⟨links, hlinks⟩ := walk_append hopen hne
  refine ⟨links, fun follow => ?_⟩
  rw [resolve_eq hl (Discovery.text_pathBelow_ne_empty he hn), hstart,
    Discovery.pieces_pathBelow p hn hne, hlinks]

/-- What a name in a directory leads to, without following a link. -/
def standing (t : Tree) (d : Place) (name : String) : Target :=
  match t.find? (d ++ [name]) with
  | some node => .found (d ++ [name]) node
  | none => .free d name false

/-- A name that is not too long leads to what stands there, or is free. -/
theorem walk_short {t : Tree} {d : Place} {name : String} (hn : IsName name)
    (hl : name.utf8ByteSize ≤ nameLimit)
    (nolink : ∀ target, t.find? (d ++ [name]) ≠ some (.link target)) (follow : Bool)
    (links : Nat) : t.walk follow links d [name] = .ok (t.standing d name) := by
  have he := Enters.of_name hn hl
  unfold standing
  cases hf : t.find? (d ++ [name]) with
  | none =>
    rw [walk_none he hf]
    rfl
  | some node =>
    cases node with
    | directory => rw [walk_directory he hf, walk]
    | file bytes changed => rw [walk_file he hf]; rfl
    | link target => exact absurd hf (nolink target)

/-- A name leads to what stands there, or is free, unless it is too long. -/
theorem walk_name {t : Tree} {d : Place} {name : String} (hn : IsName name)
    (nolink : ∀ target, t.find? (d ++ [name]) ≠ some (.link target)) (follow : Bool)
    (links : Nat) :
    t.walk follow links d [name] = .error .nameTooLong ∨
      t.walk follow links d [name] = .ok (t.standing d name) := by
  by_cases hl : name.utf8ByteSize ≤ nameLimit
  · exact .inr (walk_short hn hl nolink follow links)
  · refine .inl ?_
    rw [walk, if_neg (by simp [hn.ne_empty, hn.ne_here]), if_neg hn.ne_up,
      if_pos (Nat.not_le.mp hl)]

end Tree
end SourceSurvey
