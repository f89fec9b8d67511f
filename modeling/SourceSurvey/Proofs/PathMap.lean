import Mathlib.Data.List.Basic
import Mathlib.Data.List.Pairwise
import Mathlib.Data.List.Sort
import SourceSurvey.PathMap

/-!
# The order of paths and maps from paths

* `Path.order` is a total order of the lists of components (`Path.order_trans`, `Path.order_swap`),
  and two paths compare as equal iff they have the same components (`Path.order_eq_iff`).
* `PathMap.Sorted`: the entries of a map stand in strictly increasing order. The empty map is
  sorted and `insert` keeps it (`Sorted.insert`).
* `PathMap.perm_insert`: inserting at a new path adds one entry and touches no other.
* `PathMap.Sorted.ext_perm`: sorted maps with the same entries are equal, whatever the order in
  which the entries came in.
-/

namespace SourceSurvey

open Std

/-! ## The order of components -/

namespace Component

/-- Components are ordered by their kinds and, within one kind, by their texts. -/
theorem order_eq_lex : order = compareLex (compareOn rank) (compareOn text) := by
  funext a b
  cases a <;> cases b <;> simp [order, compareLex, compareOn, rank, text, Nat.compare_eq_ite_lt]

instance : TransCmp order := by
  rw [order_eq_lex]; infer_instance

instance : LawfulEqCmp order where
  eq_of_compare {a b} h := by
    cases a <;> cases b <;> simp_all [order, rank, Nat.compare_eq_ite_lt]

end Component

namespace Path

theorem orderComponents_eq : orderComponents = List.compareLex Component.order := by
  funext a b
  induction a generalizing b with
  | nil => cases b <;> rfl
  | cons x xs ih =>
    cases b with
    | nil => rfl
    | cons y ys =>
      rw [orderComponents, ih, List.compareLex_cons_cons]

instance : TransCmp orderComponents := by
  rw [orderComponents_eq]; infer_instance

instance : LawfulEqCmp orderComponents := by
  rw [orderComponents_eq]; infer_instance

theorem order_eq_iff {p q : Path} : p.order q = .eq ↔ p.same q = true := by
  unfold order same
  rw [LawfulEqCmp.compare_eq_iff_eq]
  simp

theorem order_swap (p q : Path) : p.order q = (q.order p).swap := by
  unfold order
  exact OrientedCmp.eq_swap

theorem order_trans {p q r : Path} (h : p.order q = .lt) (h' : q.order r = .lt) :
    p.order r = .lt := by
  unfold order at *
  exact TransCmp.lt_trans h h'

theorem order_lt_irrefl (p : Path) : p.order p ≠ .lt := by
  have h : orderComponents p.components p.components = .eq := ReflCmp.compare_self
  unfold order
  rw [h]
  exact fun h => nomatch h

/-- Lists that increase by the components of their elements are equal if they have the same elements. -/
theorem eq_of_increasing {β : Type} (key : β → List Component) {xs ys : List β}
    (hx : xs.Pairwise fun a b => orderComponents (key a) (key b) = .lt)
    (hy : ys.Pairwise fun a b => orderComponents (key a) (key b) = .lt)
    (h : ∀ b, b ∈ xs ↔ b ∈ ys) : xs = ys := by
  have irrefl (cs : List Component) : orderComponents cs cs ≠ .lt := by
    have heq : orderComponents cs cs = .eq := ReflCmp.compare_self
    rw [heq]
    exact nofun
  have nodup {l : List β} (hl : l.Pairwise fun a b => orderComponents (key a) (key b) = .lt) :
      l.Nodup := by
    refine hl.imp fun {a b} hlt => ?_
    rintro rfl
    exact irrefl _ hlt
  refine List.Perm.eq_of_pairwise (fun a b _ _ hab hba => ?_) hx hy
    ((List.perm_ext_iff_of_nodup (nodup hx) (nodup hy)).mpr h)
  exact absurd (TransCmp.lt_trans hab hba) (irrefl _)

@[simp] theorem same_refl (p : Path) : p.same p = true := by simp [same]

theorem same_iff {p q : Path} : p.same q = true ↔ p.components = q.components := by simp [same]

theorem same_symm {p q : Path} (h : p.same q = true) : q.same p = true :=
  same_iff.mpr (same_iff.mp h).symm

theorem not_same_symm {p q : Path} (h : p.same q = false) : q.same p = false := by
  cases hqp : q.same p with
  | false => rfl
  | true => rw [same_symm hqp] at h; exact h

theorem same_trans {p q r : Path} (h : p.same q = true) (h' : q.same r = true) :
    p.same r = true :=
  same_iff.mpr ((same_iff.mp h).trans (same_iff.mp h'))

/-- Among paths with different components, those with the same components are equal. -/
theorem eq_of_same {ps : List Path} (h : ps.Pairwise fun p q => p.same q = false) {p q : Path}
    (hp : p ∈ ps) (hq : q ∈ ps) (hs : p.same q = true) : p = q := by
  have symm : Std.Symm fun p q : Path => p.same q = false := ⟨fun _ _ => not_same_symm⟩
  by_contra hne
  exact Bool.false_ne_true ((h.forall hp hq hne).symm.trans hs)

theorem nodup_of_distinct {ps : List Path} (h : ps.Pairwise fun p q => p.same q = false) :
    ps.Nodup := by
  refine h.imp fun {p q} hs => ?_
  rintro rfl
  exact Bool.false_ne_true (hs.symm.trans (same_refl p))

end Path

/-! ## Sorted maps -/

namespace PathMap

variable {α β : Type}

/-- The entries stand in strictly increasing order of their paths. -/
def Sorted (m : PathMap α) : Prop := m.entries.Pairwise fun a b => a.1.order b.1 = .lt

theorem sorted_empty : (empty : PathMap α).Sorted := List.Pairwise.nil

theorem lt_insertEntry {r p : Path} {a : α} {es : List (Path × α)} (hr : r.order p = .lt)
    (h : ∀ e ∈ es, r.order e.1 = .lt) : ∀ e ∈ insertEntry p a es, r.order e.1 = .lt := by
  induction es with
  | nil => simpa [insertEntry] using hr
  | cons e es ih =>
    have he := h e (by simp)
    have hes := ih fun e he => h e (by simp [he])
    intro e' h'
    unfold insertEntry at h'
    split at h' <;> rename_i ho
    · grind
    · grind
    · grind

theorem Sorted.insert {m : PathMap α} (h : m.Sorted) (p : Path) (a : α) : (m.insert p a).Sorted := by
  obtain ⟨es⟩ := m
  unfold Sorted PathMap.insert at *
  induction es with
  | nil => simp [insertEntry]
  | cons e es ih =>
    obtain ⟨hlt, hes⟩ := List.pairwise_cons.mp h
    unfold insertEntry
    split <;> rename_i ho
    · refine List.pairwise_cons.mpr ⟨fun e' he' => ?_, h⟩
      rcases List.mem_cons.mp he' with rfl | he'
      · exact ho
      · exact Path.order_trans ho (hlt e' he')
    · exact List.pairwise_cons.mpr ⟨hlt, hes⟩
    · refine List.pairwise_cons.mpr ⟨lt_insertEntry ?_ hlt, ih hes⟩
      rw [Path.order_swap, ho]; rfl

/-- The paths of a sorted map have different components. -/
theorem Sorted.distinct {m : PathMap α} (h : m.Sorted) :
    m.entries.Pairwise fun a b => a.1.same b.1 = false := by
  refine List.Pairwise.imp (fun {a b} hlt => ?_) h
  cases hs : a.1.same b.1 with
  | false => rfl
  | true => rw [Path.order_eq_iff.mpr hs] at hlt; exact nomatch hlt

/-- Sorted maps with the same entries are equal. -/
theorem Sorted.ext_perm {m n : PathMap α} (hm : m.Sorted) (hn : n.Sorted)
    (h : m.entries.Perm n.entries) : m = n := by
  obtain ⟨es⟩ := m
  obtain ⟨fs⟩ := n
  unfold Sorted at hm hn
  congr 1
  refine List.Perm.eq_of_pairwise ?_ hm hn h
  intro a b _ _ hab hba
  exact absurd (Path.order_trans hab hba) (Path.order_lt_irrefl _)

/-! ## Entries after an insertion -/

theorem perm_insertEntry {p : Path} {a : α} {es : List (Path × α)}
    (h : ∀ e ∈ es, p.same e.1 = false) : (insertEntry p a es).Perm ((p, a) :: es) := by
  induction es with
  | nil => exact .refl _
  | cons e es ih =>
    have hes := ih fun e he => h e (by simp [he])
    unfold insertEntry
    split <;> rename_i ho
    · exact .refl _
    · have := h e (by simp)
      rw [Path.order_eq_iff.mp ho] at this
      exact nomatch this
    · exact (hes.cons e).trans (.swap ..)

/-- Inserting at a new path adds one entry and touches no other. -/
theorem perm_insert {m : PathMap α} {p : Path} {a : α} (h : ∀ q ∈ m.keys, p.same q = false) :
    (m.insert p a).entries.Perm ((p, a) :: m.entries) := by
  refine perm_insertEntry fun e he => h e.1 ?_
  exact List.mem_map_of_mem he

theorem perm_keys_insert {m : PathMap α} {p : Path} {a : α} (h : ∀ q ∈ m.keys, p.same q = false) :
    (m.insert p a).keys.Perm (p :: m.keys) :=
  (perm_insert h).map Prod.fst

theorem mem_keys_insert {m : PathMap α} {p q : Path} {a : α} (h : q ∈ (m.insert p a).keys) :
    q = p ∨ q ∈ m.keys := by
  obtain ⟨es⟩ := m
  simp only [keys, insert] at *
  induction es with
  | nil => simpa [insertEntry] using h
  | cons e es ih =>
    unfold insertEntry at h
    split at h
    · exact List.mem_cons.mp h
    · exact .inr h
    · rcases List.mem_cons.mp h with h | h
      · exact .inr (List.mem_cons.mpr (.inl h))
      · rcases ih h with h | h
        · exact .inl h
        · exact .inr (List.mem_cons_of_mem _ h)

/-- Paths that are unlike the keys stay so when another one is inserted. -/
theorem fresh_insert {m : PathMap α} {p : Path} {paths : List Path} (a : α)
    (hp : ∀ q ∈ paths, p.same q = false) (fresh : ∀ q ∈ paths, ∀ r ∈ m.keys, q.same r = false) :
    ∀ q ∈ paths, ∀ r ∈ (m.insert p a).keys, q.same r = false := by
  intro q hq r hr
  rcases mem_keys_insert hr with rfl | hr
  · exact Path.not_same_symm (hp q hq)
  · exact fresh q hq r hr

theorem mem_keys_foldl_insert {m : PathMap α} {es : List (Path × α)} {q : Path}
    (h : q ∈ (es.foldl (fun m e => m.insert e.1 e.2) m).keys) : q ∈ m.keys ∨ ∃ e ∈ es, e.1 = q := by
  induction es generalizing m with
  | nil => exact .inl h
  | cons e es ih =>
    rcases ih h with h | ⟨f, hf, hq⟩
    · rcases mem_keys_insert h with rfl | h
      · exact .inr ⟨e, List.mem_cons_self, rfl⟩
      · exact .inl h
    · exact .inr ⟨f, List.mem_cons_of_mem _ hf, hq⟩

theorem Sorted.foldl_insert {m : PathMap α} (h : m.Sorted) (es : List (Path × α)) :
    (es.foldl (fun m e => m.insert e.1 e.2) m).Sorted := by
  induction es generalizing m with
  | nil => exact h
  | cons e es ih => exact ih (h.insert e.1 e.2)

theorem sorted_ofList (es : List (Path × α)) : (ofList es).Sorted := sorted_empty.foldl_insert es

/-- Inserting entries at new and distinct paths adds them and touches no other. -/
theorem perm_foldl_insert {m : PathMap α} {es : List (Path × α)}
    (hes : es.Pairwise fun a b => a.1.same b.1 = false)
    (hm : ∀ e ∈ es, ∀ q ∈ m.keys, e.1.same q = false) :
    (es.foldl (fun m e => m.insert e.1 e.2) m).entries.Perm (es ++ m.entries) := by
  induction es generalizing m with
  | nil => exact .refl _
  | cons e es ih =>
    obtain ⟨he, hes⟩ := List.pairwise_cons.mp hes
    have hnew := hm e (by simp)
    refine (ih hes fun f hf q hq => ?_).trans ?_
    · rcases List.mem_cons.mp ((perm_keys_insert hnew).mem_iff.mp hq) with rfl | hq
      · exact Path.not_same_symm (he f hf)
      · exact hm f (by simp [hf]) q hq
    · exact ((perm_insert hnew).append_left es).trans List.perm_middle

theorem perm_ofList {es : List (Path × α)}
    (hes : es.Pairwise fun a b => a.1.same b.1 = false) : (ofList es).entries.Perm es := by
  have := perm_foldl_insert (m := empty) hes (by simp [empty, keys])
  simpa [ofList, empty] using this

/-- A sorted map is the map of its entries, in whatever order they come. -/
theorem Sorted.eq_ofList {m : PathMap α} (h : m.Sorted) {es : List (Path × α)}
    (hp : m.entries.Perm es) : m = ofList es := by
  have hes := (hp.pairwise_iff fun h => Path.not_same_symm h).mp h.distinct
  exact h.ext_perm (sorted_ofList es) (hp.trans (perm_ofList hes).symm)

/-- The keys after an insertion depend on the keys before it only. -/
theorem keys_insert_congr {m : PathMap α} {n : PathMap β} (h : m.keys = n.keys) (p : Path) (a : α)
    (b : β) : (m.insert p a).keys = (n.insert p b).keys := by
  obtain ⟨es⟩ := m
  obtain ⟨fs⟩ := n
  simp only [keys, insert] at *
  induction es generalizing fs with
  | nil => cases fs <;> simp_all [insertEntry]
  | cons e es ih =>
    cases fs with
    | nil => simp at h
    | cons f fs =>
      obtain ⟨hef, hes⟩ : e.1 = f.1 ∧ es.map Prod.fst = fs.map Prod.fst := by simpa using h
      unfold insertEntry
      simp only [hef]
      split
      · simp [hes]
      · simp [hes]
      · simpa [hef] using ih fs hes

/-- A map contains the paths that have the components of a key. -/
theorem contains_iff {m : PathMap α} {p : Path} :
    m.contains p = true ↔ ∃ q ∈ m.keys, p.same q = true := by
  unfold contains keys
  rw [List.any_eq_true]
  constructor
  · rintro ⟨e, he, hs⟩
    exact ⟨e.1, List.mem_map_of_mem he, hs⟩
  · rintro ⟨q, hq, hs⟩
    obtain ⟨e, he, rfl⟩ := List.mem_map.mp hq
    exact ⟨e, he, hs⟩

/-- The paths that a map lacks and its keys are together a list of distinct paths, if the keys are
among them. -/
theorem Sorted.perm_lost {m : PathMap α} (h : m.Sorted) {ps : List Path}
    (distinct : ps.Pairwise fun p q => p.same q = false) (among : ∀ p ∈ m.keys, p ∈ ps) :
    ((ps.filter fun p => !m.contains p) ++ m.keys).Perm ps := by
  have hkeys : m.keys.Nodup := Path.nodup_of_distinct (List.pairwise_map.mpr h.distinct)
  have hperm : (ps.filter fun p => m.contains p).Perm m.keys := by
    refine (List.perm_ext_iff_of_nodup (Path.nodup_of_distinct (distinct.filter _)) hkeys).mpr
      fun p => ?_
    rw [List.mem_filter, contains_iff]
    constructor
    · rintro ⟨hp, q, hq, hs⟩
      rwa [Path.eq_of_same distinct hp (among q hq) hs]
    · exact fun hp => ⟨among p hp, p, hp, Path.same_refl p⟩
  refine .trans ?_ (List.filter_append_perm (fun p => m.contains p) ps)
  exact List.perm_append_comm.trans (hperm.symm.append_right _)

/-! ## Values -/

theorem get?_congr (m : PathMap α) {p q : Path} (h : p.same q = true) : m.get? p = m.get? q := by
  have hpq : (fun e : Path × α => p.same e.1) = fun e => q.same e.1 := by
    funext e
    unfold Path.same
    rw [Path.same_iff.mp h]
  unfold get?
  rw [hpq]

theorem find?_insertEntry (p q : Path) (a : α) (es : List (Path × α)) :
    ((insertEntry p a es).find? fun e => q.same e.1).map Prod.snd =
      if q.same p then some a else (es.find? fun e => q.same e.1).map Prod.snd := by
  induction es with
  | nil =>
    rw [insertEntry, List.find?_cons]
    cases h : q.same p <;> simp
  | cons e es ih =>
    obtain ⟨r, b⟩ := e
    unfold insertEntry
    split <;> rename_i ho
    · rw [List.find?_cons]
      cases h : q.same p <;> simp
    · have hpr : p.same r = true := Path.order_eq_iff.mp ho
      rw [List.find?_cons, List.find?_cons]
      cases h : q.same p with
      | true =>
        rw [Path.same_trans h hpr]
        rfl
      | false =>
        have hqr : q.same r = false := by
          cases hq : q.same r with
          | false => rfl
          | true => rw [Path.same_trans hq (Path.same_symm hpr)] at h; exact nomatch h
        rw [hqr]
        rfl
    · have hpr : p.same r = false := by
        cases hp : p.same r with
        | false => rfl
        | true => rw [Path.order_eq_iff.mpr hp] at ho; exact nomatch ho
      rw [List.find?_cons, List.find?_cons]
      cases hq : q.same r with
      | true =>
        have h : q.same p = false := by
          cases hp : q.same p with
          | false => rfl
          | true => rw [Path.same_trans (Path.same_symm hp) hq] at hpr; exact nomatch hpr
        rw [h]
        rfl
      | false => exact ih

/-- The value at a path after an insertion. -/
theorem get?_insert (m : PathMap α) (p q : Path) (a : α) :
    (m.insert p a).get? q = if q.same p then some a else m.get? q :=
  find?_insertEntry p q a m.entries

theorem contains_eq_isSome (m : PathMap α) (p : Path) : m.contains p = (m.get? p).isSome := by
  unfold contains get?
  rw [Option.isSome_map, List.isSome_find?]

theorem contains_insert {m : PathMap α} {p q : Path} {a : α} :
    (m.insert p a).contains q = true ↔ q.same p = true ∨ m.contains q = true := by
  rw [contains_eq_isSome, contains_eq_isSome, get?_insert]
  split
  · rename_i h
    simp [h]
  · rename_i h
    simp [h]

theorem contains_foldl_insert {m : PathMap α} {es : List (Path × α)} {q : Path}
    (h : m.contains q = true ∨ ∃ e ∈ es, q.same e.1 = true) :
    (es.foldl (fun m e => m.insert e.1 e.2) m).contains q = true := by
  induction es generalizing m with
  | nil => exact h.resolve_right nofun
  | cons e es ih =>
    refine ih ?_
    rcases h with h | ⟨f, hf, hs⟩
    · exact .inl (contains_insert.mpr (.inr h))
    · rcases List.mem_cons.mp hf with rfl | hf
      · exact .inl (contains_insert.mpr (.inl hs))
      · exact .inr ⟨f, hf, hs⟩

/-- A value stands at a key with the components of its path. -/
theorem exists_of_get? {m : PathMap α} {p : Path} {a : α} (h : m.get? p = some a) :
    ∃ q, (q, a) ∈ m.entries ∧ p.same q = true := by
  obtain ⟨e, he, rfl⟩ := Option.map_eq_some_iff.mp h
  exact ⟨e.1, List.mem_of_find?_eq_some he, @List.find?_some _ _ e _ he⟩

/-- The value of an entry of a sorted map is found at its path. -/
theorem Sorted.get?_of_mem {m : PathMap α} (h : m.Sorted) {e : Path × α} (he : e ∈ m.entries) :
    m.get? e.1 = some e.2 := by
  have hdistinct := h.distinct
  obtain ⟨es⟩ := m
  unfold get?
  dsimp only at he hdistinct ⊢
  clear h
  induction es with
  | nil => exact nomatch he
  | cons f es ih =>
    obtain ⟨hf, hdistinct⟩ := List.pairwise_cons.mp hdistinct
    rw [List.find?_cons]
    rcases List.mem_cons.mp he with rfl | he
    · rw [Path.same_refl]
      rfl
    · rw [Path.not_same_symm (hf e he)]
      exact ih he hdistinct

theorem Sorted.erase {m : PathMap α} (h : m.Sorted) (p : Path) : (m.erase p).Sorted :=
  List.Pairwise.filter _ h

theorem mem_keys_erase {m : PathMap α} {p q : Path} (h : q ∈ (m.erase p).keys) : q ∈ m.keys := by
  obtain ⟨e, he, rfl⟩ := List.mem_map.mp h
  exact List.mem_map_of_mem (List.mem_filter.mp he).1

/-- Removing a key that a map does not have changes nothing. -/
theorem erase_of_not_contains {m : PathMap α} {p : Path} (h : m.contains p = false) :
    m.erase p = m := by
  have hother : ∀ e ∈ m.entries, (!p.same e.1) = true := by
    intro e he
    rw [Bool.not_eq_true', Bool.eq_false_iff]
    exact fun hs => Bool.eq_false_iff.mp h (List.any_eq_true.mpr ⟨e, he, hs⟩)
  show PathMap.mk (m.entries.filter _) = m
  rw [List.filter_eq_self.mpr hother]

theorem erase_insert_empty (p : Path) (a : α) : ((empty : PathMap α).insert p a).erase p = empty := by
  show PathMap.mk ([(p, a)].filter fun e => !p.same e.1) = ⟨[]⟩
  simp

/-- The value at a path after a removal. -/
theorem get?_erase (m : PathMap α) (p q : Path) :
    (m.erase p).get? q = if p.same q then none else m.get? q := by
  unfold get? erase
  rw [List.find?_filter]
  cases h : p.same q with
  | true =>
    have hnone : (m.entries.find? fun e => (!p.same e.1) = true ∧ q.same e.1 = true) = none := by
      rw [List.find?_eq_none]
      intro e _ he
      obtain ⟨hp, hq⟩ := of_decide_eq_true he
      rw [Path.same_trans h hq] at hp
      exact nomatch hp
    rw [hnone]
    rfl
  | false =>
    have heq : (fun e : Path × α => decide ((!p.same e.1) = true ∧ q.same e.1 = true)) =
        fun e => q.same e.1 := by
      funext e
      cases hq : q.same e.1 with
      | false => simp
      | true =>
        cases hp : p.same e.1 with
        | false => simp
        | true => rw [Path.same_trans hp (Path.same_symm hq)] at h; exact nomatch h
    rw [heq]
    rfl

end PathMap
end SourceSurvey
