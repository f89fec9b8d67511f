import SourceSurvey.Proofs.Cache.Client
import SourceSurvey.Proofs.Cache.Interleaving

/-!
# Copies that overtake each other

Calls that write the index may overlap. Each takes a copy of the index and replaces the index file by
it later, so a copy may replace one that was taken after it. Then the file is older than the index,
the index is not marked, and nobody writes it again. Unless this happens (`Workers.InOrder`), no
change of the index is lost.

* `Workers.Sound`: unless the index is still to be written, the newest copy is the index, and it is in
  the file or about to replace it. `Sound.turn` is the step lemma, `Sound.after` the run lemma.
* `Workers.flushed_index`: once all calls have returned and the index is written again, the index file
  holds the index.
-/

namespace SourceSurvey

open Cache (fileName)

/-! ## Copies in the index file -/

/-- Index files with the same bytes have as many records. -/
theorem IndexFile.length_of_bytes {f g : IndexFile} (h : f.bytes = g.bytes) :
    f.records.length = g.records.length := by
  have read (f : IndexFile) : (Text.decode? f.bytes).bind Json.parse = some f.toJson := by
    unfold bytes
    rw [Text.decode?_toUTF8, Option.bind_some, Json.parse_pretty f.plain]
  have hread := read f
  rw [h, read g] at hread
  have hfields := List.cons.inj (Json.object.inj (Option.some.inj hread))
  have hrecords := Json.array.inj (Prod.mk.inj (List.cons.inj hfields.2).1).2
  simpa using (congrArg List.length hrecords).symm

namespace Site

variable {site : Site} {t t' : Tree} {f : IndexFile} {place : Place}

/-- The index file holds a copy of the index; it is missing if the copy has no record. -/
def Shows (site : Site) (t : Tree) (f : IndexFile) : Prop :=
  f.records = [] ∧ t.find? site.indexPlace = none ∨
    (site.directory.join ⟨fileName "index"⟩).Nameable ∧
      ∃ changed, t.find? site.indexPlace = some (.file f.bytes changed)

theorem Shows.of_touches {k : Path} (h : site.Shows t f)
    (touched : site.Touches (site.payloadPlace k) t t') : site.Shows t' f := by
  unfold Shows
  rwa [touched.index]

end Site

namespace Cache.At

variable {site : Site} {c : Cache} {t : Tree}

theorem written_iff (h : c.At site) : Written site.home c t ↔ site.Shows t c.indexFile := by
  have hempty : c.index = .empty ↔ c.indexFile.records = [] := by
    show c.index = ⟨[]⟩ ↔ c.index.entries.map Prod.snd = []
    rw [List.map_eq_nil_iff]
    cases c.index
    simp
  unfold Written Site.Shows
  rw [hempty, h.indexPath]
  rfl

end Cache.At

/-! ## No copy is lost -/

/-- After this step the index will be written again. -/
def Pending.owes : Pending → Bool
  | .marking => true
  | .copying => true
  | _ => false

/-- If this step replaces the index file, then by a newer copy. -/
def Shared.Renews (s : Shared) : Pending → Prop
  | .replacing n f => (s.replace n f).2 = none → s.shown < n
  | _ => True

namespace Workers

variable {site : Site} {copy : Nat → IndexFile} {s s' : Shared} {next : Pending}
  {others l l' : List Pending} {w : Workers} {c : Cache} {t : Tree}

/-- The index is still to be written: it is marked, or a call is about to mark it or to copy it. -/
def Unsettled (w : Workers) : Prop :=
  w.shared.cache.dirty = true ∨ ∃ next ∈ w.pending, next.owes = true

/-- Calls whose copies have numbers, of which one is in the index file. -/
structure Numbered (site : Site) (copy : Nat → IndexFile) (w : Workers) : Prop where
  here : w.shared.cache.At site
  houses : w.shared.tree.Houses site.directory site.home
  numbers : ∀ n f, .replacing n f ∈ w.pending → n ≤ w.shared.copies ∧ f = copy n
  shown_le : w.shared.shown ≤ w.shared.copies
  shows : site.Shows w.shared.tree (copy w.shared.shown)

/-- Unless the index is still to be written, the newest copy is the index, and it is in the index
file or about to replace it. -/
structure Sound (site : Site) (copy : Nat → IndexFile) (w : Workers) : Prop
    extends Numbered site copy w where
  settled : w.Unsettled ∨ copy w.shared.copies = w.shared.cache.indexFile ∧
    (w.shared.shown = w.shared.copies ∨ ∃ f, .replacing w.shared.copies f ∈ w.pending)

/-- The index file is replaced by newer copies only. -/
def InOrder (w : Workers) : List Turn → Prop
  | [] => True
  | r :: rest =>
    (∀ i next, r = .advancing i → w.pending[i]? = some next → w.shared.Renews next) ∧
      (w.turn r).InOrder rest

namespace Unsettled

/-- A call that owes nothing has done its step and left the mark. -/
theorem rest (h : Unsettled ⟨s, next :: others⟩) (owes : next.owes = false)
    (dirty : s'.cache.dirty = s.cache.dirty) (l : List Pending) : Unsettled ⟨s', l ++ others⟩ := by
  rcases h with h | ⟨x, hx, ho⟩
  · exact .inl (dirty.trans h)
  · rcases List.mem_cons.mp hx with rfl | hx
    · exact absurd ho (by simp [owes])
    · exact .inr ⟨x, List.mem_append_right _ hx, ho⟩

end Unsettled

namespace Numbered

/-- A step that takes no copy. -/
theorem step (h : Numbered site copy ⟨s, next :: others⟩) (s' : Shared) (next? : Option Pending)
    (here : s'.cache.At site) (houses : s'.tree.Houses site.directory site.home)
    (copies : s'.copies = s.copies) (shown_le : s'.shown ≤ s'.copies)
    (shows : site.Shows s'.tree (copy s'.shown)) (fresh : ∀ n f, next? ≠ some (.replacing n f)) :
    Numbered site copy ⟨s', next?.toList ++ others⟩ := by
  refine ⟨here, houses, fun n f hm => ?_, shown_le, shows⟩
  rcases List.mem_append.mp hm with hm | hm
  · exact absurd (Option.mem_toList.mp hm) (fresh n f)
  · rw [show (Workers.mk s' _).shared.copies = s.copies from copies]
    exact h.numbers n f (List.mem_cons_of_mem _ hm)

end Numbered

namespace Sound

/-- The calls may be listed in any order. -/
theorem perm (h : Sound site copy ⟨s, l⟩) (hp : l.Perm l') : Sound site copy ⟨s, l'⟩ := by
  refine ⟨⟨h.here, h.houses, fun n f hm => h.numbers n f (hp.mem_iff.mpr hm), h.shown_le, h.shows⟩, ?_⟩
  rcases h.settled with (hd | ⟨x, hx, ho⟩) | ⟨hc, hs | ⟨f, hm⟩⟩
  · exact .inl (.inl hd)
  · exact .inl (.inr ⟨x, hp.mem_iff.mp hx, ho⟩)
  · exact .inr ⟨hc, .inl hs⟩
  · exact .inr ⟨hc, .inr ⟨f, hp.mem_iff.mp hm⟩⟩

/-- A call begins. -/
theorem call (h : Sound site copy ⟨s, l⟩) (call : Call) :
    Sound site copy ⟨s, .starting call :: l⟩ := by
  refine ⟨⟨h.here, h.houses, fun n f hm => ?_, h.shown_le, h.shows⟩, ?_⟩
  · rcases List.mem_cons.mp hm with hm | hm
    · exact nomatch hm
    · exact h.numbers n f hm
  · rcases h.settled with (hd | ⟨x, hx, ho⟩) | ⟨hc, hs | ⟨f, hm⟩⟩
    · exact .inl (.inl hd)
    · exact .inl (.inr ⟨x, List.mem_cons_of_mem _ hx, ho⟩)
    · exact .inr ⟨hc, .inl hs⟩
    · exact .inr ⟨hc, .inr ⟨f, List.mem_cons_of_mem _ hm⟩⟩

/-- A step that leaves the index, its mark and its file. -/
theorem quiet {call : Call} (h : Sound site copy ⟨s, .starting call :: others⟩) (s' : Shared)
    (next? : Option Pending) (here : s'.cache.At site)
    (houses : s'.tree.Houses site.directory site.home)
    (same : s'.cache.indexFile = s.cache.indexFile) (dirty : s'.cache.dirty = s.cache.dirty)
    (copies : s'.copies = s.copies) (shown : s'.shown = s.shown)
    (shows : site.Shows s'.tree (copy s.shown)) (fresh : ∀ n f, next? ≠ some (.replacing n f)) :
    Sound site copy ⟨s', next?.toList ++ others⟩ := by
  have hle : s.shown ≤ s.copies := h.shown_le
  refine ⟨h.toNumbered.step s' next? here houses copies (by omega) (by rwa [shown]) fresh, ?_⟩
  show _ ∨ copy s'.copies = s'.cache.indexFile ∧ (s'.shown = s'.copies ∨ _)
  rw [same, copies, shown]
  rcases h.settled with hu | ⟨hc, hs | ⟨f, hm⟩⟩
  · exact .inl (hu.rest rfl dirty _)
  · exact .inr ⟨hc, .inl hs⟩
  · rcases List.mem_cons.mp hm with hm | hm
    · exact nomatch hm
    · exact .inr ⟨hc, .inr ⟨f, List.mem_append_right _ hm⟩⟩

/-- A step after which the index is still to be written. -/
theorem unsettle (h : Sound site copy ⟨s, next :: others⟩) (s' : Shared) (next? : Option Pending)
    (here : s'.cache.At site) (houses : s'.tree.Houses site.directory site.home)
    (copies : s'.copies = s.copies) (shown : s'.shown = s.shown)
    (shows : site.Shows s'.tree (copy s.shown)) (fresh : ∀ n f, next? ≠ some (.replacing n f))
    (unsettled : s'.cache.dirty = true ∨ ∃ next, next? = some next ∧ next.owes = true) :
    Sound site copy ⟨s', next?.toList ++ others⟩ := by
  have hle : s.shown ≤ s.copies := h.shown_le
  refine ⟨h.toNumbered.step s' next? here houses copies (by omega) (by rwa [shown]) fresh, .inl ?_⟩
  rcases unsettled with hd | ⟨x, rfl, ho⟩
  · exact .inl hd
  · exact .inr ⟨x, List.mem_append_left _ (List.mem_singleton_self x), ho⟩

theorem write {p : Path} {m : Module} {edges : List Edge} {micros : Nat}
    (h : Sound site copy ⟨s, .starting (.storing p m edges micros) :: others⟩) :
    Sound site copy ⟨(s.write p m edges micros).1, (s.write p m edges micros).2.toList ++ others⟩ := by
  unfold Shared.write
  cases s.cache.stamp? s.tree p with
  | none =>
    exact h.quiet s none h.here h.houses rfl rfl rfl rfl h.shows nofun
  | some stamp =>
    dsimp only
    rcases hw : s.cache.writeFile s.tree (s.cache.payloadPath s.tree p)
      (s.cache.entryFor s.tree stamp m edges micros).bytes with ⟨c, t, r⟩
    obtain ⟨rfl, writes⟩ := h.here.writePayload h.houses hw
    have touched := writes.touches
    have here : ({ s.cache with drafts := s.cache.drafts + 1 } : Cache).At site :=
      h.here.same ⟨rfl, rfl, rfl, rfl⟩
    cases r with
    | error =>
      exact h.quiet _ none here touched.houses rfl rfl rfl rfl (h.shows.of_touches touched) nofun
    | ok =>
      exact h.quiet _ (some _) here touched.houses rfl rfl rfl rfl (h.shows.of_touches touched) nofun

theorem remove {p : Path} (h : Sound site copy ⟨s, .starting (.invalidating p) :: others⟩) :
    Sound site copy ⟨(s.remove p).1, (s.remove p).2.toList ++ others⟩ := by
  let removed : Cache := { s.cache with
    index := s.cache.index.erase (s.tree.key p)
    recent := s.cache.recent.filter fun r => !(s.tree.key p).same r.1 }
  have hremove : s.remove p =
      ({ s with cache := removed, tree := (s.cache.invalidate s.tree p).2.1 },
        if s.cache.index.contains (s.tree.key p) then some .marking else none) := rfl
  have touched := h.here.invalidate h.houses p
  have here : removed.At site := h.here.same ⟨rfl, rfl, rfl, rfl⟩
  rw [hremove]
  generalize (s.cache.invalidate s.tree p).2.1 = t at touched ⊢
  cases hi : s.cache.index.contains (s.tree.key p) with
  | true =>
    exact h.unsettle _ (some .marking) here touched.houses rfl rfl (h.shows.of_touches touched) nofun
      (.inr ⟨_, rfl, rfl⟩)
  | false =>
    refine h.quiet _ none here touched.houses ?_ rfl rfl rfl (h.shows.of_touches touched) nofun
    show IndexFile.mk _ (s.cache.index.erase _).values = _
    rw [PathMap.erase_of_not_contains hi]
    rfl

theorem swap (h : Sound site copy ⟨s, .starting .flushing :: others⟩) :
    Sound site copy ⟨s.swap.1, s.swap.2.toList ++ others⟩ := by
  unfold Shared.swap
  split
  · exact h.unsettle _ (some .copying) (h.here.same ⟨rfl, rfl, rfl, rfl⟩) h.houses rfl rfl h.shows
      nofun (.inr ⟨_, rfl, rfl⟩)
  · exact h.quiet s none h.here h.houses rfl rfl rfl rfl h.shows nofun

theorem insert {e : CacheEntry} (h : Sound site copy ⟨s, .inserting e :: others⟩) :
    Sound site copy ⟨{ s with cache := { s.cache.hold e with dirty := s.cache.dirty } },
      .marking :: others⟩ :=
  h.unsettle _ (some .marking) (h.here.same ⟨rfl, rfl, rfl, rfl⟩) h.houses rfl rfl h.shows nofun
    (.inr ⟨_, rfl, rfl⟩)

theorem mark (h : Sound site copy ⟨s, .marking :: others⟩) :
    Sound site copy ⟨{ s with cache := { s.cache with dirty := true } }, others⟩ :=
  h.unsettle { s with cache := { s.cache with dirty := true } } none
    (h.here.same ⟨rfl, rfl, rfl, rfl⟩) h.houses rfl rfl h.shows nofun (.inl rfl)

theorem copied (h : Sound site copy ⟨s, .copying :: others⟩) :
    Sound site (Function.update copy (s.copies + 1) s.cache.indexFile)
      ⟨{ s with copies := s.copies + 1 },
        .replacing (s.copies + 1) s.cache.indexFile :: others⟩ := by
  have hle : s.shown ≤ s.copies := h.shown_le
  -- The number is new, so the copies that have numbers are still told by them.
  refine ⟨⟨h.here, h.houses, fun n f hm => ?_, Nat.le_succ_of_le hle, ?_⟩, .inr ⟨?_, ?_⟩⟩
  · rcases List.mem_cons.mp hm with hm | hm
    · obtain ⟨rfl, rfl⟩ := Pending.replacing.inj hm
      exact ⟨le_rfl, (Function.update_self (s.copies + 1) s.cache.indexFile copy).symm⟩
    · obtain ⟨hn, rfl⟩ := h.numbers n f (List.mem_cons_of_mem _ hm)
      have hn : n ≤ s.copies := hn
      exact ⟨Nat.le_succ_of_le hn, (Function.update_of_ne (by omega) ..).symm⟩
  · show site.Shows s.tree (Function.update copy _ _ s.shown)
    rw [Function.update_of_ne (by omega)]
    exact h.shows
  · exact Function.update_self ..
  · exact .inr ⟨_, List.mem_cons_self⟩

/-- A copy replaces an older one in the index file. -/
theorem replace {n : Nat} {f : IndexFile} (h : Sound site copy ⟨s, .replacing n f :: others⟩)
    (renews : s.Renews (.replacing n f)) :
    Sound site copy ⟨(s.replace n f).1, (s.replace n f).2.toList ++ others⟩ := by
  obtain ⟨hn, rfl⟩ := h.numbers n f List.mem_cons_self
  have hn : n ≤ s.copies := hn
  unfold Shared.replace
  rcases hw : s.cache.writeFile s.tree s.cache.indexPath (copy n).bytes with ⟨c, t, r⟩
  obtain ⟨rfl, writes⟩ := h.here.writeIndex h.houses hw
  have here : ({ s.cache with drafts := s.cache.drafts + 1 } : Cache).At site :=
    h.here.same ⟨rfl, rfl, rfl, rfl⟩
  cases writes with
  | failed touched =>
    exact h.unsettle _ (some .marking) here (touched site.indexPlace).houses rfl rfl
      (h.shows.of_touches (touched (site.payloadPlace ⟨""⟩))) nofun (.inr ⟨_, rfl, rfl⟩)
  | written touched nameable file =>
    have replaced : (s.replace n (copy n)).2 = none := by
      unfold Shared.replace
      rw [hw]
    have newer : s.shown < n := renews replaced
    have numbered := h.toNumbered.step { s with
        cache := { s.cache with drafts := s.cache.drafts + 1 }, tree := t, shown := n } none here
      touched.houses rfl hn (.inr ⟨nameable, _, file⟩) nofun
    refine ⟨numbered, ?_⟩
    rcases h.settled with hu | ⟨hc, hs | ⟨f, hm⟩⟩
    · exact .inl (hu.rest rfl rfl _)
    · -- The newest copy is in the file already, and this one would be newer.
      have hs : s.shown = s.copies := hs
      omega
    · refine .inr ⟨hc, ?_⟩
      rcases List.mem_cons.mp hm with hm | hm
      · exact .inl (Pending.replacing.inj hm).1.symm
      · exact .inr ⟨f, hm⟩

/-- Every step of a call in order keeps the calls sound. -/
theorem step (h : Sound site copy ⟨s, next :: others⟩) (renews : s.Renews next) :
    ∃ copy', Sound site copy' ⟨(s.step next).1, (s.step next).2.toList ++ others⟩ := by
  cases next with
  | starting call =>
    cases call with
    | storing p m edges micros => exact ⟨copy, h.write⟩
    | invalidating p => exact ⟨copy, h.remove⟩
    | flushing => exact ⟨copy, h.swap⟩
  | inserting e => exact ⟨copy, h.insert⟩
  | marking => exact ⟨copy, h.mark⟩
  | copying => exact ⟨_, h.copied⟩
  | replacing n f => exact ⟨copy, h.replace renews⟩

/-- Every turn in order keeps the calls sound. -/
theorem turn (h : Sound site copy w) (r : Turn)
    (renews : ∀ i next, r = .advancing i → w.pending[i]? = some next → w.shared.Renews next) :
    ∃ copy', Sound site copy' (w.turn r) := by
  cases r with
  | calling call => exact ⟨copy, (h.call call).perm (List.perm_append_singleton ..).symm⟩
  | advancing i =>
    rcases w.turn_cases i with ⟨-, hidle⟩ | ⟨before, next, after, hpending, hi, hturn⟩
    · rw [hidle]
      exact ⟨copy, h⟩
    · -- The lemma for one step is about the call in front.
      have hnext : Sound site copy ⟨w.shared, next :: (before ++ after)⟩ := by
        refine Sound.perm (l := w.pending) h ?_
        rw [hpending]
        exact List.perm_middle
      obtain ⟨copy', hstep⟩ := hnext.step (renews i next rfl hi)
      refine ⟨copy', ?_⟩
      rw [hturn, List.append_assoc]
      refine hstep.perm ?_
      rw [← List.append_assoc, ← List.append_assoc]
      exact List.perm_append_comm.append_right after

/-- Calls whose copies replace older ones only stay sound. -/
theorem after (h : Sound site copy w) {turns : List Turn} (inOrder : w.InOrder turns) :
    ∃ copy', Sound site copy' (w.after turns) := by
  induction turns generalizing w copy with
  | nil => exact ⟨copy, h⟩
  | cons r rest ih =>
    obtain ⟨copy', hr⟩ := h.turn r inOrder.1
    exact ih hr inOrder.2

theorem idle (here : c.At site) (houses : t.Houses site.directory site.home)
    (written : c.Written site.home t) : Sound site (fun _ => c.indexFile) (.idle c t) :=
  ⟨⟨here, houses, nofun, le_rfl, here.written_iff.mp written⟩, .inr ⟨rfl, .inl rfl⟩⟩

/-- When all calls have returned, the index file holds the index, or the index is marked. -/
theorem returned (h : Sound site copy ⟨s, []⟩) :
    s.cache.dirty = true ∨ s.cache.Written site.home s.tree := by
  rcases h.settled with (hd | ⟨x, hx, -⟩) | ⟨hc, hs | ⟨f, hm⟩⟩
  · exact .inl hd
  · exact nomatch hx
  · refine .inr (h.here.written_iff.mpr ?_)
    rw [← show copy s.copies = s.cache.indexFile from hc, ← show s.shown = s.copies from hs]
    exact h.shows
  · exact nomatch hm

end Sound

/-! ## Runs in order -/

theorem inOrder_append {rs rs' : List Turn} :
    w.InOrder (rs ++ rs') ↔ w.InOrder rs ∧ (w.after rs).InOrder rs' := by
  induction rs generalizing w with
  | nil => exact ⟨fun h => ⟨trivial, h⟩, And.right⟩
  | cons r rest ih =>
    show _ ∧ (w.turn r).InOrder (rest ++ rs') ↔ (_ ∧ (w.turn r).InOrder rest) ∧ _
    rw [ih, and_assoc]
    rfl

end Workers

/-- A step of a call that does not write the index. -/
def Pending.Spares : Pending → Prop
  | .starting .flushing => False
  | .copying => False
  | .replacing _ _ => False
  | _ => True

namespace Shared

variable {s : Shared} {next next' : Pending} {next? : Option Pending}

theorem Renews.of_spares (h : next.Spares) : s.Renews next := by
  cases next with
  | replacing => exact h.elim
  | _ => trivial

/-- A call that does not write the index goes on like this. -/
theorem spares_step (h : next.Spares) (hn : (s.step next).2 = some next') : next'.Spares := by
  cases next with
  | starting call =>
    cases call with
    | storing p m edges micros =>
      have hn : (s.write p m edges micros).2 = some next' := hn
      unfold write at hn
      split at hn
      · exact nomatch hn
      · dsimp only at hn
        split at hn
        · exact nomatch hn
        · obtain rfl := Option.some.inj hn
          trivial
    | invalidating p =>
      have hn : (if (s.cache.invalidate s.tree p).2.2 then some Pending.marking else none) =
        some next' := hn
      split at hn
      · obtain rfl := Option.some.inj hn
        trivial
      · exact nomatch hn
    | flushing => exact h.elim
  | inserting e =>
    obtain rfl := Option.some.inj hn
    trivial
  | marking => exact nomatch hn
  | copying => exact h.elim
  | replacing => exact h.elim

theorem spares_run (h : ∀ next, next? = some next → next.Spares) {n : Nat}
    (hn : (s.run next? n).2 = some next') : next'.Spares := by
  induction n generalizing s next? with
  | zero =>
    cases next? with
    | none => exact nomatch hn
    | some next => exact h _ hn
  | succ n ih =>
    cases next? with
    | none => exact nomatch hn
    | some next => exact ih (fun _ => spares_step (h next rfl)) hn

end Shared

namespace Workers

variable {w : Workers} {s : Shared} {next? : Option Pending} {n : Nat}

theorem inOrder_advancing (s : Shared) (before after : List Pending) (next : Pending)
    (h : s.Renews next) : InOrder ⟨s, before ++ next :: after⟩ [.advancing before.length] := by
  refine ⟨fun i x hi hx => ?_, True.intro⟩
  obtain rfl := Turn.advancing.inj hi
  have hnext : (before ++ next :: after)[before.length]? = some next := by simp
  obtain rfl := Option.some.inj (hnext.symm.trans hx)
  exact h

/-- A call that nothing comes between is in order if each of its steps is. -/
theorem inOrder_replicate (others : List Pending)
    (h : ∀ k < n, ∀ next, (s.run next? k).2 = some next → (s.run next? k).1.Renews next) :
    InOrder ⟨s, others ++ next?.toList⟩ (List.replicate n (.advancing others.length)) := by
  induction n generalizing s next? with
  | zero => trivial
  | succ n ih =>
    cases next? with
    | none =>
      have hgone : (others ++ (none : Option Pending).toList)[others.length]? = none := by simp
      refine ⟨fun i x hi hx => ?_, ?_⟩
      · obtain rfl := Turn.advancing.inj hi
        exact nomatch hgone.symm.trans hx
      · rw [turn_returned (by simp)]
        exact ih fun k hk => h k (Nat.lt_succ_of_lt hk)
    | some next =>
      refine ⟨fun i x hi hx => ?_, ?_⟩
      · obtain rfl := Turn.advancing.inj hi
        have hnext : (others ++ (some next).toList)[others.length]? = some next := by simp
        exact h 0 n.succ_pos x (hnext.symm.trans hx)
      · rw [Option.toList_some, turn_advancing, List.append_nil]
        exact ih fun k hk => h (k + 1) (Nat.succ_lt_succ hk)

theorem inOrder_alone {call : Call}
    (h : ∀ k < n, ∀ next, (w.shared.run (some (.starting call)) k).2 = some next →
      (w.shared.run (some (.starting call)) k).1.Renews next) : w.InOrder (w.alone call n) :=
  ⟨nofun, inOrder_replicate w.pending h⟩

/-- A call that does not write the index. -/
theorem inOrder_sparing {call : Call} (h : (Pending.starting call).Spares) :
    w.InOrder (w.alone call n) := by
  have start : ∀ next, some (Pending.starting call) = some next → next.Spares := by
    rintro next ⟨⟩
    exact h
  exact inOrder_alone fun k _ next hn => .of_spares (Shared.spares_run start hn)

/-- A call that copies the index and does not replace the file yet. -/
theorem inOrder_copying (dirty : w.shared.cache.dirty = true) : w.InOrder (w.alone .flushing 2) := by
  refine inOrder_alone fun k hk next hn => ?_
  match k with
  | 0 =>
    obtain rfl := Option.some.inj hn
    trivial
  | 1 =>
    have hswap : w.shared.step (.starting .flushing) = (_, some .copying) := if_pos dirty
    rw [Shared.run_step hswap 0] at hn
    obtain rfl := Option.some.inj hn
    trivial

/-! ## A copy that overtakes -/

/-- The turns in which the empty record of the file is stored before any other call does a step. -/
def stores (w : Workers) : List Turn := w.alone (.storing ⟨"/f"⟩ Cache.bareModule [] 0) 3

/-- A cache beside the file. -/
def beside : Workers := idle (.first .hashed "A") .housed

/-- The record of the file is stored and removed, and a call copies the index. -/
def copying : List Turn :=
  beside.stores ++ beside.alone (.invalidating ⟨"/f"⟩) 2 ++ beside.alone .flushing 2

/-- Then the record is stored again. -/
def overlapping : List Turn := copying ++ (beside.after copying).stores

/-- The record of the file is stored. -/
theorem store_beside {c : Cache} {t : Tree} {n : Nat} (h : c.Beside n t) (small : n < 10) :
    ∃ c' t' stamp record, c.store t ⟨"/f"⟩ Cache.bareModule [] 0 = (c', t', .ok stamp) ∧
      c'.Beside (n + 1) t' ∧ c'.dirty = true ∧ c'.index = c.index.insert ⟨"/f"⟩ record := by
  obtain ⟨stamp, hstamp, hpath, -⟩ := h.stamped (Tree.key_of_beside h.file)
  obtain ⟨t', hs, h'⟩ := h.store small hstamp Cache.bareModule
  have hentry : (c.entryFor t stamp Cache.bareModule [] 0).stamp.path = ⟨"/f"⟩ := hpath
  refine ⟨_, t', _, Cache.recordOf (c.entryFor t stamp Cache.bareModule [] 0), hs, h', rfl, ?_⟩
  show c.index.insert (c.entryFor t stamp Cache.bareModule [] 0).stamp.path _ = _
  rw [hentry]
  rfl

theorem after_copying :
    ∃ c t f, beside.after copying = ⟨{ cache := c, tree := t, copies := 1 }, [.replacing 1 f]⟩ ∧
      c.Beside 1 t ∧ c.index = .empty ∧ f.records = [] ∧ beside.InOrder copying := by
  have h₀ : (Cache.first .hashed "A").Beside 0 .housed := .housed ⟨rfl, rfl, rfl⟩ rfl
  obtain ⟨c₁, t₁, stamp, record, hs, h₁, dirty₁, index₁⟩ := store_beside h₀ (by decide)
  have h₂ := h₁.invalidate ⟨"/f"⟩
  have index₂ : (c₁.invalidate t₁ ⟨"/f"⟩).1.index = c₁.index.erase (t₁.key ⟨"/f"⟩) := rfl
  rcases hi : c₁.invalidate t₁ ⟨"/f"⟩ with ⟨c₂, t₂, removed⟩
  rw [hi] at h₂ index₂
  have dirty₂ : c₂.dirty = true := by
    have hdirty : (c₁.invalidate t₁ ⟨"/f"⟩).1.dirty = (c₁.dirty || _) := rfl
    rw [hi, dirty₁, Bool.true_or] at hdirty
    exact hdirty
  have hempty : c₂.index = .empty := by
    rw [index₂, index₁, Tree.key_of_beside h₁.file]
    exact PathMap.erase_insert_empty _ _
  have hrecords : c₂.indexFile.records = [] := by
    show c₂.index.values = []
    rw [hempty]
    rfl
  let s₁ : Shared := { cache := c₁, tree := t₁ }
  let s₂ : Shared := { cache := c₂, tree := t₂ }
  have run₁ : beside.after beside.stores = ⟨s₁, []⟩ := after_storing [] hs
  have run₂ : (Workers.mk s₁ []).after (beside.alone (.invalidating ⟨"/f"⟩) 2) = ⟨s₂, []⟩ :=
    after_invalidating [] hi
  have run₃ : (Workers.mk s₂ []).after (beside.alone .flushing 2) =
      ⟨s₂.copied, [.replacing 1 c₂.indexFile]⟩ := by
    have hcopying : s₂.run (some (.starting .flushing)) 2 =
      (s₂.copied, some (.replacing 1 c₂.indexFile)) := Shared.run_copying dirty₂ 0
    have halone := (Workers.mk s₂ []).after_alone .flushing 2
    rw [hcopying] at halone
    exact halone
  refine ⟨{ c₂ with dirty := false }, t₂, _, ?_, h₂.clean, hempty, hrecords, ?_⟩
  · rw [copying, after_append, after_append, run₁, run₂, run₃]
    rfl
  · rw [copying, inOrder_append, inOrder_append, after_append, run₁, run₂]
    exact ⟨⟨inOrder_sparing True.intro, inOrder_sparing True.intro⟩, inOrder_copying dirty₂⟩

theorem after_overlapping :
    ∃ c t f, beside.after overlapping = ⟨{ cache := c, tree := t, copies := 1 }, [.replacing 1 f]⟩ ∧
      c.Beside 2 t ∧ c.dirty = true ∧ c.index.values.length = 1 ∧ f.records = [] ∧
      beside.InOrder overlapping := by
  obtain ⟨c, t, f, hrun, h, hempty, hrecords, inOrder⟩ := after_copying
  obtain ⟨c', t', stamp, record, hs, h', dirty, hindex⟩ := store_beside h (by decide)
  refine ⟨c', t', f, ?_, h', dirty, ?_, hrecords, ?_⟩
  · rw [overlapping, after_append, hrun]
    exact after_storing [.replacing 1 f] hs
  · rw [hindex, hempty]
    rfl
  · rw [overlapping, inOrder_append]
    exact ⟨inOrder, inOrder_sparing True.intro⟩

/-- No change of the index is lost unless a copy of it replaces a newer one in the index file. Any
number of calls begin, and their steps come in any order. Once all of them have returned and the
index was written with success, the index file holds the index. -/
theorem flushed_index (site : Site) (c c' : Cache) (t t' : Tree) (turns : List Turn) (s : Shared)
    (here : c.At site) (houses : t.Houses site.directory site.home)
    (written : Cache.Written site.home c t) (inOrder : (idle c t).InOrder turns)
    (returned : (idle c t).after turns = ⟨s, []⟩)
    (flushed : s.cache.flush s.tree = (c', t', .ok ())) :
    c'.index = s.cache.index ∧ c'.dirty = false ∧ Cache.Written site.home c' t' := by
  obtain ⟨copy, sound⟩ := (Sound.idle here houses written).after inOrder
  rw [returned] at sound
  have flushed' := sound.here.flush sound.houses flushed
  cases flushed' with
  | clean hd =>
    -- Nothing is written now, so the newest copy has to be in the file already.
    rcases sound.returned with hm | hw
    · exact nomatch hd.symm.trans hm
    · exact ⟨rfl, hd, hw⟩
  | written _ nameable file =>
    have here' : ({ s.cache with drafts := s.cache.drafts + 1, dirty := false } : Cache).At site :=
      sound.here.same ⟨rfl, rfl, rfl, rfl⟩
    exact ⟨rfl, rfl, here'.written_iff.mpr (.inr ⟨nameable, _, file⟩)⟩

/-- The call that has copied the index replaces the file in order. The record that was stored since
then is still marked, and is written in the end. -/
theorem flushed_index_overlapping :
    ∃ s c' t', (Cache.first .hashed "A").At .hashed ∧
      Tree.housed.Houses Site.hashed.directory Site.hashed.home ∧
      Cache.Written Site.hashed.home (Cache.first .hashed "A") .housed ∧
      beside.InOrder (overlapping ++ [.advancing 0]) ∧
      beside.after (overlapping ++ [.advancing 0]) = ⟨s, []⟩ ∧
      s.cache.flush s.tree = (c', t', .ok ()) ∧ s.cache.index.values.length = 1 ∧
      c'.index = s.cache.index ∧ c'.dirty = false ∧ Cache.Written Site.hashed.home c' t' := by
  obtain ⟨c, t, f, hrun, h, dirty, hlength, -, inOrder⟩ := after_overlapping
  obtain ⟨t', changed, hw, h', -⟩ := h.writeIndex (by decide) f.bytes
  obtain ⟨t'', changed', hw', -⟩ := h'.writeIndex (by decide) c.indexFile.bytes
  let s : Shared := { cache := c, tree := t, copies := 1 }
  let c' : Cache := { c with drafts := c.drafts + 1 }
  let s' : Shared := { s with cache := c', tree := t', shown := 1 }
  have hreplaced : s.step (.replacing 1 f) = (s', none) := Shared.step_replaced hw
  have returned : beside.after (overlapping ++ [.advancing 0]) = ⟨s', []⟩ := by
    rw [after_append, hrun]
    exact after_returning hreplaced
  have ordered : beside.InOrder (overlapping ++ [.advancing 0]) := by
    have hlast : InOrder ⟨s, [.replacing 1 f]⟩ [.advancing 0] :=
      inOrder_advancing s [] [] (.replacing 1 f) fun _ => Nat.one_pos
    rw [inOrder_append, hrun]
    exact ⟨inOrder, hlast⟩
  have dirty' : c'.dirty = true := dirty
  have flushed := Shared.flush_written dirty' hw'
  have here : (Cache.first .hashed "A").At .hashed := ⟨rfl, rfl, rfl⟩
  have written : Cache.Written Site.hashed.home (Cache.first .hashed "A") .housed := .inl ⟨rfl, rfl⟩
  exact ⟨s', _, t'', here, Tree.houses_housed, written, ordered, returned, flushed, hlength,
    flushed_index _ _ _ _ _ _ s' here Tree.houses_housed written ordered returned flushed⟩

/-- The record is stored again after a call has copied the index, and another call writes the index
before the first one replaces the file. -/
def overtaken : List Turn :=
  overlapping ++ (beside.after overlapping).alone .flushing 4 ++ [.advancing 0]

/-- The first call then replaces the file by its copy, which has no record. The index is not marked,
so writing it again leaves the file as it is. -/
theorem overtaken_index :
    ∃ s c' t', (Cache.first .hashed "A").At .hashed ∧
      Tree.housed.Houses Site.hashed.directory Site.hashed.home ∧
      Cache.Written Site.hashed.home (Cache.first .hashed "A") .housed ∧
      beside.after overtaken = ⟨s, []⟩ ∧ s.cache.flush s.tree = (c', t', .ok ()) ∧
      ¬ Cache.Written Site.hashed.home c' t' := by
  obtain ⟨c, t, f, hrun, h, dirty, hlength, hrecords, -⟩ := after_overlapping
  obtain ⟨t₁, changed₁, hw₁, h₁, -⟩ := h.writeIndex (by decide) c.indexFile.bytes
  let c₁ : Cache := { c with drafts := c.drafts + 1, dirty := false }
  have h₁ : c₁.Beside 3 t₁ := h₁.clean
  have flushed₁ : c.flush t = (c₁, t₁, .ok ()) := Shared.flush_written dirty hw₁
  obtain ⟨t₂, changed₂, hw₂, h₂, hfile⟩ := h₁.writeIndex (by decide) f.bytes
  obtain ⟨copies, shown, hrun₁⟩ :=
    after_flushing (s := { cache := c, tree := t, copies := 1 }) [.replacing 1 f] flushed₁
  let s₁ : Shared := { cache := c₁, tree := t₁, copies, shown }
  let c₂ : Cache := { c₁ with drafts := c₁.drafts + 1 }
  have hreplaced : s₁.step (.replacing 1 f) = ({ s₁ with cache := c₂, tree := t₂, shown := 1 }, none) :=
    Shared.step_replaced hw₂
  have returned : beside.after overtaken = ⟨{ s₁ with cache := c₂, tree := t₂, shown := 1 }, []⟩ := by
    rw [overtaken, after_append, after_append, hrun, hrun₁]
    exact after_returning hreplaced
  refine ⟨_, c₂, t₂, ⟨rfl, rfl, rfl⟩, Tree.houses_housed, .inl ⟨rfl, rfl⟩, returned, if_pos rfl,
    fun written => ?_⟩
  -- The file holds the copy without a record, the index has one.
  have older : c₂.indexFile.records.length = 1 := hlength
  rcases h₂.here.written_iff.mp written with ⟨hnone, -⟩ | ⟨-, changed, hsame⟩
  · rw [hnone] at older
    exact nomatch older
  · have hbytes := (Node.file.inj (Option.some.inj (hfile.symm.trans hsame))).1
    have hlengths := IndexFile.length_of_bytes hbytes
    rw [hrecords, older] at hlengths
    exact nomatch hlengths

end Workers
end SourceSurvey
