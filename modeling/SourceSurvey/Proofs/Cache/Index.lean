import SourceSurvey.Proofs.Cache.Sized
import SourceSurvey.Proofs.Cache.Stored

/-!
# The index of a cache and its files

A cache is backed by its files (`Cache.Backed`) if every record of its index has a payload file that
answers for it, and if the index file says what the index says whenever nothing was stored since it
was last written. Storing, writing the index, looking up and clearing the memory keep a cache
backed.

* `Cache.Backed.load`: looking up a file that has a record serves an entry and removes nothing.
* `Cache.Backed.store`: storing a result changes the record of its file only.
* `Cache.Backed.reopen`: a cache that is opened where another one has written its index knows what
  that one knew.
-/

namespace SourceSurvey

open SourceSurvey.Tree (Houses Rewrites)
open SourceSurvey.Tree.Houses (Area)

/-! ## Reading and opening at a home -/

namespace Tree

variable {t t' : Tree} {p : Path} {dir b : Path} {home d : Place} {name : String}

theorem nameable_of_resolve {follow : Bool} {target : Target} (h : t.resolve follow p = .ok target) :
    p.Nameable :=
  ⟨(resolve_ok h).1, walk_pieces (resolve_ok h).2.2⟩

/-- The text of a file of a cache of which the system takes the path. -/
theorem Houses.readText (h : t.Houses dir home)
    (made : t.find? (home ++ ["entries"]) = some .directory) (hb : Area dir home b d)
    (hn : Path.IsName name) (hne : d ++ [name] ≠ home ++ ["entries"])
    (hp : (b.join ⟨name⟩).Nameable) {bytes : List UInt8} {changed : Instant}
    (hf : t.find? (d ++ [name]) = some (.file bytes changed)) :
    (t.readText (b.join ⟨name⟩)).toOption = Text.decode? bytes := by
  have hl : t.locate (b.join ⟨name⟩) = .ok (d ++ [name], .file bytes changed) := by
    refine locate_of_resolve ?_
    rw [h.resolve_nameable made hb hn hne hp, standing_some hf]
  unfold Tree.readText Tree.read
  rw [hl]
  dsimp only [bind, Except.bind]
  cases Text.decode? bytes with
  | none => rfl
  | some text => rfl

/-- Making the directory of the payloads where it is changes nothing. -/
theorem Houses.createDirectories_of_made (h : t.Houses dir home)
    (made : t.find? (home ++ ["entries"]) = some .directory) :
    (t.createDirectories (dir.join ⟨"entries"⟩)).1 = t := by
  have hp : (dir.join ⟨"entries"⟩).text ≠ "" := Discovery.text_join_ne_empty dir isName_entries
  have hres := h.resolve_top isName_entries h.not_link_entries false
  rw [standing_some made] at hres
  rcases t.createDirectories_cases hp with ⟨t₁, hd, -⟩ | ⟨e, hd, hc⟩
  · unfold createDirectory at hd
    obtain ⟨target, hr, hd⟩ := bind_ok hd
    obtain rfl := eq_of_resolve (hres.imp_left fun ⟨e, _, he⟩ => ⟨e, he⟩) hr
    exact nomatch hd
  · refine hc ?_
    unfold createDirectory at hd
    rcases hres with ⟨e', hk, he⟩ | ho
    · rw [he] at hd
      obtain rfl := Except.error.inj hd
      exact hk
    · rw [ho] at hd
      obtain rfl := Except.error.inj hd
      decide

/-- The directory of the payloads is found if the system takes its path. -/
theorem Houses.resolve_entries (h : t.Houses dir home) (hp : (dir.join ⟨"entries"⟩).Nameable)
    (follow : Bool) :
    t.resolve follow (dir.join ⟨"entries"⟩) = .ok (t.standing home "entries") := by
  obtain ⟨links, hr⟩ := resolve_below h.locate ["entries"] (by simpa using isName_entries) nofun
    hp.within
  refine (hr follow).trans ?_
  rw [walk_short isName_entries (by decide) h.not_link_entries]
  rfl

/-- Making the directory of the payloads where it is succeeds if the system takes its path. -/
theorem Houses.createDirectories_ok (h : t.Houses dir home)
    (made : t.find? (home ++ ["entries"]) = some .directory)
    (hp : (dir.join ⟨"entries"⟩).Nameable) :
    t.createDirectories (dir.join ⟨"entries"⟩) = (t, .ok ()) := by
  have hne : (dir.join ⟨"entries"⟩).text ≠ "" := Discovery.text_join_ne_empty dir isName_entries
  have hres (follow : Bool) : t.resolve follow (dir.join ⟨"entries"⟩) =
      .ok (.found (home ++ ["entries"]) .directory) := by
    rw [h.resolve_entries hp, standing_some made]
  have hcreate : t.createDirectory (dir.join ⟨"entries"⟩) = .error (.system .alreadyExists) := by
    unfold createDirectory
    rw [hres]
    rfl
  have hthere : t.isDirectory (dir.join ⟨"entries"⟩) = true := by
    unfold isDirectory
    rw [locate_of_resolve (hres true)]
  unfold Tree.createDirectories Tree.createUpTo
  rw [if_neg hne, hcreate]
  dsimp only
  rw [if_neg (by decide), if_pos hthere]

/-- Making the directory of the payloads where it is missing succeeds if the system takes its
path. -/
theorem Houses.createDirectories_missing (h : t.Houses dir home)
    (missing : t.find? (home ++ ["entries"]) = none) (hp : (dir.join ⟨"entries"⟩).Nameable) :
    t.createDirectories (dir.join ⟨"entries"⟩) =
      (t.put (home ++ ["entries"]) .directory, .ok ()) := by
  have hne : (dir.join ⟨"entries"⟩).text ≠ "" := Discovery.text_join_ne_empty dir isName_entries
  have hcreate : t.createDirectory (dir.join ⟨"entries"⟩) =
      .ok (t.put (home ++ ["entries"]) .directory) := by
    unfold createDirectory
    rw [h.resolve_entries hp, standing_none missing]
    rfl
  unfold Tree.createDirectories Tree.createUpTo
  rw [if_neg hne, hcreate]

end Tree

namespace Cache

variable {home d : Place} {dir b : Path} {K : Path → Prop} {c c' : Cache} {t t' : Tree} {p k : Path}
  {stem : String}

/-- The system takes the path of a file that a cache has written. -/
theorem nameable_of_writeFile {bytes : List UInt8}
    (hw : c.writeFile t (b.join ⟨fileName stem⟩) bytes = (c', t', .ok ())) :
    (b.join ⟨fileName stem⟩).Nameable := by
  unfold writeFile at hw
  dsimp only at hw
  split at hw
  · exact nomatch (Prod.mk.inj (Prod.mk.inj hw).2).2
  · split at hw
    · exact nomatch (Prod.mk.inj (Prod.mk.inj hw).2).2
    · rename_i t₁ _ _ t₂ hm
      obtain ⟨_, _, _, -, -, hg, -⟩ := Tree.rename_inv hm
      exact Tree.nameable_of_resolve hg

/-! ## Indexes in order -/

/-- An index in order: its records stand at the paths of their stamps, which are keys, and fit the
machine. -/
structure Orderly (K : Path → Prop) (m : PathMap IndexRecord) : Prop where
  sorted : m.Sorted
  keys : ∀ k ∈ m.keys, K k
  path : ∀ k r, K k → m.get? k = some r → r.stamp.path = k
  sized : ∀ k r, K k → m.get? k = some r → r.Sized

/-- The record of an entry in the index. -/
def recordOf (e : CacheEntry) : IndexRecord :=
  { stamp := e.stamp, storedAt := e.metadata.storedAt, settingsDigest := e.metadata.settingsDigest }

namespace Orderly

variable {m : PathMap IndexRecord} {r : IndexRecord} {version : Nat}

theorem empty : Orderly K .empty :=
  ⟨PathMap.sorted_empty, nofun, fun _ _ _ => nofun, fun _ _ _ => nofun⟩

theorem insert (h : Orderly K m) (told : ∀ k', K k' → k'.same k = true → k' = k) (key : K k)
    (path : r.stamp.path = k) (sized : r.Sized) : Orderly K (m.insert k r) := by
  have records {k' : Path} {r' : IndexRecord} (hk : K k') (hi : (m.insert k r).get? k' = some r') :
      k' = k ∧ r' = r ∨ m.get? k' = some r' := by
    rw [PathMap.get?_insert] at hi
    split at hi
    · rename_i same
      exact .inl ⟨told k' hk same, (Option.some.inj hi).symm⟩
    · exact .inr hi
  refine ⟨h.sorted.insert k r, fun k' hk => ?_, fun k' r' hk hi => ?_, fun k' r' hk hi => ?_⟩
  · rcases PathMap.mem_keys_insert hk with rfl | hk
    · exact key
    · exact h.keys k' hk
  · rcases records hk hi with ⟨rfl, rfl⟩ | hi
    · exact path
    · exact h.path k' r' hk hi
  · rcases records hk hi with ⟨rfl, rfl⟩ | hi
    · exact sized
    · exact h.sized k' r' hk hi

theorem erase (h : Orderly K m) (k : Path) : Orderly K (m.erase k) := by
  have records {k' : Path} {r' : IndexRecord} (hi : (m.erase k).get? k' = some r') :
      m.get? k' = some r' := by
    rw [PathMap.get?_erase] at hi
    split at hi
    · exact nomatch hi
    · exact hi
  exact ⟨h.sorted.erase k, fun k' hk => h.keys k' (PathMap.mem_keys_erase hk),
    fun k' r' hk hi => h.path k' r' hk (records hi), fun k' r' hk hi => h.sized k' r' hk (records hi)⟩

theorem of_mem (h : Orderly K m) {x : Path × IndexRecord} (hx : x ∈ m.entries) :
    x.2.stamp.path = x.1 ∧ x.2.Sized := by
  have key := h.keys _ (List.mem_map_of_mem hx)
  have hi := h.sorted.get?_of_mem hx
  exact ⟨h.path x.1 x.2 key hi, h.sized x.1 x.2 key hi⟩

/-- An index in order is that of its records. -/
theorem ofList_values (h : Orderly K m) :
    PathMap.ofList (m.values.map fun r => (r.stamp.path, r)) = m := by
  refine (h.sorted.eq_ofList (.of_eq ?_)).symm
  show m.entries = (m.entries.map Prod.snd).map fun r => (r.stamp.path, r)
  have hentries : ∀ x ∈ m.entries,
      ((fun r : IndexRecord => (r.stamp.path, r)) ∘ Prod.snd) x = id x :=
    fun x hx => Prod.ext (h.of_mem hx).1 rfl
  rw [List.map_map, List.map_congr_left hentries, List.map_id]

/-- An index in order is read back from its file. -/
theorem readIndex (h : Orderly K m) (hv : version < 2 ^ 32)
    (htext : (t.readText p).toOption =
      Text.decode? ({ version, records := m.values } : IndexFile).bytes) :
    Cache.readIndex version t p = m := by
  have hrecords : ∀ r ∈ m.values, r.Sized := by
    intro r hr
    obtain ⟨x, hx, rfl⟩ := List.mem_map.mp hr
    exact (h.of_mem hx).2
  have hread := IndexFile.read_sized (f := { version, records := m.values }) hv hrecords
  unfold Cache.readIndex
  rw [htext, hread]
  dsimp only
  rw [if_pos rfl, h.ofList_values]

end Orderly

/-! ## Caches that are backed by their files -/

/-- The index file of a cache, as it is written. -/
def indexFile (c : Cache) : IndexFile := { version := c.formatVersion, records := c.index.values }

/-- The payload file of a key answers for a record: it holds an entry for the same content that is
read back. -/
structure Answers (home : Place) (c : Cache) (t : Tree) (k : Path) (r : IndexRecord) : Prop where
  nameable : ((c.directory.join ⟨"entries"⟩).join ⟨fileName (stemOf c.fingerprint k)⟩).Nameable
  file : ∃ (e : CacheEntry) (changed : Instant),
    t.find? (payloadPlace c.fingerprint home k) = some (.file e.bytes changed) ∧ e.Sized ∧
      e.metadata.formatVersion = c.formatVersion ∧ e.stamp.digest = r.stamp.digest

/-- The index file says what the index says; it is missing if the index is empty. -/
def Written (home : Place) (c : Cache) (t : Tree) : Prop :=
  c.index = .empty ∧ t.find? (home ++ [fileName "index"]) = none ∨
    c.indexPath.Nameable ∧
      ∃ changed, t.find? (home ++ [fileName "index"]) = some (.file c.indexFile.bytes changed)

/-- A cache at its home whose records are backed by the files there. -/
structure Backed (K : Path → Prop) (home : Place) (c : Cache) (t : Tree) : Prop where
  houses : t.Houses c.directory home
  made : t.find? (home ++ ["entries"]) = some .directory
  sorted : c.index.Sorted
  keys : ∀ k ∈ c.index.keys, K k
  path : ∀ k r, K k → c.index.get? k = some r → r.stamp.path = k
  sized : ∀ k r, K k → c.index.get? k = some r → r.Sized
  answers : ∀ k r, K k → c.index.get? k = some r → Answers home c t k r
  written : c.dirty = false → Written home c t

/-- Caches that differ in their counters and in what they hold in memory only. -/
structure SameRecords (c c' : Cache) : Prop extends SameSetup c c' where
  index : c'.index = c.index
  dirty : c'.dirty = c.dirty
  drafts : c'.drafts = c.drafts

theorem SameRecords.refl (c : Cache) : SameRecords c c := ⟨.refl c, rfl, rfl, rfl⟩

theorem SameRecords.trans {c'' : Cache} (h : SameRecords c c') (h' : SameRecords c' c'') :
    SameRecords c c'' where
  toSameSetup := h.toSameSetup.trans h'.toSameSetup
  index := h'.index.trans h.index
  dirty := h'.dirty.trans h.dirty
  drafts := h'.drafts.trans h.drafts

theorem SameRecords.clearMemory (c : Cache) : SameRecords c c.clearMemory :=
  ⟨⟨rfl, rfl, rfl, rfl⟩, rfl, rfl, rfl⟩

/-- A payload file that answers for the record of a file is read. -/
theorem Answers.readPayload? {r : IndexRecord} (h : Answers home c t (t.key p) r)
    (houses : t.Houses c.directory home) (made : t.find? (home ++ ["entries"]) = some .directory)
    (hfp : PlainNames c.fingerprint) : ∃ e, c.readPayload? t p r = some e := by
  obtain ⟨e, changed, hf, hsized, hversion, hdigest⟩ := h.file
  have htext : (t.readText (c.payloadPath t p)).toOption = Text.decode? e.bytes := by
    rw [payloadPath_eq]
    exact houses.readText made .entries (isName_fileName (hfp (t.key p).text.toUTF8.toList).2)
      (payloadPlace_ne_entries _) h.nameable hf
  have hread := CacheEntry.read_sized hsized
  rw [← htext] at hread
  obtain ⟨text, ht, hread⟩ := Option.bind_eq_some_iff.mp hread
  refine ⟨e, ?_⟩
  unfold Cache.readPayload?
  simp only [ht, hread, Option.bind_eq_bind, Option.bind_some, hversion, hdigest, decide_true,
    Bool.and_self, if_true]

namespace Backed

theorem orderly (h : Backed K home c t) : Orderly K c.index := ⟨h.sorted, h.keys, h.path, h.sized⟩

/-- Caches with the same index at the same home are backed alike. -/
theorem congr (h : Backed K home c t) (directory : c'.directory = c.directory)
    (fingerprint : c'.fingerprint = c.fingerprint) (version : c'.formatVersion = c.formatVersion)
    (index : c'.index = c.index) (dirty : c'.dirty = c.dirty) : Backed K home c' t := by
  obtain ⟨houses, made, sorted, keys, path, sized, answers, written⟩ := h
  refine ⟨by rwa [directory], made, by rwa [index], by rwa [index], by rwa [index],
    by rwa [index], fun k r hk hi => ?_, fun hd => ?_⟩
  · rw [index] at hi
    obtain ⟨nameable, file⟩ := answers k r hk hi
    exact ⟨by rwa [directory, fingerprint], by rwa [fingerprint, version]⟩
  · have hw := written (dirty ▸ hd)
    unfold Written indexPath indexFile at hw ⊢
    rwa [index, directory, version]

theorem same (h : Backed K home c t) (hs : SameRecords c c') : Backed K home c' t :=
  h.congr hs.directory hs.fingerprint hs.formatVersion hs.index hs.dirty

/-- A cache is backed as long as nothing changes below its home. -/
theorem spared (h : Backed K home c t) (houses : t'.Houses c.directory home)
    (same : ∀ q, Below home q → t'.find? q = t.find? q) : Backed K home c t' := by
  have hbelow (name : String) : Below home (home ++ [name]) := below_append nofun
  refine ⟨houses, (same _ (hbelow _)).trans h.made, h.sorted, h.keys, h.path, h.sized,
    fun k r hk hi => ?_, fun hd => ?_⟩
  · obtain ⟨nameable, file⟩ := h.answers k r hk hi
    refine ⟨nameable, ?_⟩
    rwa [same _ (below_payloadPlace k)]
  · have hw := h.written hd
    unfold Written at hw ⊢
    rwa [same _ (hbelow _)]

/-! ### Looking up -/

/-- Looking up a file that has a record serves an entry and removes nothing. -/
theorem load (h : Backed K home c t) (hfp : PlainNames c.fingerprint) (hk : K (t.key p))
    {r : IndexRecord} (hi : c.index.get? (t.key p) = some r) :
    ∃ c' e, c.load t p = (c', t, some e) ∧ SameRecords c c' := by
  unfold Cache.load
  dsimp only
  rw [hi]
  dsimp only
  cases c.recent.find? fun e => (t.key p).same e.1 with
  | some x => exact ⟨_, x.2, rfl, ⟨rfl, rfl, rfl, rfl⟩, rfl, rfl, rfl⟩
  | none =>
    obtain ⟨e, he⟩ := (h.answers _ r hk hi).readPayload? h.houses h.made hfp
    dsimp only
    rw [he]
    exact ⟨_, e, rfl, ⟨rfl, rfl, rfl, rfl⟩, rfl, rfl, rfl⟩

/-- Looking up files that have records serves an entry for each of them and changes no record. -/
theorem collect_load (h : Backed K home c t) (hfp : PlainNames c.fingerprint) {paths : List Path}
    (known : ∀ p ∈ paths, K (t.key p) ∧ ∃ r, c.index.get? (t.key p) = some r)
    (found : PathMap CacheEntry) :
    ∃ c' loaded, Cache.collect Cache.load c t found paths = (c', t, loaded) ∧ SameRecords c c' ∧
      ∀ q, (found.contains q = true ∨ q ∈ paths) → loaded.contains q = true := by
  induction paths generalizing c found with
  | nil => exact ⟨c, found, rfl, .refl c, fun q hq => hq.resolve_right nofun⟩
  | cons p rest ih =>
    obtain ⟨⟨hk, r, hi⟩, known⟩ := List.forall_mem_cons.mp known
    obtain ⟨c₁, e, hload, same⟩ := h.load hfp hk hi
    have known₁ : ∀ p ∈ rest, K (t.key p) ∧ ∃ r, c₁.index.get? (t.key p) = some r := by
      rw [same.index]
      exact known
    obtain ⟨c', loaded, hl, same', all⟩ :=
      ih (h.same same) (by rwa [same.fingerprint]) known₁ (found.insert p e)
    refine ⟨c', loaded, ?_, same.trans same', fun q hq => all q ?_⟩
    · unfold Cache.collect
      rw [hload]
      exact hl
    · rcases hq with hq | hq
      · exact .inl (PathMap.contains_insert.mpr (.inr hq))
      · rcases List.mem_cons.mp hq with rfl | hq
        · exact .inl (PathMap.contains_insert.mpr (.inl (Path.same_refl q)))
        · exact .inr hq

/-! ### Storing -/

/-- Storing a result of a file puts a record for it into the index, which its payload file backs. -/
theorem store (h : Backed K home c t) (hfp : PlainNames c.fingerprint)
    (hK : Unambiguous c.fingerprint K) (hk : K (t.key p)) {m : Module} {edges : List Edge}
    {micros : Nat} {stamp' : FileStamp}
    (sized : ∀ stamp, c.stamp? t p = some stamp → (c.entryFor t stamp m edges micros).Sized)
    (hs : c.store t p m edges micros = (c', t', .ok stamp')) :
    Backed K home c' t' ∧ Rewrites home t t' ∧ SameSetup c c' ∧
      ∃ stamp, c.stamp? t p = some stamp ∧
        c'.index = c.index.insert (t.key p) (recordOf (c.entryFor t stamp m edges micros)) := by
  obtain ⟨hstem, hslash⟩ := hfp (t.key p).text.toUTF8.toList
  rcases c.store_cases t p m edges micros with
    ⟨e, hs'⟩ | ⟨stamp, t₁, hstamp, ⟨e, -, hs'⟩ | ⟨hw, hs'⟩⟩
  · exact nomatch (Prod.mk.inj (Prod.mk.inj (hs'.symm.trans hs)).2).2
  · exact nomatch (Prod.mk.inj (Prod.mk.inj (hs'.symm.trans hs)).2).2
  · obtain ⟨rfl, rfl, -⟩ := triple_inj hs' hs
    have hpath : (c.entryFor t stamp m edges micros).stamp.path = t.key p := (stamp?_some hstamp).1
    have hindex : (({ c with drafts := c.drafts + 1 } : Cache).hold
        (c.entryFor t stamp m edges micros)).index =
        c.index.insert (t.key p) (recordOf (c.entryFor t stamp m edges micros)) := by
      rw [← hpath]
      rfl
    rw [c.payloadPath_eq t p] at hw
    have hnameable := nameable_of_writeFile hw
    obtain ⟨t₂, r₂, hw₂, houses, rewrites, frame, post⟩ := writeFile_spec c h.houses .entries
      hstem hslash (c.entryFor t stamp m edges micros).bytes
    obtain ⟨-, rfl, rfl⟩ := triple_inj hw₂ hw
    obtain ⟨changed, post⟩ := post
    have hsized := sized stamp hstamp
    have ordered := h.orderly.insert (fun k hkk hsame => hK k _ hkk hk (.inl hsame)) hk
      (r := recordOf (c.entryFor t stamp m edges micros)) hpath
      ⟨hsized.stamp, hsized.metadata.storedAt⟩
    rw [← hindex] at ordered
    refine ⟨⟨houses, rewrites.entries.trans h.made, ordered.sorted, ordered.keys, ordered.path,
      ordered.sized, fun k r hkk hi => ?_, nofun⟩, rewrites, ⟨rfl, rfl, rfl, rfl⟩, stamp, hstamp,
      hindex⟩
    rw [hindex, PathMap.get?_insert] at hi
    split at hi
    · rename_i hsame
      obtain rfl := hK _ _ hkk hk (.inl hsame)
      obtain rfl := Option.some.inj hi
      exact ⟨hnameable, _, changed, post, hsized, rfl, rfl⟩
    · rename_i hother
      obtain ⟨nameable, file⟩ := h.answers k r hkk hi
      have hplace : payloadPlace c.fingerprint home k ≠ payloadPlace c.fingerprint home (t.key p) := by
        intro he
        rw [hK _ _ hkk hk (.inr (payloadPlace_inj he))] at hother
        exact hother (Path.same_refl _)
      refine ⟨nameable, ?_⟩
      rwa [← frame _ hplace (payloadPlace_ne_draft _ _ _)] at file

/-- Writing the index leaves it as it is. -/
theorem flush (h : Backed K home c t) (hf : c.flush t = (c', t', .ok ())) :
    Backed K home c' t' ∧ Rewrites home t t' ∧ SameSetup c c' ∧ c'.index = c.index ∧
      c'.dirty = false := by
  rcases c.flush_cases t with ⟨clean, hf'⟩ | ⟨t₁, e | u, -, hw, hf'⟩
  · obtain ⟨rfl, rfl, -⟩ := triple_inj hf' hf
    exact ⟨h, .refl t, .refl c, rfl, clean⟩
  · exact nomatch (triple_inj hf' hf).2.2
  · obtain ⟨rfl, rfl, -⟩ := triple_inj hf' hf
    have hstem : "index" ≠ "" := by decide
    have hslash : '/' ∉ "index".toList := by decide
    obtain ⟨t₂, r₂, hw', houses, rewrites, frame, post⟩ := writeFile_spec c h.houses .top hstem
      hslash c.indexFile.bytes
    obtain ⟨-, rfl, rfl⟩ := triple_inj hw' hw
    refine ⟨⟨houses, rewrites.entries.trans h.made, h.sorted, h.keys, h.path, h.sized, ?_, ?_⟩,
      rewrites, ⟨rfl, rfl, rfl, rfl⟩, rfl, rfl⟩
    · intro k r hk hi
      obtain ⟨nameable, file⟩ := h.answers k r hk hi
      refine ⟨nameable, ?_⟩
      rwa [frame _ (payloadPlace_ne_top _ _) (payloadPlace_ne_top _ _)]
    · exact fun _ => .inr ⟨nameable_of_writeFile hw', post⟩

/-! ### Opening -/

/-- The index that is read where a cache has written its index is the index of that cache. -/
theorem readIndex (h : Backed K home c t) (clean : c.dirty = false)
    (version : c.formatVersion < 2 ^ 32) : Cache.readIndex c.formatVersion t c.indexPath = c.index := by
  rcases h.written clean with ⟨hempty, hmissing⟩ | ⟨nameable, changed, hf⟩
  · rw [hempty]
    exact readIndex_of_missing h.houses hmissing _
  · have hname : Path.IsName (fileName "index") := by decide
    exact h.orderly.readIndex version (h.houses.readText h.made .top hname
      (area_ne_entries (@Area.top c.directory home) (by decide)) nameable hf)

theorem openIn_index {dir : Path} {settingsDigest : String} {capacity version : Nat}
    {fingerprint : List UInt8 → String}
    (ho : Cache.openIn t dir settingsDigest capacity version fingerprint = (t', .ok c)) :
    (t.createDirectories (dir.join ⟨"entries"⟩)).1 = t' ∧
      c.index = Cache.readIndex version t' (dir.join ⟨"index.json"⟩) ∧ c.dirty = false := by
  unfold Cache.openIn at ho
  dsimp only at ho
  split at ho
  · exact nomatch (Prod.mk.inj ho).2
  · rename_i t₁ hc
    obtain ⟨rfl, hok⟩ := Prod.mk.inj ho
    obtain rfl := Except.ok.inj hok
    exact ⟨congrArg Prod.fst hc, rfl, rfl⟩

/-- A cache that is opened where another one has written its index knows what that one knew. -/
theorem reopen (h : Backed K home c t) (clean : c.dirty = false)
    (version : c.formatVersion < 2 ^ 32) {settingsDigest : String} {capacity : Nat}
    (ho : Cache.openIn t c.directory settingsDigest capacity c.formatVersion c.fingerprint =
      (t', .ok c')) :
    t' = t ∧ Backed K home c' t ∧ c'.index = c.index ∧ c'.dirty = false := by
  obtain ⟨htree, hindex, hclean⟩ := openIn_index ho
  rw [h.houses.createDirectories_of_made h.made] at htree
  subst htree
  obtain ⟨-, directory, -, fingerprint, hversion⟩ := openIn_ok ho
  have index : c'.index = c.index := hindex.trans (h.readIndex clean version)
  refine ⟨rfl, ?_, index, hclean⟩
  exact h.congr directory fingerprint hversion index (hclean.trans clean.symm)

/-- The first cache at a home knows nothing. -/
theorem first {dir : Path} {fingerprint : List UInt8 → String} {version : Nat}
    (houses : t.Houses dir home) (made : t.find? (home ++ ["entries"]) = some .directory)
    (missing : t.find? (home ++ [fileName "index"]) = none) {t₀ : Tree} {settingsDigest : String}
    {capacity : Nat}
    (ho : Cache.openIn t₀ dir settingsDigest capacity version fingerprint = (t, .ok c)) :
    Backed K home c t ∧ c.index = .empty ∧ c.dirty = false := by
  obtain ⟨-, hindex, hclean⟩ := openIn_index ho
  obtain ⟨-, rfl, -, -, -⟩ := openIn_ok ho
  have index : c.index = .empty := hindex.trans (readIndex_of_missing houses missing _)
  have hnone (k : Path) : c.index.get? k = none := by
    rw [index]
    rfl
  refine ⟨⟨houses, made, ?_, ?_, ?_, ?_, ?_, fun _ => .inl ⟨index, missing⟩⟩, index, hclean⟩
  · rw [index]
    exact PathMap.sorted_empty
  · rw [index]
    exact nofun
  · exact fun k r _ hi => nomatch (hnone k).symm.trans hi
  · exact fun k r _ hi => nomatch (hnone k).symm.trans hi
  · exact fun k r _ hi => nomatch (hnone k).symm.trans hi

end Backed
end Cache
end SourceSurvey
