import SourceSurvey.Proofs.Cache.Shelf

/-!
# Calls that overlap

Several threads call one cache at once. Storing a result writes the payload, inserts the record and
marks the index as changed; removing a record marks it too; writing the index takes the mark away,
copies the index and replaces the index file by the copy (`Pending`). Each of these is one step, and
the steps of different calls come in any order (`Workers.after`). The copies are numbered.

* `Workers.after_storing`, `Workers.after_invalidating`, `Workers.after_flushing`: a call that nothing
  comes between does what the cache does at once, whatever calls have begun before it.
-/

namespace SourceSurvey

/-! ## Steps -/

/-- What a thread asks a cache for. -/
inductive Call where
  | storing (p : Path) (module : Module) (edges : List Edge) (micros : Nat)
  | invalidating (p : Path)
  | flushing

/-- The next step of a call that has begun. -/
inductive Pending where
  | starting (call : Call)
  | inserting (e : CacheEntry)
  | marking
  | copying
  | replacing (number : Nat) (copy : IndexFile)

/-- What all calls share, the number of copies that were taken of the index, and the number of the
copy that has last replaced the index file. -/
structure Shared where
  cache : Cache
  tree : Tree
  copies : Nat := 0
  shown : Nat := 0

/-- A cache and its calls that have begun. -/
structure Workers where
  shared : Shared
  pending : List Pending := []

namespace Shared

/-- The payload of a result is written. -/
def write (s : Shared) (p : Path) (module : Module) (edges : List Edge) (micros : Nat) :
    Shared × Option Pending :=
  match s.cache.stamp? s.tree p with
  | none => (s, none)
  | some stamp =>
    let e := s.cache.entryFor s.tree stamp module edges micros
    match s.cache.writeFile s.tree (s.cache.payloadPath s.tree p) e.bytes with
    | (c, t, .error _) => ({ s with cache := c, tree := t }, none)
    | (c, t, .ok ()) => ({ s with cache := c, tree := t }, some (.inserting e))

/-- A record is removed, with its payload. -/
def remove (s : Shared) (p : Path) : Shared × Option Pending :=
  match s.cache.invalidate s.tree p with
  | (c, t, removed) =>
    -- The mark is left to the next step.
    ({ s with cache := { c with dirty := s.cache.dirty }, tree := t },
      if removed then some .marking else none)

/-- The mark is taken away. -/
def swap (s : Shared) : Shared × Option Pending :=
  if s.cache.dirty then ({ s with cache := { s.cache with dirty := false } }, some .copying)
  else (s, none)

/-- The index file is replaced; if it cannot be, the index is marked again. -/
def replace (s : Shared) (number : Nat) (copy : IndexFile) : Shared × Option Pending :=
  match s.cache.writeFile s.tree s.cache.indexPath copy.bytes with
  | (c, t, .error _) => ({ s with cache := c, tree := t }, some .marking)
  | (c, t, .ok ()) => ({ s with cache := c, tree := t, shown := number }, none)

/-- A step of a call, and what it does next. -/
def step (s : Shared) : Pending → Shared × Option Pending
  | .starting (.storing p module edges micros) => s.write p module edges micros
  | .starting (.invalidating p) => s.remove p
  | .starting .flushing => s.swap
  | .inserting e =>
    ({ s with cache := { s.cache.hold e with dirty := s.cache.dirty } }, some .marking)
  | .marking => ({ s with cache := { s.cache with dirty := true } }, none)
  | .copying =>
    ({ s with copies := s.copies + 1 }, some (.replacing (s.copies + 1) s.cache.indexFile))
  | .replacing number copy => s.replace number copy

/-- What a call does in so many steps if nothing comes between. -/
def run (s : Shared) : Option Pending → Nat → Shared × Option Pending
  | none, _ => (s, none)
  | some next, 0 => (s, some next)
  | some next, n + 1 => (s.step next).1.run (s.step next).2 n

/-! ## Calls that nothing comes between -/

variable {s s' : Shared} {next : Pending} {next? : Option Pending} {c c' : Cache} {t t' : Tree}

theorem run_step (h : s.step next = (s', next?)) (n : Nat) :
    s.run (some next) (n + 1) = s'.run next? n := by
  rw [run, h]

theorem run_none (s : Shared) (n : Nat) : s.run none n = (s, none) := by
  rw [run]

theorem step_replaced {number : Nat} {copy : IndexFile}
    (hw : s.cache.writeFile s.tree s.cache.indexPath copy.bytes = (c', t', .ok ())) :
    s.step (.replacing number copy) =
      ({ s with cache := c', tree := t', shown := number }, none) := by
  show s.replace number copy = _
  unfold replace
  rw [hw]

theorem step_refused {number : Nat} {copy : IndexFile} {f : Failure}
    (hw : s.cache.writeFile s.tree s.cache.indexPath copy.bytes = (c', t', .error f)) :
    s.step (.replacing number copy) = ({ s with cache := c', tree := t' }, some .marking) := by
  show s.replace number copy = _
  unfold replace
  rw [hw]

/-- Storing a result, if nothing comes between. -/
theorem run_storing (s : Shared) (p : Path) (m : Module) (edges : List Edge) (micros : Nat) :
    s.run (some (.starting (.storing p m edges micros))) 3 =
      ({ s with
          cache := (s.cache.store s.tree p m edges micros).1
          tree := (s.cache.store s.tree p m edges micros).2.1 }, none) := by
  show (s.write p m edges micros).1.run (s.write p m edges micros).2 2 = _
  unfold write Cache.store
  cases s.cache.stamp? s.tree p with
  | none => rfl
  | some stamp =>
    dsimp only
    unfold CacheEntry.bytes
    rcases s.cache.writeFile s.tree (s.cache.payloadPath s.tree p)
      (s.cache.entryFor s.tree stamp m edges micros).toJson.compact.toUTF8.toList with ⟨c, t, r⟩
    cases r with
    | error f => rfl
    | ok => rfl

/-- Removing a record, if nothing comes between. -/
theorem run_invalidating (s : Shared) (p : Path) :
    s.run (some (.starting (.invalidating p))) 2 =
      ({ s with
          cache := (s.cache.invalidate s.tree p).1
          tree := (s.cache.invalidate s.tree p).2.1 }, none) := by
  show (s.remove p).1.run (s.remove p).2 1 = _
  have hdirty : (s.cache.invalidate s.tree p).1.dirty =
      (s.cache.dirty || (s.cache.invalidate s.tree p).2.2) := rfl
  unfold remove
  rcases hi : s.cache.invalidate s.tree p with ⟨c, t, removed⟩
  rw [hi] at hdirty
  dsimp only at hdirty ⊢
  cases removed with
  | false =>
    rw [Bool.or_false] at hdirty
    rw [← hdirty]
    rfl
  | true =>
    rw [Bool.or_true] at hdirty
    show (Shared.mk { c with dirty := true } t s.copies s.shown, none) = _
    rw [← hdirty]

/-- Writing a file does not ask for the mark. -/
theorem writeFile_dirty (c : Cache) (t : Tree) (p : Path) (bytes : List UInt8) (dirty : Bool) :
    ({ c with dirty } : Cache).writeFile t p bytes =
      ({ (c.writeFile t p bytes).1 with dirty }, (c.writeFile t p bytes).2) := by
  unfold Cache.writeFile
  dsimp only
  split
  · rfl
  · split
    · rfl
    · rfl

theorem flush_error {f : Failure} (dirty : c.dirty = true)
    (hw : c.writeFile t c.indexPath c.indexFile.bytes = (c', t', .error f)) :
    c.flush t = (c', t', .error f) := by
  rcases c.flush_cases t with ⟨clean, -⟩ | ⟨t₁, r, -, hw', hf⟩
  · exact nomatch dirty.symm.trans clean
  · obtain ⟨rfl, rfl, rfl⟩ := Cache.triple_inj hw hw'
    exact hf

theorem flush_written (dirty : c.dirty = true)
    (hw : c.writeFile t c.indexPath c.indexFile.bytes = (c', t', .ok ())) :
    c.flush t = ({ c' with dirty := false }, t', .ok ()) := by
  rcases c.flush_cases t with ⟨clean, -⟩ | ⟨t₁, r, -, hw', hf⟩
  · exact nomatch dirty.symm.trans clean
  · obtain ⟨rfl, rfl, rfl⟩ := Cache.triple_inj hw hw'
    exact hf

/-- What is shared once the mark is taken away and the index is copied. -/
def copied (s : Shared) : Shared :=
  { s with cache := { s.cache with dirty := false }, copies := s.copies + 1 }

/-- The index was marked and is copied, if nothing comes between. -/
theorem run_copying (dirty : s.cache.dirty = true) (n : Nat) :
    s.run (some (.starting .flushing)) (n + 2) =
      s.copied.run (some (.replacing (s.copies + 1) s.cache.indexFile)) n := by
  have hswap : s.step (.starting .flushing) =
      ({ s with cache := { s.cache with dirty := false } }, some .copying) := if_pos dirty
  have hcopy : ({ s with cache := { s.cache with dirty := false } } : Shared).step .copying =
      (s.copied, some (.replacing (s.copies + 1) s.cache.indexFile)) := rfl
  rw [run_step hswap (n + 1), run_step hcopy n]

/-- The index file is replaced by the copy that was just taken. -/
theorem copied_writes {bytes : List UInt8} {r : Except Failure Unit}
    (hw : s.cache.writeFile s.tree s.cache.indexPath bytes = (c', t', r)) :
    s.copied.cache.writeFile s.copied.tree s.copied.cache.indexPath bytes =
      ({ c' with dirty := false }, t', r) := by
  have hclean := writeFile_dirty s.cache s.tree s.cache.indexPath bytes false
  rw [hw] at hclean
  exact hclean

/-- Writing the index, if nothing comes between. -/
theorem run_flushing (s : Shared) :
    ∃ copies shown, s.run (some (.starting .flushing)) 4 =
      ({ cache := (s.cache.flush s.tree).1, tree := (s.cache.flush s.tree).2.1, copies, shown },
        none) := by
  cases hd : s.cache.dirty with
  | false =>
    have hswap : s.step (.starting .flushing) = (s, none) := if_neg (by simp [hd])
    have hflush : s.cache.flush s.tree = (s.cache, s.tree, .ok ()) := if_pos (by simp [hd])
    rw [run_step hswap 3, run_none, hflush]
    exact ⟨_, _, rfl⟩
  | true =>
    obtain ⟨t, r, hw⟩ := s.cache.writeFile_cases s.tree s.cache.indexPath s.cache.indexFile.bytes
    have hcopied := copied_writes hw
    rw [run_copying hd 2]
    cases r with
    | error f =>
      rw [run_step (step_refused hcopied) 1, run_step rfl 0, run_none, flush_error hd hw]
      refine ⟨s.copied.copies, s.copied.shown, ?_⟩
      rw [← hd]
    | ok =>
      rw [run_step (step_replaced hcopied) 1, run_none, flush_written hd hw]
      exact ⟨_, _, rfl⟩

end Shared

/-- A call begins, or one of those that have begun does its next step. -/
inductive Turn where
  | calling (call : Call)
  | advancing (i : Nat)

namespace Workers

variable {w : Workers} {s : Shared} {c' : Cache} {t' : Tree}

/-- A cache that nobody calls. -/
def idle (c : Cache) (t : Tree) : Workers := { shared := { cache := c, tree := t } }

/-- The cache and the calls after a turn. -/
def turn (w : Workers) : Turn → Workers
  | .calling call => { w with pending := w.pending ++ [.starting call] }
  | .advancing i =>
    match w.pending[i]? with
    | none => w
    | some next =>
      { shared := (w.shared.step next).1
        pending := w.pending.take i ++ (w.shared.step next).2.toList ++ w.pending.drop (i + 1) }

/-- The cache and the calls after some turns. -/
def after (w : Workers) (turns : List Turn) : Workers := turns.foldl turn w

/-- The turns of a call that does so many steps before any other call does. -/
def alone (w : Workers) (call : Call) (steps : Nat) : List Turn :=
  .calling call :: List.replicate steps (.advancing w.pending.length)

theorem after_cons (w : Workers) (r : Turn) (rest : List Turn) :
    w.after (r :: rest) = (w.turn r).after rest := rfl

theorem after_append (w : Workers) (rs rs' : List Turn) :
    w.after (rs ++ rs') = (w.after rs).after rs' :=
  List.foldl_append

/-- The next step of a call. -/
theorem turn_advancing (s : Shared) (before after : List Pending) (next : Pending) :
    (Workers.mk s (before ++ next :: after)).turn (.advancing before.length) =
      ⟨(s.step next).1, before ++ (s.step next).2.toList ++ after⟩ := by
  unfold turn
  simp

/-- The last step of the only call. -/
theorem after_returning {s' : Shared} {next : Pending} (h : s.step next = (s', none)) :
    (Workers.mk s [next]).after [.advancing 0] = ⟨s', []⟩ := by
  have hturn := turn_advancing s [] [] next
  rw [h] at hturn
  exact hturn

/-- A call that has returned takes no turn. -/
theorem turn_returned {i : Nat} (h : w.pending.length ≤ i) : w.turn (.advancing i) = w := by
  show (match w.pending[i]? with | none => w | some next => _) = w
  rw [List.getElem?_eq_none h]

/-- What the next step of a call leads to. -/
theorem turn_cases (w : Workers) (i : Nat) :
    (w.pending[i]? = none ∧ w.turn (.advancing i) = w) ∨
      ∃ before next after, w.pending = before ++ next :: after ∧ w.pending[i]? = some next ∧
        w.turn (.advancing i) =
          ⟨(w.shared.step next).1, before ++ (w.shared.step next).2.toList ++ after⟩ := by
  rcases Nat.lt_or_ge i w.pending.length with hi | hi
  · have hsplit : w.pending = w.pending.take i ++ w.pending[i] :: w.pending.drop (i + 1) := by
      rw [← List.drop_eq_getElem_cons hi, List.take_append_drop]
    refine .inr ⟨_, _, _, hsplit, List.getElem?_eq_getElem hi, ?_⟩
    show (match w.pending[i]? with | none => w | some next => _) = _
    rw [List.getElem?_eq_getElem hi]
  · exact .inl ⟨List.getElem?_eq_none hi, turn_returned hi⟩

theorem after_replicate (s : Shared) (others : List Pending) (next? : Option Pending) (n : Nat) :
    (Workers.mk s (others ++ next?.toList)).after (List.replicate n (.advancing others.length)) =
      ⟨(s.run next? n).1, others ++ (s.run next? n).2.toList⟩ := by
  induction n generalizing s next? with
  | zero =>
    cases next? with
    | none => rfl
    | some next => rfl
  | succ n ih =>
    rw [List.replicate_succ, after_cons]
    cases next? with
    | none =>
      -- The call has returned, and its place is behind the last call.
      have hreturned : (Workers.mk s (others ++ (none : Option Pending).toList)).turn
          (.advancing others.length) = _ := turn_returned (by simp)
      rw [hreturned, ih]
      cases n with
      | zero => rfl
      | succ n => rfl
    | some next =>
      rw [Option.toList_some, turn_advancing, List.append_nil, ih]
      rfl

/-- A call that nothing comes between does what its steps do one after the other. -/
theorem after_alone (w : Workers) (call : Call) (n : Nat) :
    w.after (w.alone call n) =
      ⟨(w.shared.run (some (.starting call)) n).1,
        w.pending ++ (w.shared.run (some (.starting call)) n).2.toList⟩ :=
  after_replicate w.shared w.pending (some (.starting call)) n

/-- Storing a result, if nothing comes between. -/
theorem after_storing {p : Path} {m : Module} {edges : List Edge} {micros : Nat}
    {r : Except Failure FileStamp} (others : List Pending)
    (hs : s.cache.store s.tree p m edges micros = (c', t', r)) :
    (Workers.mk s others).after ((Workers.mk s others).alone (.storing p m edges micros) 3) =
      ⟨{ s with cache := c', tree := t' }, others⟩ := by
  rw [after_alone, Shared.run_storing, hs, Option.toList_none, List.append_nil]

/-- Removing a record, if nothing comes between. -/
theorem after_invalidating {p : Path} {removed : Bool} (others : List Pending)
    (hi : s.cache.invalidate s.tree p = (c', t', removed)) :
    (Workers.mk s others).after ((Workers.mk s others).alone (.invalidating p) 2) =
      ⟨{ s with cache := c', tree := t' }, others⟩ := by
  rw [after_alone, Shared.run_invalidating, hi, Option.toList_none, List.append_nil]

/-- Writing the index, if nothing comes between. -/
theorem after_flushing {r : Except Failure Unit} (others : List Pending)
    (hf : s.cache.flush s.tree = (c', t', r)) :
    ∃ copies shown, (Workers.mk s others).after ((Workers.mk s others).alone .flushing 4) =
      ⟨{ cache := c', tree := t', copies, shown }, others⟩ := by
  obtain ⟨copies, shown, hrun⟩ := s.run_flushing
  refine ⟨copies, shown, ?_⟩
  rw [after_alone, hrun, hf, Option.toList_none, List.append_nil]

end Workers
end SourceSurvey
