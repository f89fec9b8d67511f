import Mathlib.Algebra.GroupWithZero.Nat
import SourceSurvey.Proofs.Chunk.Windows
import SourceSurvey.Settings.Basic

/-!
# Chunks keep to the limits of their plan

A chunk is filled line by line and takes no further line once it is full, so that it was not full
before its last new line (`ChunkPlan.not_isFull_of_lt_filled`). What the splitting leaves to the next
chunk is part of those lines, so one lemma about a single chunk (`ChunkPlan.bounds_emit`) and an
induction along the cutting (`ChunkPlan.bounds_of_mem_cut`) bound all chunks.

* `ChunkPlan.chunks_bounded`: every chunk keeps to the limits of its plan, and has no more lines than
  the plan says if the settings are valid.
-/

namespace SourceSurvey

/-- The bytes of the owned lines without the last one, with their line feeds. -/
def Chunk.bytesBeforeLast (c : Chunk) : Nat :=
  (c.ownedLines.dropLast.map fun line => Text.byteLength line + 1).sum

namespace ChunkPlan

variable {plan : ChunkPlan} {ending : Ending} {index start kept : Nat}
  {context fresh : List MarkedLine} {c : Chunk}

/-- A chunk keeps to the limits of a plan: it has no more lines than the plan allows, or the repeated
lines and one more, and it owns a single line or was not full of bytes before its last line. -/
structure Bounds (plan : ChunkPlan) (c : Chunk) : Prop where
  lines : c.lines.length ≤ max plan.maxLines (plan.overlap + 1)
  bytes : c.ownedLines.length = 1 ∨ c.bytesBeforeLast < plan.maxBytes

/-! ## Filling a chunk -/

/-- The number of new lines that are taken before a chunk is split: enough to fill it, or all. -/
def filled (plan : ChunkPlan) (lines bytes : Nat) (fresh : List MarkedLine) : Nat :=
  (plan.fill lines bytes fresh).getD fresh.length

theorem filled_cons (lines bytes : Nat) (line : MarkedLine) (rest : List MarkedLine) :
    plan.filled lines bytes (line :: rest) =
      if plan.isFull (lines + 1) (bytes + line.size) then 1
      else plan.filled (lines + 1) (bytes + line.size) rest + 1 := by
  rw [filled, fill]
  split
  · rfl
  · rw [filled]
    cases plan.fill (lines + 1) (bytes + line.size) rest <;> rfl

/-- Before its last new line a chunk is not full. -/
theorem not_isFull_of_lt_filled {lines bytes k : Nat} (hk : 0 < k)
    (h : k < plan.filled lines bytes fresh) :
    plan.isFull (lines + k) (bytes + ((fresh.take k).map MarkedLine.size).sum) = false := by
  induction fresh generalizing lines bytes k with
  | nil => exact absurd h (Nat.not_lt_zero k)
  | cons line rest ih =>
    rw [filled_cons] at h
    split at h
    · omega
    · rename_i hfull
      obtain ⟨k, rfl⟩ := Nat.exists_eq_succ_of_ne_zero hk.ne'
      rw [List.take_succ_cons, List.map_cons, List.sum_cons, ← Nat.add_assoc, Nat.succ_eq_one_add,
        ← Nat.add_assoc]
      rcases Nat.eq_zero_or_pos k with rfl | hpos
      · simpa using hfull
      · exact ih hpos (by omega)

/-! ## Limits -/

/-- A chunk of some of the lines that fill it keeps to the limits. -/
theorem bounds_emit (index start : Nat) (hc : context.length ≤ plan.overlap) (hk : 0 < kept)
    (hf : kept ≤ fresh.length)
    (h : kept ≤ plan.filled context.length (context.map MarkedLine.size).sum fresh) :
    plan.Bounds (cut.emit index start context (fresh.take kept)) := by
  have howned : (cut.emit index start context (fresh.take kept)).ownedLines =
      (fresh.take kept).map MarkedLine.text := by
    simp [cut.emit, Chunk.ownedLines]
  have hlines : (cut.emit index start context (fresh.take kept)).lines.length =
      context.length + kept := by
    simp [cut.emit, Nat.min_eq_left hf]
  by_cases hone : kept = 1
  · refine ⟨by omega, .inl ?_⟩
    rw [howned, List.length_map, List.length_take]
    omega
  · -- Only the last new line can have filled the chunk, so it was not full one line before.
    have hfull := not_isFull_of_lt_filled (show 0 < kept - 1 by omega)
      (show kept - 1 < plan.filled context.length (context.map MarkedLine.size).sum fresh by omega)
    obtain ⟨hmax, hbytes⟩ : ¬plan.maxLines ≤ context.length + (kept - 1) ∧
        ¬plan.maxBytes ≤ (context.map MarkedLine.size).sum +
          ((fresh.take (kept - 1)).map MarkedLine.size).sum := by
      simpa [isFull] using hfull
    refine ⟨by omega, .inr ?_⟩
    have hlast : (fresh.take kept).dropLast = fresh.take (kept - 1) := by
      rw [List.dropLast_eq_take, List.length_take, List.take_take]
      congr 1
      omega
    have hsum : (cut.emit index start context (fresh.take kept)).bytesBeforeLast =
        ((fresh.take (kept - 1)).map MarkedLine.size).sum := by
      rw [Chunk.bytesBeforeLast, howned, ← List.map_dropLast, hlast, List.map_map]
      rfl
    omega

/-- A chunk that is cut is the first one, which keeps some of the lines that were taken, or one of
those that are cut from the rest. -/
theorem mem_cut_cases (h : c ∈ cut plan ending index start context fresh) :
    ∃ kept, 0 < kept ∧ kept ≤ fresh.length ∧
      kept ≤ plan.filled context.length (context.map MarkedLine.size).sum fresh ∧
      (c = cut.emit index start context (fresh.take kept) ∨
        ∃ start' context', context'.length ≤ plan.overlap ∧
          c ∈ cut plan ending (index + 1) start' context' (fresh.drop kept)) := by
  rw [cut.eq_def] at h
  split at h
  · exact nomatch h
  · rename_i hne
    have hpos := List.length_pos_iff.mpr hne
    split at h
    · rename_i hfill
      have hfilled : plan.filled context.length (context.map MarkedLine.size).sum fresh =
          fresh.length := congrArg (Option.getD · fresh.length) hfill
      split at h
      · refine ⟨fresh.length, hpos, Nat.le_refl _, hfilled.ge, .inl ?_⟩
        rw [List.take_length]
        exact List.mem_singleton.mp h
      · exact nomatch h
    · rename_i n hfill
      have hfilled : plan.filled context.length (context.map MarkedLine.size).sum fresh = n :=
        congrArg (Option.getD · fresh.length) hfill
      have hkeep := keep_take_fill hfill
      refine ⟨plan.keep (fresh.take n), hkeep.1, by omega, by omega, ?_⟩
      rcases List.mem_cons.mp h with rfl | h
      · exact .inl rfl
      · refine .inr ⟨_, _, ?_, h⟩
        rw [List.length_drop]
        omega

/-- Every chunk that is cut keeps to the limits, whatever is left of the lines before it. -/
theorem bounds_of_mem_cut (hc : context.length ≤ plan.overlap)
    (h : c ∈ cut plan ending index start context fresh) : plan.Bounds c := by
  -- What is left after a split counts as new lines again, with other repeated lines in front; of
  -- these only their number is known.
  induction hn : fresh.length using Nat.strongRecOn generalizing index start context fresh with
  | _ n ih =>
    obtain ⟨kept, hk, hf, hfilled, rfl | ⟨start', context', hc', h⟩⟩ := mem_cut_cases h
    · exact bounds_emit index start hc hk hf hfilled
    · exact ih _ (by rw [List.length_drop]; omega) hc' h rfl

/-! ## Sources -/

/-- Valid settings repeat fewer lines than a chunk may have. -/
theorem overlap_lt_of_validate {s : Settings} (h : s.validate = .ok ()) :
    s.chunking.overlap < s.chunking.maxLines := by
  by_contra hle
  have hrule : s.violation? ≠ none := by
    unfold Settings.violation?
    rw [if_pos (Nat.not_lt.mp hle)]
    repeat' split
    all_goals exact Option.some_ne_none _
  unfold Settings.validate at h
  split at h
  · cases h
  · rename_i hnone
    exact hrule hnone

/-- Every chunk of a source keeps to the limits of its plan; with valid settings it has no more lines
than the settings allow. -/
theorem chunks_bounded (bytes : List UInt8) :
    (∀ plan : ChunkPlan, ∀ c ∈ (plan.chunks bytes).1, plan.Bounds c) ∧
      ∀ s : Settings, s.validate = .ok () →
        ∀ c ∈ (s.chunking.plan.chunks bytes).1, c.lines.length ≤ s.chunking.maxLines := by
  have hall (plan : ChunkPlan) : ∀ c ∈ (plan.chunks bytes).1, plan.Bounds c :=
    fun c hc => bounds_of_mem_cut (Nat.zero_le _) hc
  refine ⟨hall, fun s hs c hc => ?_⟩
  have hoverlap := overlap_lt_of_validate hs
  have hlines : c.lines.length ≤ max s.chunking.maxLines (s.chunking.overlap + 1) :=
    (hall s.chunking.plan c hc).lines
  omega

/-- Settings for chunks of at most four lines that repeat one. -/
def narrowSettings : Settings :=
  { cache := { directory := ⟨"cache"⟩ }, chunking := { maxLines := 4, maxBytes := 44, overlap := 1 } }

/-- A class with two methods and two variables. -/
def narrowText : List Char :=
  ["class A:\n", "    def f(self):\n", "        pass\n", "    def g(self): pass\n", "x = 1\n",
    "y = 2\n"].flatMap String.toList

/-- The third chunk of the text, which is split in front of the last variable. -/
def narrowChunk : Chunk :=
  { index := 2, startLine := 2, context := 1, enclosing? := some "A"
    lines := ["        pass".toList, "    def g(self): pass".toList, "x = 1".toList] }

theorem chunks_bounded_narrow :
    narrowSettings.validate = .ok () ∧
      narrowChunk ∈ (narrowSettings.chunking.plan.chunks (Text.encode narrowText)).1 ∧
      narrowChunk.lines.length ≤ 4 ∧ narrowSettings.chunking.plan.Bounds narrowChunk := by
  have hmem : narrowChunk ∈ (narrowSettings.chunking.plan.chunks (Text.encode narrowText)).1 := by
    decide +kernel
  have hb := chunks_bounded (Text.encode narrowText)
  exact ⟨rfl, hmem, hb.2 narrowSettings rfl narrowChunk hmem, hb.1 _ narrowChunk hmem⟩

end ChunkPlan
end SourceSurvey
