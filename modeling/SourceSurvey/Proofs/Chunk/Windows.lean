import Mathlib.Data.List.Chain
import Mathlib.Data.List.TakeWhile
import SourceSurvey.Chunk.Merge
import SourceSurvey.Proofs.Text.Lines

/-!
# Chunks tile their source

The chunks of a source are windows of its marked lines (`ChunkPlan.Windows`): each goes on where the
one before has ended and repeats some of its last lines as context. That the cutting of a list of
marked lines gives windows (`ChunkPlan.cut_windows`) is proved once, along the recursion of `cut`;
everything else is an induction on the windows.

* `ChunkPlan.Windows.tiles`: windows tile the lines of the source.
* `ChunkPlan.chunks_tile`: for every plan the chunks of a text tile its lines, and bytes that are no
  text end the reading with an error.
-/

namespace SourceSurvey

namespace Chunk

/-- The chunk of the marked lines from the place `start` up to `stop`. -/
def window (marked : List MarkedLine) (index start context stop : Nat) : Chunk :=
  { index
    startLine := start
    lines := ((marked.take stop).drop start).map MarkedLine.text
    context
    enclosing? := marked[start]?.bind MarkedLine.openClass? }

section window

variable {marked : List MarkedLine} {index start context stop : Nat}

@[simp] theorem index_window : (window marked index start context stop).index = index := rfl

@[simp] theorem startLine_window : (window marked index start context stop).startLine = start := rfl

@[simp] theorem context_window : (window marked index start context stop).context = context := rfl

theorem length_lines_window (h : stop ≤ marked.length) :
    (window marked index start context stop).lines.length = stop - start := by
  simp [window]
  omega

theorem endLine_window (hs : start ≤ stop) (h : stop ≤ marked.length) :
    (window marked index start context stop).endLine = stop := by
  rw [endLine, length_lines_window h, startLine_window]
  omega

theorem ownedLines_window :
    (window marked index start context stop).ownedLines =
      ((marked.take stop).drop (start + context)).map MarkedLine.text := by
  simp [window, ownedLines, List.map_drop, List.drop_drop]

end window
end Chunk

namespace ChunkPlan

variable {plan : ChunkPlan} {marked : List MarkedLine} {index first context : Nat}
  {chunks : List Chunk}

/-- Some chunks are the windows of the marked lines from the place `first` on. The first of them
has a number and repeats `context` lines; each owns at least one line. -/
inductive Windows (plan : ChunkPlan) (marked : List MarkedLine) : Nat → Nat → Nat → List Chunk → Prop
  | done {index context : Nat} : Windows plan marked index marked.length context []
  | next {index first context stop : Nat} {chunks : List Chunk} (owns : first < stop)
      (fits : stop ≤ marked.length)
      (rest : Windows plan marked (index + 1) stop
        (min plan.overlap (context + (stop - first))) chunks) :
      Windows plan marked index first context
        (Chunk.window marked index (first - context) context stop :: chunks)

/-! ## Cutting -/

/-- A chunk that is put out is a window of the lines that are left and those before them. -/
theorem emit_eq_window {before context fresh rest : List MarkedLine} (h : fresh ≠ []) :
    cut.emit index before.length context fresh =
      Chunk.window (before ++ (context ++ fresh ++ rest)) index before.length context.length
        (before.length + context.length + fresh.length) := by
  have hlines : ((before ++ (context ++ fresh ++ rest)).take
      (before.length + context.length + fresh.length)).drop before.length = context ++ fresh := by
    have hstop : before.length + context.length + fresh.length =
        before.length + (context ++ fresh).length := by
      simp
      omega
    rw [hstop, List.take_length_add_append, List.take_left, List.drop_left]
  have hhead : (before ++ (context ++ fresh ++ rest))[before.length]? = (context ++ fresh).head? := by
    rw [List.getElem?_append_right (Nat.le_refl _), Nat.sub_self, ← List.head?_eq_getElem?,
      List.head?_append_of_ne_nil _ (by simp [h])]
  simp only [cut.emit, Chunk.window, hlines, hhead]

/-- Cutting puts out nothing, one chunk with all lines, or a chunk with some of the lines, at least
one, and then the chunks of the others. -/
theorem cut_cases (plan : ChunkPlan) (index start : Nat) (context fresh : List MarkedLine) :
    fresh = [] ∧ cut plan .complete index start context fresh = [] ∨
      fresh ≠ [] ∧ cut plan .complete index start context fresh =
        [cut.emit index start context fresh] ∨
      fresh ≠ [] ∧ ∃ kept lines overlap, 0 < kept ∧ lines = context ++ fresh.take kept ∧
        overlap = min plan.overlap lines.length ∧
        cut plan .complete index start context fresh =
          cut.emit index start context (fresh.take kept) ::
            cut plan .complete (index + 1) (start + lines.length - overlap)
              (lines.drop (lines.length - overlap)) (fresh.drop kept) := by
  by_cases h : fresh = []
  · subst h
    rw [cut]
    simp
  · rw [cut, if_neg h]
    split
    · exact .inr (.inl ⟨h, rfl⟩)
    · rename_i hfill
      exact .inr (.inr ⟨h, _, _, _, (keep_take_fill hfill).1, rfl, rfl, rfl⟩)

/-- A chunk that is put out and the windows after it are windows. -/
theorem Windows.emit {before context own rest : List MarkedLine} (hown : own ≠ [])
    (hm : marked = before ++ (context ++ own ++ rest))
    (hrest : Windows plan marked (index + 1) (before.length + context.length + own.length)
      (min plan.overlap (context.length + own.length)) chunks) :
    Windows plan marked index (before.length + context.length) context.length
      (cut.emit index before.length context own :: chunks) := by
  have hpos := List.length_pos_iff.mpr hown
  have hlength : before.length + context.length + own.length ≤ marked.length := by
    simp [hm]
    omega
  have howned : before.length + context.length + own.length - (before.length + context.length) =
      own.length := Nat.add_sub_cancel_left ..
  have hnext := @Windows.next plan marked index (before.length + context.length) context.length _
    chunks (Nat.lt_add_of_pos_right hpos) hlength (by rwa [howned])
  rw [Nat.add_sub_cancel] at hnext
  rwa [emit_eq_window hown, ← hm]

/-- Cutting lines gives windows. -/
theorem cut_windows (plan : ChunkPlan) (index start : Nat) (before context fresh : List MarkedLine)
    (hs : start = before.length) (hm : marked = before ++ (context ++ fresh)) :
    Windows plan marked index (start + context.length) context.length
      (cut plan .complete index start context fresh) := by
  induction hn : fresh.length using Nat.strongRecOn
    generalizing index start before context fresh with
  | _ n ih =>
    subst hs
    obtain ⟨hf, hc⟩ | ⟨hf, hc⟩ | ⟨hf, kept, lines, overlap, hk, hl, ho, hc⟩ :=
      cut_cases plan index before.length context fresh
    · have hlength : before.length + context.length = marked.length := by simp [hm, hf]
      rw [hc, hlength]
      exact .done
    · have hlength : before.length + context.length + fresh.length = marked.length := by
        simp [hm]
        omega
      have hwhole : marked = before ++ (context ++ fresh ++ []) := by rwa [List.append_nil]
      rw [hc]
      refine .emit hf hwhole ?_
      rw [hlength]
      exact .done
    · have hpos := List.length_pos_iff.mpr hf
      have hown : fresh.take kept ≠ [] := by
        simp only [ne_eq, List.take_eq_nil_iff, not_or]
        exact ⟨by omega, hf⟩
      have hlines : lines.length = context.length + (fresh.take kept).length := by simp [hl]
      have hwhole : marked = before ++ (context ++ fresh.take kept ++ fresh.drop kept) := by
        rw [hm, List.append_assoc, List.take_append_drop]
      have hmarked : marked = before ++ (lines ++ fresh.drop kept) := by rw [hwhole, hl]
      -- The lines that are repeated are cut off the lines of the chunk.
      have hrest := ih (fresh.drop kept).length (by rw [List.length_drop]; omega) (index + 1)
        (before.length + lines.length - overlap) (before ++ lines.take (lines.length - overlap))
        (lines.drop (lines.length - overlap)) (fresh.drop kept)
        (by rw [List.length_append, List.length_take]; omega)
        (by rw [hmarked, List.append_assoc, ← List.append_assoc (List.take _ _),
          List.take_append_drop])
        rfl
      have hstop : before.length + lines.length - overlap +
          (lines.drop (lines.length - overlap)).length =
          before.length + context.length + (fresh.take kept).length := by
        rw [List.length_drop]
        omega
      have hcontext : (lines.drop (lines.length - overlap)).length =
          min plan.overlap (context.length + (fresh.take kept).length) := by
        rw [List.length_drop]
        omega
      rw [hstop, hcontext] at hrest
      rw [hc]
      exact .emit hown hwhole hrest

/-! ## Tiling -/

/-- A chunk goes on where another one ends and repeats as many of its last lines as the plan says,
or all of them. -/
structure Follows (plan : ChunkPlan) (c d : Chunk) : Prop where
  start : d.startLine + d.context = c.endLine
  context : d.context = min plan.overlap c.lines.length
  repeats : d.lines.take d.context = c.lines.drop (c.lines.length - d.context)

/-- Chunks that are numbered from zero on, of which the first starts with the first line and each
further one follows the one before, and whose own lines are, one after the other, some lines. -/
structure Tiles (plan : ChunkPlan) (lines : List (List Char)) (chunks : List Chunk) : Prop where
  indices : chunks.map Chunk.index = List.range chunks.length
  first : ∀ c ∈ chunks.head?, c.startLine = 0 ∧ c.context = 0
  follows : chunks.IsChain plan.Follows
  owns : ∀ c ∈ chunks, c.context < c.lines.length
  ends : ∀ c ∈ chunks, c.endLine = c.startLine + c.lines.length
  owned : chunks.flatMap Chunk.ownedLines = lines

namespace Windows

theorem head (h : Windows plan marked index first context chunks) :
    ∀ c ∈ chunks.head?, ∃ stop, first < stop ∧ stop ≤ marked.length ∧
      c = Chunk.window marked index (first - context) context stop := by
  cases h with
  | done => simp
  | next owns fits rest => simpa using ⟨_, owns, fits, rfl⟩

theorem indices (h : Windows plan marked index first context chunks) :
    chunks.map Chunk.index = List.range' index chunks.length := by
  induction h with
  | done => rfl
  | next owns fits rest ih => simp [ih, List.range'_succ]

/-- The windows from a place on own the lines from there on. -/
theorem owned (h : Windows plan marked index first context chunks) (hc : context ≤ first) :
    chunks.flatMap Chunk.ownedLines = (marked.drop first).map MarkedLine.text := by
  induction h with
  | done => simp
  | @next index first context stop chunks owns fits rest ih =>
    have hown : (marked.take stop).drop first ++ marked.drop stop = marked.drop first := by
      rw [List.drop_take, show marked.drop stop = (marked.drop first).drop (stop - first) by
        rw [List.drop_drop]; congr 1; omega, List.take_append_drop]
    rw [List.flatMap_cons, ih (by omega), Chunk.ownedLines_window, Nat.sub_add_cancel hc,
      ← List.map_append, hown]

theorem owns (h : Windows plan marked index first context chunks) (hc : context ≤ first) :
    ∀ c ∈ chunks, c.context < c.lines.length := by
  induction h with
  | done => simp
  | next owns fits rest ih =>
    refine List.forall_mem_cons.mpr ⟨?_, ih (by omega)⟩
    rw [Chunk.length_lines_window fits, Chunk.context_window]
    omega

/-- The last lines of a window are the first lines of one that starts with them. -/
theorem take_window {start stop start' context' stop' : Nat} (index index' : Nat)
    (hs : start ≤ start') (hc : start' + context' = stop) (hstop : stop ≤ stop') :
    (Chunk.window marked index' start' context' stop').lines.take context' =
      (Chunk.window marked index start context stop).lines.drop (stop - start - context') := by
  simp only [Chunk.window, ← List.map_take, ← List.map_drop, List.drop_drop]
  congr 1
  rw [List.take_drop, List.take_take, show min (start' + context') stop' = stop by omega]
  congr 1
  omega

theorem follows (h : Windows plan marked index first context chunks) (hc : context ≤ first) :
    chunks.IsChain plan.Follows := by
  induction h with
  | done => exact .nil
  | @next index first context stop chunks owns fits rest ih =>
    refine List.isChain_cons.mpr ⟨fun d hd => ?_, ih (by omega)⟩
    obtain ⟨stop', howns, hfits, rfl⟩ := rest.head d hd
    have hlength := @Chunk.length_lines_window marked index (first - context) context stop fits
    constructor
    · rw [Chunk.startLine_window, Chunk.context_window, Chunk.endLine_window (by omega) fits]
      omega
    · rw [Chunk.context_window, hlength]
      congr 1
      omega
    · rw [Chunk.context_window, hlength]
      exact take_window _ _ (by omega) (by omega) (by omega)

/-- The windows of all lines tile them. -/
theorem tiles (h : Windows plan marked 0 0 0 chunks) :
    plan.Tiles (marked.map MarkedLine.text) chunks where
  indices := by rw [h.indices, List.range_eq_range']
  first := by
    intro c hc
    obtain ⟨stop, -, -, rfl⟩ := h.head c hc
    exact ⟨rfl, rfl⟩
  follows := h.follows (Nat.le_refl _)
  owns := h.owns (Nat.le_refl _)
  ends := fun _ _ => rfl
  owned := h.owned (Nat.le_refl _)

end Windows

/-- There are no more chunks than lines. -/
theorem Tiles.length_le {lines : List (List Char)} (h : plan.Tiles lines chunks) :
    chunks.length ≤ lines.length := by
  obtain ⟨-, -, -, owns, -, rfl⟩ := h
  induction chunks with
  | nil => simp
  | cons c chunks ih =>
    obtain ⟨hc, owns⟩ := List.forall_mem_cons.mp owns
    have := ih owns
    simp only [List.length_cons, List.flatMap_cons, List.length_append, Chunk.ownedLines,
      List.length_drop] at this ⊢
    omega

/-! ## Sources -/

theorem map_text_annotate (m : Marker) (lines : List (List Char)) :
    (annotate m lines).map MarkedLine.text = lines := by
  induction lines generalizing m with
  | nil => rfl
  | cons line rest ih => simp [annotate, Marker.mark, ih]

@[simp] theorem length_annotate (m : Marker) (lines : List (List Char)) :
    (annotate m lines).length = lines.length := by
  conv => rhs; rw [← map_text_annotate m lines, List.length_map]

/-- The chunks of a list of lines are windows of the marked lines. -/
theorem chunksOf_windows (plan : ChunkPlan) (lines : List (List Char)) :
    Windows plan (annotate {} lines) 0 0 0 (plan.chunksOf lines .complete) :=
  cut_windows plan 0 0 [] [] _ rfl rfl

/-- The lines of a text, without the carriage returns and line feeds that end them. -/
def sourceLines (text : List Char) : List (List Char) :=
  (Text.terminated (· == '\n') text).map Text.bareLine

theorem readLines_encode (text : List Char) :
    readLines (Text.encode text) = (sourceLines text, .complete) := by
  have htexts : ((Text.terminated (· == '\n') text).map Text.encode).map Text.decode? =
      (Text.terminated (· == '\n') text).map some := by
    simp [Function.comp_def]
  have htake (ls : List (List Char)) :
      ((ls.map some).takeWhile Option.isSome).filterMap id = ls := by
    induction ls with
    | nil => rfl
    | cons l ls ih => simpa using ih
  have hraw := Text.terminated_encode text
  unfold Text.feed at hraw
  unfold readLines
  simp only [hraw, htexts, htake, List.length_map, if_true, sourceLines]

/-- The reading is broken off at bytes that are no text. -/
theorem readLines_invalid_iff (bytes : List UInt8) :
    (readLines bytes).2 = .invalidText ↔ Text.decode? bytes = none := by
  constructor
  · intro h
    cases hd : Text.decode? bytes with
    | none => rfl
    | some text =>
      rw [Text.decode?_eq_some_iff] at hd
      rw [hd, readLines_encode] at h
      exact nomatch h
  · intro h
    unfold readLines
    dsimp only
    rw [if_neg]
    intro hlength
    have hall : ∀ raw ∈ Text.terminated (· == Text.feed) bytes, (Text.decode? raw).isSome := by
      have hgood := List.length_filterMap_le id
        (((Text.terminated (· == Text.feed) bytes).map Text.decode?).takeWhile Option.isSome)
      have hprefix := List.takeWhile_prefix Option.isSome
        (l := (Text.terminated (· == Text.feed) bytes).map Text.decode?)
      have hle := hprefix.length_le
      rw [List.length_map] at hle
      have heq := hprefix.eq_of_length (by rw [List.length_map]; exact hle.antisymm (hlength ▸ hgood))
      intro raw hraw
      exact List.takeWhile_eq_self_iff.mp heq _ (List.mem_map_of_mem hraw)
    obtain ⟨text, rfl⟩ := Text.exists_encode_of_terminated hall
    rw [Text.decode?_encode] at h
    exact nomatch h

/-- For every plan the chunks of a text tile its lines, so that there are no more chunks than
lines, and the reading of bytes ends with an error if they are no text. -/
theorem chunks_tile (plan : ChunkPlan) (text : List Char) (bytes : List UInt8) :
    ((plan.chunks (Text.encode text)).2 = .complete ∧
      plan.Tiles (sourceLines text) (plan.chunks (Text.encode text)).1 ∧
      (plan.chunks (Text.encode text)).1.length ≤ (sourceLines text).length) ∧
    ((plan.chunks bytes).2 = .invalidText ↔ Text.decode? bytes = none) := by
  refine ⟨?_, readLines_invalid_iff bytes⟩
  have hchunks : plan.chunks (Text.encode text) =
      (plan.chunksOf (sourceLines text) .complete, .complete) := by
    rw [chunks, readLines_encode]
  have htiles := (plan.chunksOf_windows (sourceLines text)).tiles
  rw [map_text_annotate] at htiles
  rw [hchunks]
  exact ⟨rfl, htiles, htiles.length_le⟩

end ChunkPlan
end SourceSurvey
