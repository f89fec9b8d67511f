import SourceSurvey.Digest.Blake3

/-!
# The form of a digest

* `Blake3.length_hash`: a digest has 32 bytes.
* `Blake3.mem_hexHash`: written down, it has nothing but lower-case hexadecimal digits, and 64 of
  them (`Blake3.length_hexHash`).
-/

namespace SourceSurvey
namespace Digest

/-! ## Hexadecimal text -/

/-- The digits that bytes are written with. -/
def digits : List Char := "0123456789abcdef".toList

theorem hexDigit_mem : ∀ n < 16, Text.hexDigit n ∈ digits := by decide

theorem utf8Size_of_mem {c : Char} (h : c ∈ digits) : c.utf8Size = 1 := by
  have hall : digits.all (fun c => c.utf8Size == 1) = true := by rfl
  exact eq_of_beq (List.all_eq_true.mp hall c h)

theorem utf8ByteSize_ofList (cs : List Char) (h : ∀ c ∈ cs, c.utf8Size = 1) :
    (String.ofList cs).utf8ByteSize = cs.length := by
  induction cs with
  | nil => rfl
  | cons c cs ih =>
    obtain ⟨hc, h⟩ := List.forall_mem_cons.mp h
    rw [String.ofList_cons, String.utf8ByteSize_append, String.utf8ByteSize_singleton, hc, ih h,
      List.length_cons, Nat.add_comm]

theorem length_hex (bytes : List UInt8) : (hex bytes).length = 2 * bytes.length := by
  induction bytes with
  | nil => rfl
  | cons b rest ih =>
    have hcons : hex (b :: rest) = hexByte b ++ hex rest := rfl
    rw [hcons, List.length_append, ih, List.length_cons]
    show 2 + _ = _
    omega

theorem mem_hex {bytes : List UInt8} {c : Char} (h : c ∈ hex bytes) : c ∈ digits := by
  obtain ⟨b, -, hc⟩ := List.mem_flatMap.mp h
  have hb := b.toNat_lt
  rcases List.mem_cons.mp hc with rfl | hc
  · exact hexDigit_mem _ (by omega)
  · rw [List.mem_singleton.mp hc]
    exact hexDigit_mem _ (by omega)

namespace Blake3

/-! ## Words -/

theorem size_compress (cv m : Array UInt32) (counter : Nat) (length flags : UInt32) :
    (compress cv m counter length flags).size = 8 := by
  simp [compress]

theorem size_chunkBlocks (cv : Array UInt32) (counter : Nat) (first flags : UInt32)
    (blocks : List (List UInt8)) : (chunkBlocks cv counter first flags blocks).size = 8 := by
  fun_induction chunkBlocks cv counter first flags blocks with
  | case1 => exact size_compress ..
  | case2 => exact size_compress ..
  | case3 _ _ _ _ _ ih => exact ih

theorem size_level {cvs : List (Array UInt32)} (h : ∀ cv ∈ cvs, cv.size = 8) :
    ∀ cv ∈ level cvs, cv.size = 8 := by
  fun_induction level cvs with
  | case1 left right rest ih =>
    intro cv hcv
    rcases List.mem_cons.mp hcv with rfl | hcv
    · exact size_compress ..
    · exact ih (fun cv hcv => h cv (List.mem_cons_of_mem _ (List.mem_cons_of_mem _ hcv))) cv hcv
  | case2 => exact h

theorem size_tree {cvs : List (Array UInt32)} (h : ∀ cv ∈ cvs, cv.size = 8) :
    (tree cvs).size = 8 := by
  fun_induction tree cvs with
  | case1 => rfl
  | case2 only => exact h only List.mem_cons_self
  | case3 => exact size_compress ..
  | case4 a b c rest ih => exact ih (size_level h)

/-! ## Digests -/

/-- A digest has 32 bytes. -/
theorem length_hash (message : List UInt8) : (hash message).length = 32 := by
  have flat (words : Array UInt32) (h : words.size = 8) :
      (words.toList.flatMap bytes).length = 32 := by
    have hlength : ∀ w ∈ words.toList, (bytes w).length = 4 := fun _ _ => rfl
    rw [List.length_flatMap, List.map_congr_left hlength, List.map_const', List.sum_replicate_nat,
      Array.length_toList, h]
  unfold hash
  dsimp only
  split
  · exact flat _ (size_chunkBlocks ..)
  · exact flat _ (size_chunkBlocks ..)
  · refine flat _ (size_tree fun cv hcv => ?_)
    obtain ⟨i, hi, rfl⟩ := List.mem_mapIdx.mp hcv
    exact size_chunkBlocks ..

theorem length_hexHash (message : List UInt8) : (hexHash message).toList.length = 64 := by
  unfold hexHash
  rw [String.toList_ofList, length_hex, length_hash]

theorem mem_hexHash {message : List UInt8} {c : Char} (h : c ∈ (hexHash message).toList) :
    c ∈ digits := by
  unfold hexHash at h
  rw [String.toList_ofList] at h
  exact mem_hex h

theorem utf8ByteSize_hexHash (message : List UInt8) : (hexHash message).utf8ByteSize = 64 := by
  have hlength := length_hexHash message
  unfold hexHash at hlength ⊢
  rw [String.toList_ofList] at hlength
  rw [utf8ByteSize_ofList _ fun c hc => utf8Size_of_mem (mem_hex hc), hlength]

end Blake3
end Digest
end SourceSurvey
