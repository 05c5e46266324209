/-
  Where a node starts, in characters.

  A tree gives the column of a node in bytes of the UTF-8 form of its line, and a conversion
  compares it with columns in characters.  The first `k` characters of a line are its front
  (`Text.front`), and the bytes of character `k` are those after the front of `k` and up to the
  end of that of `k + 1`.

  `start_in_characters`: a node that says itself where it starts, at the byte after the front
  of `i` characters, starts at column `i`; and the table of byte columns has for every byte the
  character that it is part of.
-/
import SourceScribe.Conversion.Basic
import SourceScribe.Proofs.Text.Narrow

namespace SourceScribe

namespace Text

/-! ## Bytes and characters -/

/-- The first `k` characters. -/
def front (s : String) (k : Nat) : String := String.ofList (s.toList.take k)

theorem utf8ByteSize_ofList (cs : List Char) :
    (String.ofList cs).utf8ByteSize = (cs.map Char.utf8Size).sum := by
  induction cs with
  | nil => rfl
  | cons c cs ih =>
    rw [String.ofList_cons, String.utf8ByteSize_append, String.utf8ByteSize_singleton, ih,
      List.map_cons, List.sum_cons]

theorem utf8ByteSize_front (s : String) (k : Nat) :
    (front s k).utf8ByteSize = bytesBefore s.toList k := by
  rw [front, utf8ByteSize_ofList, bytesBefore]

theorem le_of_mem_byteColumnsFrom {i n : Nat} {cs : List Char} (h : n ∈ byteColumnsFrom i cs) :
    i ≤ n := by
  induction cs generalizing i with
  | nil => cases h
  | cons c cs ih =>
    rw [byteColumnsFrom, List.mem_append] at h
    rcases h with h | h
    · exact Nat.le_of_eq (List.eq_of_mem_replicate h).symm
    · exact Nat.le_of_succ_le (ih h)

theorem pairwise_byteColumnsFrom (i : Nat) (cs : List Char) :
    (byteColumnsFrom i cs).Pairwise (· ≤ ·) := by
  induction cs generalizing i with
  | nil => exact .nil
  | cons c cs ih =>
    rw [byteColumnsFrom, List.pairwise_append]
    refine ⟨?_, ih (i + 1), fun m hm n hn => ?_⟩
    · exact List.pairwise_replicate.2 (Or.inr (Nat.le_refl i))
    · rw [List.eq_of_mem_replicate hm]
      exact Nat.le_of_succ_le (le_of_mem_byteColumnsFrom hn)

/-- The byte at `b` is part of character `k`. -/
theorem getElem?_byteColumnsFrom_iff {i b n : Nat} {cs : List Char} :
    (byteColumnsFrom i cs)[b]? = some n ↔
      ∃ k < cs.length, n = i + k ∧ bytesBefore cs k ≤ b ∧ b < bytesBefore cs (k + 1) := by
  induction cs generalizing i b with
  | nil => simp [byteColumnsFrom]
  | cons c cs ih =>
    rw [byteColumnsFrom]
    by_cases hb : b < c.utf8Size
    · rw [List.getElem?_append_left (by simpa using hb), List.getElem?_replicate, if_pos hb]
      constructor
      · intro h
        refine ⟨0, by simp, (Option.some.inj h).symm, Nat.zero_le b, ?_⟩
        rw [bytesBefore_cons_succ]
        omega
      · rintro ⟨k, -, rfl, hle, -⟩
        cases k with
        | zero => rfl
        | succ k =>
          rw [bytesBefore_cons_succ] at hle
          omega
    · rw [List.getElem?_append_right (by simpa using hb), List.length_replicate, ih]
      constructor
      · rintro ⟨k, hk, rfl, hle, hlt⟩
        refine ⟨k + 1, by simpa using hk, by omega, ?_, ?_⟩ <;> rw [bytesBefore_cons_succ] <;> omega
      · rintro ⟨k, hk, rfl, hle, hlt⟩
        cases k with
        | zero =>
          rw [bytesBefore_cons_succ, bytesBefore_zero] at hlt
          omega
        | succ k =>
          rw [bytesBefore_cons_succ] at hle hlt
          exact ⟨k, by simpa using hk, by omega, by omega, by omega⟩

/-- **The table of byte columns.**  It has an entry for every byte, and the entries never go
    back; that of a byte is the character whose bytes it is one of. -/
theorem byteColumns_spec (s : String) :
    (byteColumns s).length = s.utf8ByteSize ∧ (byteColumns s).Pairwise (· ≤ ·) ∧
      ∀ b k, (byteColumns s)[b]? = some k ↔
        k < s.length ∧ (front s k).utf8ByteSize ≤ b ∧ b < (front s (k + 1)).utf8ByteSize := by
  refine ⟨length_byteColumns s, pairwise_byteColumnsFrom 0 _, fun b k => ?_⟩
  rw [byteColumns, getElem?_byteColumnsFrom_iff, utf8ByteSize_front, utf8ByteSize_front,
    String.length_toList]
  constructor
  · rintro ⟨j, hj, rfl, hle, hlt⟩
    rw [Nat.zero_add]
    exact ⟨hj, hle, hlt⟩
  · rintro ⟨hk, hle, hlt⟩
    exact ⟨k, hk, (Nat.zero_add k).symm, hle, hlt⟩

end Text

namespace Conversion

open Text

/-! ## Nodes -/

/-- The classes of nodes that begin with another expression, which is asked where it starts. -/
def ledClasses : List String := ["Attribute", "Subscript", "BinOp", "Call"]

theorem startOfNode_of_not_led {lines : List String} {r : NodeRef} {fields : List (String × Part)}
    (h : r.cls ∉ ledClasses) : startOfNode lines r fields = recordedStart lines r := by
  simp only [ledClasses, List.mem_cons, List.not_mem_nil, or_false, not_or] at h
  obtain ⟨hattribute, hsubscript, hbinOp, hcall⟩ := h
  simp [startOfNode, hattribute, hsubscript, hbinOp, hcall]

theorem recordedStart_front {lines : List String} {path : Path} {cls line : String} {row : Int}
    {more : List Int} {i : Nat} (hline : signedGet? lines (row - 1) = some line)
    (hi : i < line.length) :
    recordedStart lines ⟨path, cls, row :: (front line i).utf8ByteSize :: more⟩ = .ok ⟨row, i⟩ := by
  have hchars : i < line.toList.length := by rwa [String.length_toList]
  have hcolumn := characterColumn?_bytesBefore hchars
  rw [← utf8ByteSize_front] at hcolumn
  simp [recordedStart, NodeRef.start?, Tree.startOf?, hline, hcolumn]

/-- **Byte columns become character columns.**  A node that does not begin with another
    expression, recorded at a row of the source and at the byte column after the first `i`
    characters of its line, where there is a further one, starts at character column `i`.  The
    table of byte columns says so for every line, and in a line of one-byte characters both
    columns are the same.  The table of any text has an entry for every byte, its entries
    never go back, and that of a byte is the character whose bytes it is one of. -/
theorem start_in_characters :
    (∀ (lines : List String) (path : Path) (cls line : String) (row : Int) (more : List Int)
      (fields : List (String × Tree)) (i : Nat), cls ∉ ledClasses →
      signedGet? lines (row - 1) = some line → i < line.length →
      (toPart lines path (.node cls (row :: (front line i).utf8ByteSize :: more) fields)).start =
        .ok ⟨row, i⟩ ∧
      (byteColumns line)[(front line i).utf8ByteSize]? = some i ∧
      (isOneByte line = true → (front line i).utf8ByteSize = i)) ∧
    ∀ s : String, (byteColumns s).length = s.utf8ByteSize ∧ (byteColumns s).Pairwise (· ≤ ·) ∧
      ∀ b k, (byteColumns s)[b]? = some k ↔
        k < s.length ∧ (front s k).utf8ByteSize ≤ b ∧ b < (front s (k + 1)).utf8ByteSize := by
  refine ⟨?_, byteColumns_spec⟩
  intro lines path cls line row more fields i hcls hline hi
  have hchars : i < line.toList.length := by rwa [String.length_toList]
  refine ⟨?_, ?_, fun hone => ?_⟩
  · rw [toPart, Part.start, startOfNode_of_not_led hcls]
    exact recordedStart_front hline hi
  · rw [utf8ByteSize_front, byteColumns, getElem?_byteColumnsFrom hchars, Nat.zero_add]
  · have hbytes : ∀ c ∈ line.toList, c.utf8Size = 1 := by
      simpa [isOneByte] using hone
    rw [utf8ByteSize_front, bytesBefore_of_oneByte hbytes (Nat.le_of_lt hchars)]

/-- A line with characters of two, three and four bytes, and one of one-byte characters. -/
def wideLines : List String := ["é€𝄞=x\n", "a=x\n"]

/-- The name `x` stands at byte 10 of the first line and at byte 2 of the second. -/
theorem wideLines_start_in_characters :
    (toPart wideLines .root (.node "Name" [1, 10] [])).start = .ok ⟨1, 4⟩ ∧
    (toPart wideLines .root (.node "Name" [2, 2] [])).start = .ok ⟨2, 2⟩ ∧
    byteColumns "é€𝄞=x" = [0, 0, 1, 1, 1, 2, 2, 2, 2, 3, 4] := by
  have hwide := start_in_characters.1 wideLines .root "Name" "é€𝄞=x\n" 1 [] [] 4
    (by decide) rfl (by decide)
  have hnarrow := start_in_characters.1 wideLines .root "Name" "a=x\n" 2 [] [] 2
    (by decide) rfl (by decide)
  exact ⟨hwide.1, hnarrow.1, by decide⟩

end Conversion

end SourceScribe
