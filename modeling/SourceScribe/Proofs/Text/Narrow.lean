/-
  Narrow texts.

  `narrow` puts an `a` in place of every character of more than one byte.  Lines and columns
  in characters stay what they are (`physicalLines_narrow`, `unifyNewlines_narrow`); columns
  in bytes become columns in characters.

  `characterColumn?_bytesBefore`: the column of a character in bytes tells its column in
  characters, and `bytesBefore_lt_iff`: both are in the same order.
-/
import Mathlib
import SourceScribe.Text.Columns
import SourceScribe.Text.Lines

namespace SourceScribe.Text

/-! ## Narrow characters -/

/-- The character itself if it is one byte, else an `a`. -/
def narrowChar (c : Char) : Char := if c.utf8Size = 1 then c else 'a'

/-- A text with an `a` in place of every character of more than one byte. -/
def narrow (s : String) : String := String.ofList (s.toList.map narrowChar)

@[simp] theorem toList_narrow (s : String) : (narrow s).toList = s.toList.map narrowChar := by
  simp [narrow]

theorem narrowChar_of_oneByte {c : Char} (h : c.utf8Size = 1) : narrowChar c = c := if_pos h

theorem utf8Size_narrowChar (c : Char) : (narrowChar c).utf8Size = 1 := by
  rw [narrowChar]
  split
  · assumption
  · rfl

/-- Only the character itself becomes a character of one byte other than `a`. -/
theorem narrowChar_eq_iff {c m : Char} (hm : m.utf8Size = 1) (ha : m ≠ 'a') :
    narrowChar c = m ↔ c = m := by
  constructor
  · intro h
    rw [narrowChar] at h
    split at h
    · exact h
    · exact absurd h.symm ha
  · rintro rfl
    exact narrowChar_of_oneByte hm

theorem isOneByte_narrow (s : String) : isOneByte (narrow s) = true := by
  simp [isOneByte, utf8Size_narrowChar]

theorem narrow_of_isOneByte {s : String} (h : isOneByte s = true) : narrow s = s := by
  have hsame : ∀ c ∈ s.toList, narrowChar c = c := by
    intro c hc
    have hbyte := List.all_eq_true.1 h c hc
    exact narrowChar_of_oneByte (by simpa using hbyte)
  rw [narrow, List.map_congr_left hsame, List.map_id', String.ofList_toList]

/-! ## Lines -/

theorem cutAfterLineFeed_narrow (cs : List Char) :
    cutAfterLineFeed (cs.map narrowChar) = (cutAfterLineFeed cs).map (List.map narrowChar) := by
  induction cs with
  | nil => rfl
  | cons c cs ih =>
    have hfeed : narrowChar c = '\n' ↔ c = '\n' := narrowChar_eq_iff rfl (by decide)
    rw [List.map_cons, cutAfterLineFeed, cutAfterLineFeed, ih]
    by_cases hc : c = '\n'
    · rw [if_pos (hfeed.2 hc), if_pos hc]
      rfl
    · rw [if_neg (mt hfeed.1 hc), if_neg hc]
      cases cutAfterLineFeed cs <;> rfl

theorem physicalLines_narrow (s : String) :
    physicalLines (narrow s) = (physicalLines s).map narrow := by
  rw [physicalLines, physicalLines, toList_narrow, cutAfterLineFeed_narrow, List.map_map,
    List.map_map]
  exact List.map_congr_left fun l _ => by simp [narrow]

theorem unifyChars_narrow (cs : List Char) :
    unifyChars (cs.map narrowChar) = (unifyChars cs).map narrowChar := by
  fun_induction unifyChars cs with
  | case1 => rfl
  | case2 cs ih =>
    have hcr : narrowChar '\r' = '\r' := rfl
    have hfeed : narrowChar '\n' = '\n' := rfl
    rw [List.map_cons, List.map_cons, List.map_cons, hcr, hfeed, unifyChars, ih]
  | case3 c cs hpair ih =>
    have hreturn : narrowChar c = '\r' ↔ c = '\r' := narrowChar_eq_iff rfl (by decide)
    have hnext : ∀ ds, narrowChar c = '\r' → cs.map narrowChar = '\n' :: ds → False := by
      intro ds hc hds
      cases cs with
      | nil => cases hds
      | cons d cs =>
        obtain ⟨hd, -⟩ := List.cons.inj hds
        obtain rfl : d = '\n' := (narrowChar_eq_iff rfl (by decide)).1 hd
        exact hpair cs (hreturn.1 hc) rfl
    rw [List.map_cons, unifyChars, ih, List.map_cons]
    · by_cases hc : c = '\r'
      · rw [if_pos (hreturn.2 hc), if_pos hc]
        rfl
      · rw [if_neg (mt hreturn.1 hc), if_neg hc]
    · exact hnext

theorem unifyNewlines_narrow (s : String) :
    unifyNewlines (narrow s) = narrow (unifyNewlines s) := by
  simp [unifyNewlines, narrow, unifyChars_narrow]

/-! ## Columns -/

/-- How many bytes the first `k` characters have. -/
def bytesBefore (cs : List Char) (k : Nat) : Nat := ((cs.take k).map Char.utf8Size).sum

@[simp] theorem bytesBefore_zero (cs : List Char) : bytesBefore cs 0 = 0 := rfl

@[simp] theorem bytesBefore_cons_succ (c : Char) (cs : List Char) (k : Nat) :
    bytesBefore (c :: cs) (k + 1) = c.utf8Size + bytesBefore cs k := by
  simp [bytesBefore]

theorem bytesBefore_of_oneByte {cs : List Char} (h : ∀ c ∈ cs, c.utf8Size = 1) {k : Nat}
    (hk : k ≤ cs.length) : bytesBefore cs k = k := by
  induction cs generalizing k with
  | nil => simp_all
  | cons c cs ih =>
    obtain ⟨hc, hcs⟩ := List.forall_mem_cons.1 h
    cases k with
    | zero => rfl
    | succ k =>
      rw [bytesBefore_cons_succ, hc, ih hcs (Nat.le_of_succ_le_succ hk), Nat.add_comm]

/-- Columns in bytes and in characters are in the same order. -/
theorem bytesBefore_lt_bytesBefore {cs : List Char} {j k : Nat} (hjk : j < k)
    (hk : k ≤ cs.length) : bytesBefore cs j < bytesBefore cs k := by
  induction cs generalizing j k with
  | nil => simp_all
  | cons c cs ih =>
    obtain ⟨k, rfl⟩ := Nat.exists_eq_succ_of_ne_zero (Nat.ne_zero_of_lt hjk)
    have hc := c.utf8Size_pos
    cases j with
    | zero => rw [bytesBefore_zero, bytesBefore_cons_succ]; omega
    | succ j =>
      have := ih (Nat.lt_of_succ_lt_succ hjk) (Nat.le_of_succ_le_succ hk)
      rw [bytesBefore_cons_succ, bytesBefore_cons_succ]; omega

theorem bytesBefore_lt_iff {cs : List Char} {j k : Nat} (hj : j ≤ cs.length) (hk : k ≤ cs.length) :
    bytesBefore cs j < bytesBefore cs k ↔ j < k := by
  refine ⟨fun h => ?_, fun h => bytesBefore_lt_bytesBefore h hk⟩
  by_contra hjk
  rcases Nat.lt_or_eq_of_le (Nat.le_of_not_lt hjk) with hkj | rfl
  · exact absurd (bytesBefore_lt_bytesBefore hkj hj) (Nat.lt_asymm h)
  · exact Nat.lt_irrefl _ h

theorem getElem?_byteColumnsFrom {cs : List Char} {k : Nat} (hk : k < cs.length) (i : Nat) :
    (byteColumnsFrom i cs)[bytesBefore cs k]? = some (i + k) := by
  induction cs generalizing k i with
  | nil => simp at hk
  | cons c cs ih =>
    have hc := c.utf8Size_pos
    rw [byteColumnsFrom]
    cases k with
    | zero => simp [hc]
    | succ k =>
      have hlater := ih (Nat.lt_of_succ_lt_succ hk) (i + 1)
      rw [bytesBefore_cons_succ, List.getElem?_append_right (by simp)]
      simpa [Nat.add_assoc, Nat.add_comm 1 k] using hlater

/-- **The byte column of a character gives its column in characters.** -/
theorem characterColumn?_bytesBefore {line : String} {k : Nat} (hk : k < line.toList.length) :
    characterColumn? line (bytesBefore line.toList k) = some (k : Int) := by
  rw [characterColumn?]
  split
  · rename_i hone
    have hbytes : ∀ c ∈ line.toList, c.utf8Size = 1 := by
      simpa [isOneByte] using hone
    rw [bytesBefore_of_oneByte hbytes (Nat.le_of_lt hk)]
  · rw [signedGet?_natCast, byteColumns, getElem?_byteColumnsFrom hk]
    simp

end SourceScribe.Text
