/-
  A quoted text tells the text.

  What stands between quotes is a code word for every character, and no code word is the
  beginning of another one; none begins with the quote.  So a quoted text says where it
  ends and what it holds, whatever follows it: `quoteChars_append_inj` for texts,
  `quoteBytes_append_inj` for byte strings.
-/
import Mathlib
import SourceScribe.Text.Quoted

namespace SourceScribe.Text

/-! ## Digits -/

theorem length_hexDigits (width n : Nat) : (hexDigits width n).length = width := by
  induction width generalizing n with
  | zero => rfl
  | succ width ih => rw [hexDigits, List.length_append, ih, List.length_singleton]

theorem digitChar_inj : ∀ a < 16, ∀ b < 16, Nat.digitChar a = Nat.digitChar b → a = b := by
  decide

theorem hexDigits_inj {width n m : Nat} (hn : n < 16 ^ width) (hm : m < 16 ^ width)
    (h : hexDigits width n = hexDigits width m) : n = m := by
  induction width generalizing n m with
  | zero => simp only [Nat.pow_zero] at hn hm; omega
  | succ width ih =>
    rw [Nat.pow_succ] at hn hm
    rw [hexDigits, hexDigits] at h
    obtain ⟨hhigh, hlow⟩ := List.append_inj' h rfl
    have hdiv : n / 16 = m / 16 :=
      ih (Nat.div_lt_of_lt_mul (by omega)) (Nat.div_lt_of_lt_mul (by omega)) hhigh
    have hmod : n % 16 = m % 16 :=
      digitChar_inj _ (Nat.mod_lt _ (by decide)) _ (Nat.mod_lt _ (by decide))
        (List.singleton_inj.1 hlow)
    omega

/-! ## Code words -/

/-- How a character is written between quotes `q`, where `shown` tells the characters that
    need no number. -/
def codeWord (shown : Char → Bool) (q c : Char) : List Char :=
  (letterEscape? q c).getD (if shown c then [c] else numericEscape c.toNat)

/-- The character that a letter after a backslash stands for. -/
def letterMeaning? : Char → Option Char
  | 'n' => some '\n'
  | 'r' => some '\r'
  | 't' => some '\t'
  | '\\' => some '\\'
  | '\'' => some '\''
  | '"' => some '"'
  | _ => none

/-- The number of digits that a letter after a backslash asks for. -/
def digitCount? : Char → Option Nat
  | 'x' => some 2
  | 'u' => some 4
  | 'U' => some 8
  | _ => none

theorem digitCount?_of_letterMeaning? {k c : Char} (h : letterMeaning? k = some c) :
    digitCount? k = none := by
  unfold letterMeaning? at h
  split at h
  all_goals first | rfl | cases h

/-- The three kinds of code words. -/
inductive CodeWord (q c : Char) : List Char → Prop where
  | itself (hslash : c ≠ '\\') (hquote : c ≠ q) : CodeWord q c [c]
  | letter {k : Char} (h : letterMeaning? k = some c) : CodeWord q c ['\\', k]
  | number {k : Char} {width : Nat} (h : digitCount? k = some width)
      (hlt : c.toNat < 16 ^ width) : CodeWord q c ('\\' :: k :: hexDigits width c.toNat)

/-- What stands for a text is put between these quotes. -/
def IsQuote (q : Char) : Prop := q = '\'' ∨ q = '"'

theorem isQuote_quoteFor (cs : List Char) : IsQuote (quoteFor cs) := by
  unfold quoteFor
  split
  · exact Or.inr rfl
  · exact Or.inl rfl

theorem IsQuote.ne_slash {q : Char} (hq : IsQuote q) : q ≠ '\\' := by
  rcases hq with rfl | rfl <;> decide

theorem IsQuote.letterMeaning? {q : Char} (hq : IsQuote q) : letterMeaning? q = some q := by
  rcases hq with rfl | rfl <;> rfl

theorem codeWord_numeric {q c : Char} : CodeWord q c (numericEscape c.toNat) := by
  unfold numericEscape
  split
  · exact .number rfl ‹_›
  split
  · exact .number rfl ‹_›
  · have hlt : c.toNat < 0x110000 := by
      rcases c.valid with h | h
      · exact Nat.lt_trans h (by decide)
      · exact h.2
    exact .number rfl (Nat.lt_trans hlt (by decide))

theorem codeWord_spec (shown : Char → Bool) {q : Char} (hq : IsQuote q) (c : Char) :
    CodeWord q c (codeWord shown q c) := by
  unfold codeWord letterEscape?
  split
  · rename_i h
    rw [Bool.or_eq_true, decide_eq_true_eq, decide_eq_true_eq] at h
    rcases h with rfl | rfl
    · exact .letter hq.letterMeaning?
    · exact .letter rfl
  rename_i h
  rw [Bool.or_eq_true, decide_eq_true_eq, decide_eq_true_eq, not_or] at h
  split
  · subst c; exact .letter rfl
  split
  · subst c; exact .letter rfl
  split
  · subst c; exact .letter rfl
  rw [Option.getD_none]
  split
  · exact .itself h.2 h.1
  · exact codeWord_numeric

/-- No code word begins with the quote. -/
theorem CodeWord.head {q c : Char} {w : List Char} (hq : IsQuote q) (h : CodeWord q c w) :
    ∃ e es, w = e :: es ∧ e ≠ q := by
  cases h with
  | itself _ hquote => exact ⟨c, [], rfl, hquote⟩
  | letter => exact ⟨'\\', _, rfl, hq.ne_slash.symm⟩
  | number => exact ⟨'\\', _, rfl, hq.ne_slash.symm⟩

/-- No code word begins another one. -/
theorem CodeWord.append_inj {q c d : Char} {v w x y : List Char} (hv : CodeWord q c v)
    (hw : CodeWord q d w) (h : v ++ x = w ++ y) : c = d ∧ x = y := by
  cases hv with
  | itself hslash =>
    cases hw with
    | itself => exact ⟨(List.cons.inj h).1, (List.cons.inj h).2⟩
    | letter => exact absurd (List.cons.inj h).1 hslash
    | number => exact absurd (List.cons.inj h).1 hslash
  | letter hk =>
    cases hw with
    | itself hslash => exact absurd (List.cons.inj h).1.symm hslash
    | letter hk' =>
      obtain ⟨rfl, hxy⟩ := List.cons.inj (List.cons.inj h).2
      exact ⟨Option.some.inj (hk.symm.trans hk'), hxy⟩
    | number hk' =>
      obtain ⟨rfl, -⟩ := List.cons.inj (List.cons.inj h).2
      rw [digitCount?_of_letterMeaning? hk] at hk'
      cases hk'
  | number hk hlt =>
    cases hw with
    | itself hslash => exact absurd (List.cons.inj h).1.symm hslash
    | letter hk' =>
      obtain ⟨rfl, -⟩ := List.cons.inj (List.cons.inj h).2
      rw [digitCount?_of_letterMeaning? hk'] at hk
      cases hk
    | number hk' hlt' =>
      obtain ⟨rfl, hrest⟩ := List.cons.inj (List.cons.inj h).2
      obtain rfl := Option.some.inj (hk.symm.trans hk')
      obtain ⟨hdigits, hxy⟩ :=
        List.append_inj hrest (by rw [length_hexDigits, length_hexDigits])
      exact ⟨Char.toNat_inj.1 (hexDigits_inj hlt hlt' hdigits), hxy⟩

/-- Code words up to the quote that ends them. -/
theorem flatMap_codeWord_append_inj {shown : Char → Bool} {q : Char} (hq : IsQuote q)
    {cs ds x y : List Char}
    (h : cs.flatMap (codeWord shown q) ++ q :: x = ds.flatMap (codeWord shown q) ++ q :: y) :
    cs = ds ∧ x = y := by
  have hends (d : Char) (ds x y : List Char) :
      q :: x ≠ (d :: ds).flatMap (codeWord shown q) ++ y := by
    obtain ⟨e, es, hd, he⟩ := (codeWord_spec shown hq d).head hq
    rw [List.flatMap_cons, hd]
    exact fun h => he (List.cons.inj h).1.symm
  induction cs generalizing ds with
  | nil =>
    cases ds with
    | nil => exact ⟨rfl, (List.cons.inj h).2⟩
    | cons d ds => exact absurd h (hends d ds x _)
  | cons c cs ih =>
    cases ds with
    | nil => exact absurd h.symm (hends c cs y _)
    | cons d ds =>
      rw [List.flatMap_cons, List.flatMap_cons, List.append_assoc, List.append_assoc] at h
      obtain ⟨rfl, hrest⟩ := (codeWord_spec shown hq c).append_inj (codeWord_spec shown hq d) h
      obtain ⟨rfl, hxy⟩ := ih hrest
      exact ⟨rfl, hxy⟩

/-- What stands between quotes of either kind. -/
theorem quoted_append_inj (shown : Char → Bool) {cs ds x y : List Char}
    (h : quoteFor cs :: cs.flatMap (codeWord shown (quoteFor cs)) ++ [quoteFor cs] ++ x =
      quoteFor ds :: ds.flatMap (codeWord shown (quoteFor ds)) ++ [quoteFor ds] ++ y) :
    cs = ds ∧ x = y := by
  simp only [List.cons_append, List.append_assoc, List.nil_append, List.cons.injEq] at h
  rw [← h.1] at h
  exact flatMap_codeWord_append_inj (isQuote_quoteFor cs) h.2

/-! ## Texts and byte strings -/

/-- **A quoted text tells the text**, and where it ends. -/
theorem quoteChars_append_inj {cs ds x y : List Char}
    (h : quoteChars cs ++ x = quoteChars ds ++ y) : cs = ds ∧ x = y :=
  quoted_append_inj isPrintable h

theorem quoteBytes_head (bs : List UInt8) :
    ∃ q r, (quoteBytes bs).toList = 'b' :: q :: r ∧ IsQuote q :=
  ⟨_, _, String.toList_ofList, isQuote_quoteFor _⟩

theorem byteChar_inj {a b : UInt8} (h : Char.ofNat a.toNat = Char.ofNat b.toNat) : a = b := by
  have hnumber (n : UInt8) : (Char.ofNat n.toNat).toNat = n.toNat := by
    have hvalid : n.toNat.isValidChar := Or.inl (Nat.lt_trans n.toNat_lt (by decide))
    rw [Char.ofNat, dif_pos hvalid]
    rfl
  rw [← UInt8.toNat_inj, ← hnumber a, h, hnumber b]

/-- **A quoted byte string tells the bytes**, and where it ends. -/
theorem quoteBytes_append_inj {as bs : List UInt8} {x y : List Char}
    (h : (quoteBytes as).toList ++ x = (quoteBytes bs).toList ++ y) : as = bs ∧ x = y := by
  rw [quoteBytes, quoteBytes, String.toList_ofList, String.toList_ofList] at h
  obtain ⟨hbytes, hxy⟩ := quoted_append_inj (fun c => 0x20 ≤ c.toNat && c.toNat ≤ 0x7E)
    (List.cons.inj h).2
  exact ⟨(List.map_inj_right fun _ _ => byteChar_inj).1 hbytes, hxy⟩

end SourceScribe.Text
