/-
  Tokens with what is written before each of them.

  A text that is put together from tokens may have the gap before a token once, or not
  at all, or twice, or another gap in its place.  The lead of a token tells which; tokens
  with their leads are marked, and `spelledAs` is the text that they give.  With every
  gap there once it is the text that the tokens spell (`spelledAs_once`).  Where some gaps
  are there more than once, `marked` puts the leads.

  A layout is a set of such lists of marked tokens.  Layouts are put together like regular
  expressions.
-/
import Mathlib
import SourceScribe.Proofs.Token.Spelling

namespace SourceScribe

open scoped Computability

/-! ## Leads -/

/-- What is written before the text of a token: the gap before it, a number of times; or,
    in its place, the gap before the token that comes before. -/
inductive Lead where
  | own (times : Nat)
  | former
deriving DecidableEq

namespace Lead

abbrev omitted : Lead := own 0
abbrev once : Lead := own 1
abbrev twice : Lead := own 2

end Lead

/-- A token with its lead. -/
abbrev Marked := Lead × Token

/-- The last two tokens of a run, as far as there are any. -/
structure Recent where
  previous : Option Token
  current : Option Token

/-- The last two tokens after one more. -/
def Recent.past (r : Recent) (t : Token) : Recent :=
  ⟨r.current, some t⟩

/-- The last two tokens after some more. -/
def Recent.pastAll (r : Recent) (ts : List Token) : Recent :=
  ts.foldl Recent.past r

theorem Recent.pastAll_append (r : Recent) (ts us : List Token) :
    r.pastAll (ts ++ us) = (r.pastAll ts).pastAll us :=
  List.foldl_append

/-- The gap between two tokens that may be there or not. -/
def gapBetween : Option Token → Option Token → String
  | some a, some b => a.gap b
  | _, _ => ""

/-- A text a number of times over. -/
def repeated (s : String) : Nat → String
  | 0 => ""
  | n + 1 => repeated s n ++ s

/-- What the lead of the next token, if there is one, writes. -/
def Lead.text (r : Recent) (next : Option Token) : Lead → String
  | own n => repeated (gapBetween r.current next) n
  | former => gapBetween r.previous r.current

@[simp] theorem Lead.text_omitted (r : Recent) (next : Option Token) :
    omitted.text r next = "" := rfl

@[simp] theorem Lead.text_once (r : Recent) (next : Option Token) :
    once.text r next = gapBetween r.current next := by
  simp [Lead.text, repeated]

/-! ## Marked tokens -/

/-- The text of marked tokens. -/
def spelledAs (r : Recent) : List Marked → String
  | [] => ""
  | (l, t) :: m => l.text r (some t) ++ t.text ++ spelledAs (r.past t) m

/-- The tokens without their leads. -/
def tokensOf (m : List Marked) : List Token :=
  m.map Prod.snd

@[simp] theorem tokensOf_nil : tokensOf [] = [] := rfl

@[simp] theorem tokensOf_cons (l : Lead) (t : Token) (m : List Marked) :
    tokensOf ((l, t) :: m) = t :: tokensOf m := rfl

@[simp] theorem tokensOf_append (m m' : List Marked) :
    tokensOf (m ++ m') = tokensOf m ++ tokensOf m' :=
  List.map_append

theorem spelledAs_append (r : Recent) (m m' : List Marked) :
    spelledAs r (m ++ m') = spelledAs r m ++ spelledAs (r.pastAll (tokensOf m)) m' := by
  induction m generalizing r with
  | nil => simp [spelledAs, Recent.pastAll]
  | cons x m ih =>
    obtain ⟨l, t⟩ := x
    simp only [List.cons_append, spelledAs, ih, String.append_assoc]
    rfl

/-- With the gap before each of them once, marked tokens are spelled as they stand. -/
theorem spelledAs_once (previous : Option Token) (a : Token) {m : List Marked}
    (h : ∀ x ∈ m, x.1 = .once) : spelledAs ⟨previous, some a⟩ m = a.spelled (tokensOf m) := by
  induction m generalizing previous a with
  | nil => rfl
  | cons x m ih =>
    obtain ⟨l, t⟩ := x
    obtain ⟨hl, hm⟩ := List.forall_mem_cons.1 h
    obtain rfl : l = .once := hl
    simp only [spelledAs, Token.spelled, tokensOf_cons, Lead.text_once, Recent.past, ih _ _ hm]
    rfl

/-- The tokens with the gap before each of them once, and as many times more as `extra` says
    for the number of tokens that are left.  `after` more tokens come after them. -/
def marked (extra : Nat → Nat) (after : Nat) : List Token → List Marked
  | [] => []
  | t :: ts => (.own (extra (ts.length + 1 + after) + 1), t) :: marked extra after ts

@[simp] theorem tokensOf_marked (extra : Nat → Nat) (after : Nat) (ts : List Token) :
    tokensOf (marked extra after ts) = ts := by
  induction ts with
  | nil => rfl
  | cons t ts ih => rw [marked, tokensOf_cons, ih]

theorem marked_append (extra : Nat → Nat) (after : Nat) (ts us : List Token) :
    marked extra after (ts ++ us) =
      marked extra (us.length + after) ts ++ marked extra after us := by
  induction ts with
  | nil => rfl
  | cons t ts ih =>
    have hleft : (ts ++ us).length + 1 + after = ts.length + 1 + (us.length + after) := by
      rw [List.length_append]
      omega
    rw [List.cons_append, marked, marked, ih, hleft, List.cons_append]

/-- Only the numbers of tokens that are left at one of the tokens count. -/
theorem marked_congr {extra extra' : Nat → Nat} {after : Nat} {ts : List Token}
    (h : ∀ k, after < k → k ≤ ts.length + after → extra k = extra' k) :
    marked extra after ts = marked extra' after ts := by
  induction ts with
  | nil => rfl
  | cons t ts ih =>
    have hhead := h (ts.length + 1 + after) (by omega) (by simp)
    have htail := ih fun k hk hle => h k hk (by rw [List.length_cons]; omega)
    rw [marked, marked, hhead, htail]

theorem once_of_mem_marked {extra : Nat → Nat} (h : ∀ k, extra k = 0) {after : Nat}
    {ts : List Token} {x : Marked} (hx : x ∈ marked extra after ts) : x.1 = .once := by
  induction ts with
  | nil => cases hx
  | cons t ts ih =>
    rcases List.mem_cons.1 hx with rfl | hx
    · simp [h]
    · exact ih hx

/-! ## Layouts -/

/-- A set of lists of marked tokens. -/
abbrev Layout := Language Marked

namespace Layout

/-- One token that is as asked. -/
def word (p : Token → Bool) (l : Lead) : Layout :=
  {m | ∃ t, p t = true ∧ m = [(l, t)]}

/-- Any number of tokens that are as asked, with the gap before each once. -/
def many (p : Token → Bool) : Layout :=
  (word p .once)∗

/-- Line breaks and comments. -/
abbrev fillers : Layout :=
  many Token.isFiller

/-- One token that is as asked with the line breaks and comments around it; the lead is
    that of the first of them. -/
def group (p : Token → Bool) (l : Lead) : Layout :=
  let one := word fun t => p t && !t.isFiller
  (one l + word Token.isFiller l * fillers * one .once) * fillers

/-- What stands after an item of a list. -/
abbrev commas : Layout :=
  many Token.isDelimiter

variable {p : Token → Bool} {l : Lead}

theorem mem_word {t : Token} (h : p t = true) : [(l, t)] ∈ word p l :=
  ⟨t, h, rfl⟩

theorem word_mono {q : Token → Bool} (h : ∀ t, p t = true → q t = true) : word p l ≤ word q l := by
  rintro m ⟨t, ht, rfl⟩
  exact mem_word (h t ht)

theorem one_le_many (p : Token → Bool) : 1 ≤ many p :=
  one_le_kstar

theorem word_mul_many (p : Token → Bool) : word p .once * many p ≤ many p :=
  mul_kstar_le_kstar

/-- A group whose first token is the one that is asked for. -/
theorem word_mul_fillers : word (fun t => p t && !t.isFiller) l * fillers ≤ group p l :=
  mul_le_mul_left (le_add_of_nonneg_right bot_le) fillers

/-- A group whose first token is a line break or comment. -/
theorem filler_mul_group : word Token.isFiller l * group p .once ≤ group p l := by
  set one := word (fun t => p t && !t.isFiller) .once with hone
  have hinner : one + word Token.isFiller .once * fillers * one ≤ fillers * one := by
    refine add_le ?_ ?_
    · simpa using mul_le_mul_left (one_le_many Token.isFiller) one
    · exact mul_le_mul_left (word_mul_many Token.isFiller) one
  calc word Token.isFiller l * group p .once
      ≤ word Token.isFiller l * (fillers * one * fillers) :=
        mul_le_mul_right (mul_le_mul_left hinner fillers) _
    _ = word Token.isFiller l * fillers * one * fillers := by simp only [mul_assoc]
    _ ≤ group p l := mul_le_mul_left (le_add_of_nonneg_left bot_le) fillers

end Layout

end SourceScribe
