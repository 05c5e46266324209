/-
  What a step of writing leaves on the record, and what it does when run again.

  A step settles on a set of entries if it succeeds only where all of them are lines of the
  source, adds exactly these to the record, none twice, and succeeds again, without changing
  the record, wherever they are already there (`Settles`).  Such steps compose
  (`Settles.seq`), so a page settles on the entries that its parts settle on together:
  what is shown may depend on the record, but not what is added to it.

  The lines of a string are found by going up from its last line to a line that begins
  with a triple quote: `InString` says which these are, and `noteString_settles` that they
  are the lines added.
-/
import SourceScribe.Page.Basic

namespace SourceScribe.Page

/-- An entry of the record: a statement and a line. -/
abbrev Entry := Path × Int

/-- Every recorded line is a line of the source. -/
def Record.Shown (lines : List String) (r : Record) : Prop :=
  ∀ e ∈ r.entries, (lineAt? lines e.2).isSome

/-- `m`, run on `r` with the outcome `r'`, added the entries `A`. -/
structure Settled {α : Type} (lines : List String) (A : Entry → Prop) (m : Writing α)
    (r r' : Record) : Prop where
  shown : ∀ e, A e → (lineAt? lines e.2).isSome
  entries : ∀ e, e ∈ r'.entries ↔ e ∈ r.entries ∨ A e
  distinct : r.entries.Nodup → r'.entries.Nodup
  again : ∀ q : Record, q.Shown lines → (∀ e, A e → e ∈ q.entries) → ∃ b, m q = .ok b q

/-- Whenever `m` succeeds it adds the entries `A`. -/
def Settles {α : Type} (lines : List String) (A : Entry → Prop) (m : Writing α) : Prop :=
  ∀ r a r', m r = .ok a r' → Settled lines A m r r'

/-! ## Composing steps -/

theorem bind_ok {α β : Type} {m : Writing α} {k : α → Writing β} {r r' : Record} {b : β} :
    (m >>= k) r = .ok b r' ↔ ∃ a r₁, m r = .ok a r₁ ∧ k a r₁ = .ok b r' := by
  show EStateM.bind m k r = .ok b r' ↔ _
  cases h : m r with
  | ok a r₁ =>
    simp only [EStateM.bind, h]
    constructor
    · exact fun hk => ⟨a, r₁, rfl, hk⟩
    · rintro ⟨_, _, ⟨⟩, hk⟩
      exact hk
  | error f r₁ => simp [EStateM.bind, h]

section
variable {α β γ : Type} {lines : List String} {A B : Entry → Prop}

theorem settles_pure (a : α) : Settles lines (fun _ => False) (pure a : Writing α) := by
  rintro r _ _ ⟨⟩
  exact ⟨fun _ => False.elim, fun e => (or_iff_left id).symm, id, fun q _ _ => ⟨a, rfl⟩⟩

theorem settles_throw (A : Entry → Prop) (f : Fault) : Settles lines A (throw f : Writing α) :=
  fun _ _ _ h => nomatch h

/-- Two steps that do not depend on each other's results. -/
theorem Settles.seq {m : Writing α} {k : Writing β} (hm : Settles lines A m)
    (hk : Settles lines B k) (f : α → β → γ) :
    Settles lines (fun e => A e ∨ B e) (do let a ← m; let b ← k; return f a b) := by
  intro r c r' h
  obtain ⟨a, r₁, ha, h⟩ := bind_ok.1 h
  obtain ⟨b, r₂, hb, h⟩ := bind_ok.1 h
  obtain ⟨hA, hrA, hdA, againA⟩ := hm r a r₁ ha
  obtain ⟨hB, hrB, hdB, againB⟩ := hk r₁ b r₂ hb
  cases h
  refine ⟨fun e => Or.rec (hA e) (hB e), fun e => ?_, hdB ∘ hdA, fun q hq hAB => ?_⟩
  · rw [hrB, hrA, or_assoc]
  · obtain ⟨a', ha'⟩ := againA q hq fun e he => hAB e (.inl he)
    obtain ⟨b', hb'⟩ := againB q hq fun e he => hAB e (.inr he)
    exact ⟨f a' b', bind_ok.2 ⟨a', q, ha', bind_ok.2 ⟨b', q, hb', rfl⟩⟩⟩

/-- Two steps of which the first has no result. -/
theorem Settles.andThen {m : Writing α} {k : Writing β} (hm : Settles lines A m)
    (hk : Settles lines B k) : Settles lines (fun e => A e ∨ B e) (do let _ ← m; k) := by
  have hseq := hm.seq hk fun _ b => b
  simp only [bind_pure] at hseq
  exact hseq

theorem Settles.map {m : Writing α} (hm : Settles lines A m) (f : α → β) :
    Settles lines A (do let a ← m; return f a) := by
  intro r c r' h
  obtain ⟨a, r₁, ha, h⟩ := bind_ok.1 h
  obtain ⟨hA, hrA, hdA, againA⟩ := hm r a r₁ ha
  cases h
  refine ⟨hA, hrA, hdA, fun q hq hq' => ?_⟩
  obtain ⟨a', ha'⟩ := againA q hq hq'
  exact ⟨f a', bind_ok.2 ⟨a', q, ha', rfl⟩⟩

theorem Settles.congr {m : Writing α} (hm : Settles lines A m) (h : ∀ e, A e ↔ B e) :
    Settles lines B m := by
  obtain rfl : A = B := funext fun e => propext (h e)
  exact hm

theorem Settles.when {m : Writing Unit} (hm : Settles lines A m) (b : Bool) :
    Settles lines (fun e => b = true ∧ A e) (if b then m else pure ()) := by
  split
  · rename_i hb
    exact hm.congr fun e => by simp [hb]
  · rename_i hb
    exact (settles_pure ()).congr fun e => by simp [hb]

end

/-! ## The lines of a string -/

/-- A line number that can be looked up. -/
theorem lineAt?_isSome {lines : List String} {number : Int} (h : 1 ≤ number)
    (h' : number ≤ lines.length) : (lineAt? lines number).isSome := by
  have hindex : 0 ≤ number - 1 := by omega
  have hlt : (number - 1).toNat < lines.length := by omega
  rw [lineAt?, Text.signedGet?, if_pos hindex, List.getElem?_eq_getElem hlt]
  rfl

/-- Whether a line of the source begins with a triple quote. -/
def opensAt (lines : List String) (number : Int) : Bool := (lineAt? lines number).any opensString

/-- Where the search for the start of a string that ends on line `number` begins: on the
    line above, if that one has nothing but three characters. -/
def searchFrom (lines : List String) (number : Int) : Int :=
  if (lineAt? lines number).any fun line => (Text.strip line).length = 3 then number - 1 else number

/-- Line `k` is above line `n`, and no line below it down to line `n` begins with a triple
    quote. -/
def Unopened (lines : List String) (n k : Int) : Prop :=
  k < n ∧ ∀ j, k < j → j ≤ n → opensAt lines j = false

/-- Line `k` is one of the lines above line `number` that belong to a string which ends
    there. -/
def InString (lines : List String) (number k : Int) : Prop :=
  k < number ∧ ∀ j, k < j → j ≤ searchFrom lines number → opensAt lines j = false

theorem not_unopened_of_opensAt {lines : List String} {n k : Int} (h : opensAt lines n = true) :
    ¬ Unopened lines n k := by
  rintro ⟨hk, hall⟩
  exact Bool.noConfusion (h.symm.trans (hall n hk (Int.le_refl n)))

theorem unopened_iff_of_not_opensAt {lines : List String} {n k : Int}
    (h : opensAt lines n = false) :
    Unopened lines n k ↔ k = n - 1 ∨ Unopened lines (n - 1) k := by
  constructor
  · rintro ⟨hk, hall⟩
    rcases Int.lt_or_eq_of_le (Int.le_sub_one_of_lt hk) with hlt | rfl
    · exact .inr ⟨hlt, fun j hj hj' => hall j hj (by omega)⟩
    · exact .inl rfl
  · rintro (rfl | ⟨hk, hall⟩)
    · refine ⟨by omega, fun j hj hj' => ?_⟩
      obtain rfl : j = n := by omega
      exact h
    · refine ⟨by omega, fun j hj hj' => ?_⟩
      rcases Int.lt_or_eq_of_le hj' with hlt | rfl
      · exact hall j hj (by omega)
      · exact h

theorem note_settles {lines : List String} {s : Path} {k : Int} (h : (lineAt? lines k).isSome) :
    Settles lines (fun e => e = (s, k)) (note s k) := by
  rintro r _ _ ⟨⟩
  refine ⟨fun e he => he ▸ h, fun e => ?_, fun hr => ?_, fun q _ hq => ⟨(), ?_⟩⟩
  · rw [Record.mem_add, or_comm]
  · show (r.add s k).entries.Nodup
    rw [Record.add]
    split
    · exact hr
    · rename_i hnew
      exact List.nodup_cons.2 ⟨hnew, hr⟩
  · show EStateM.Result.ok () (q.add s k) = .ok () q
    rw [Record.add, if_pos (hq _ rfl)]

theorem lineAt?_isSome_of_climb {lines : List String} {s : Path} {n : Int} {r r' : Record}
    {u : Unit} (h : climb lines s n r = .ok u r') : (lineAt? lines n).isSome := by
  rw [climb] at h
  cases hline : lineAt? lines n with
  | none => simp only [hline] at h; split at h <;> cases h
  | some line => rfl

/-- A search that has to go on adds the line above, if it succeeds there. -/
theorem note_climb_settles {lines : List String} {s : Path} {n : Int} {A : Entry → Prop}
    (h : Settles lines A (climb lines s (n - 1))) :
    Settles lines (fun e => e = (s, n - 1) ∨ A e)
      (do note s (n - 1); climb lines s (n - 1)) := by
  intro r a r' hrun
  obtain ⟨_, r₁, _, hclimb⟩ := bind_ok.1 hrun
  exact (note_settles (lineAt?_isSome_of_climb hclimb)).andThen h r a r' hrun

theorem climb_settles (lines : List String) (s : Path) (n : Int) :
    Settles lines (fun e => e.1 = s ∧ Unopened lines n e.2) (climb lines s n) := by
  induction n using climb.induct lines with
  | case1 n h =>
    rw [climb, dif_pos h]
    exact settles_throw _ _
  | case2 n h hline =>
    rw [climb, dif_neg h, hline]
    exact settles_throw _ _
  | case3 n h line hline hopens =>
    have hopensAt : opensAt lines n = true := by rw [opensAt, hline, Option.any_some, hopens]
    rw [climb, dif_neg h, hline]
    simp only [hopens, if_true]
    refine (settles_pure ()).congr fun e => (iff_false_intro ?_).symm
    exact fun he => not_unopened_of_opensAt hopensAt he.2
  | case4 n h line hline hopens ih =>
    have hopensAt : opensAt lines n = false := by
      rw [opensAt, hline, Option.any_some, Bool.eq_false_iff.2 hopens]
    rw [climb, dif_neg h, hline]
    simp only [hopens, Bool.false_eq_true, if_false]
    refine (note_climb_settles ih).congr fun e => ?_
    rw [unopened_iff_of_not_opensAt hopensAt, Prod.ext_iff, ← and_or_left]

theorem noteString_settles (lines : List String) (s : Path) (number : Int) :
    Settles lines (fun e => e.1 = s ∧ InString lines number e.2) (noteString lines s number) := by
  rw [noteString]
  split
  · exact settles_throw _ _
  · rename_i line hline
    split
    · rename_i hthree
      have hfrom : searchFrom lines number = number - 1 := by simp [searchFrom, hline, hthree]
      refine (note_climb_settles (climb_settles lines s (number - 1))).congr fun e => ?_
      rw [InString, hfrom, Prod.ext_iff, ← and_or_left]
      refine and_congr_right fun _ => ⟨?_, ?_⟩
      · rintro (hk | ⟨hk, hall⟩)
        · exact ⟨by omega, fun j hj hj' => by omega⟩
        · exact ⟨by omega, hall⟩
      · rintro ⟨hk, hall⟩
        rcases Int.lt_or_eq_of_le (Int.le_sub_one_of_lt hk) with hlt | heq
        · exact .inr ⟨hlt, hall⟩
        · exact .inl heq
    · rename_i hthree
      have hfrom : searchFrom lines number = number := by simp [searchFrom, hline, hthree]
      refine (climb_settles lines s number).congr fun e => ?_
      rw [InString, hfrom, Unopened]

/-! ## Rows -/

theorem lineRows_eq (lines : List String) :
    ∀ numbers, (∀ k ∈ numbers, (lineAt? lines k).isSome) →
      ∃ rows, lineRows lines numbers = pure rows
  | [], _ => ⟨"", rfl⟩
  | k :: numbers, h => by
    obtain ⟨line, hline⟩ := Option.isSome_iff_exists.1 (h k List.mem_cons_self)
    obtain ⟨rows, hrows⟩ := lineRows_eq lines numbers fun j hj => h j (List.mem_cons_of_mem _ hj)
    exact ⟨lineRow k line ++ rows, by rw [lineRows, hline, hrows]; rfl⟩

theorem lineRows_ok {lines : List String} {rows : String} {r r' : Record} :
    ∀ {numbers}, lineRows lines numbers r = .ok rows r' → r' = r := by
  intro numbers
  induction numbers generalizing rows r r' with
  | nil => rintro ⟨⟩; rfl
  | cons k numbers ih =>
    intro h
    rw [lineRows] at h
    cases hline : lineAt? lines k with
    | none => rw [hline] at h; cases h
    | some line =>
      rw [hline] at h
      obtain ⟨more, r₁, hmore, h⟩ := bind_ok.1 h
      cases h
      exact ih hmore

/-- The lines of a statement can be shown if all recorded lines are in the source. -/
theorem statementLines_ok {lines : List String} {r : Record} (h : r.Shown lines) (s : Path) :
    ∃ shown, statementLines lines s r = .ok shown r := by
  have hlines : ∀ k ∈ r.lines s, (lineAt? lines k).isSome :=
    fun k hk => h _ (Record.mem_lines.1 hk)
  obtain ⟨rows, hrows⟩ := lineRows_eq lines (r.lines s) hlines
  have hrun : lineRows lines (r.lines s) r = .ok rows r := by
    rw [hrows]
    rfl
  exact ⟨_, bind_ok.2 ⟨r, r, rfl, bind_ok.2 ⟨rows, r, hrun, rfl⟩⟩⟩

theorem statementLines_settles (lines : List String) (s : Path) :
    Settles lines (fun _ => False) (statementLines lines s) := by
  intro r a r' h
  obtain ⟨_, _, hget, h⟩ := bind_ok.1 h
  cases hget
  obtain ⟨rows, r₁, hrows, h⟩ := bind_ok.1 h
  cases h
  obtain rfl := lineRows_ok hrows
  exact ⟨fun _ => False.elim, fun e => (or_iff_left id).symm, id,
    fun q hq _ => statementLines_ok hq s⟩

theorem fieldRows_settles {lines : List String} {owner : Option Path}
    {fields : List (String × (Option Path → Writing String))} {A : String → Entry → Prop}
    (h : ∀ name write, fields.lookup name = some write → Settles lines (A name) (write owner)) :
    ∀ names, Settles lines (fun e => ∃ name ∈ names, A name e) (fieldRows owner fields names)
  | [] => (settles_pure "").congr fun e => by simp
  | name :: names => by
    rw [fieldRows]
    split
    · exact settles_throw _ _
    · rename_i write hwrite
      refine ((h name write hwrite).seq (fieldRows_settles h names) _).congr fun e => ?_
      simp only [List.mem_cons, exists_eq_or_imp]

end SourceScribe.Page
