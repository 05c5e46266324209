/-
  The rules for expressions show what they take.

  That does not depend on taking the right tokens.  Brackets, signs and colons are taken
  without asking what they are, and a rule that is out of step with the tokens shows
  whatever stands there.
-/
import SourceScribe.Proofs.Conversion.Outstanding.Basic

namespace SourceScribe.Conversion

open Scan Markup

variable {x : Char} {p : Part} {n : Site}

/-! ## Arguments of a call -/

theorem starArgument_pays (field : String) (h : p.Shows x) :
    Pays x 0 (starArgument field p) contents := by
  refine .expectShown fun t _ => .skip looks_gapAfter fun after => ?_
  refine .bindAllBut 0 (h.addTo _) (by simp) fun ms => delimiter_pays.bind fun comma => .pure ?_
  simp

theorem keywordArgument_pays (h : p.Shows x) : Pays x 0 (keywordArgument p) contents := by
  refine .expectShown fun t _ => .partField h "arg" fun arg _ => .caption fun name => ?_
  refine .inPlaceOf ((enclosed_pays true true).bind fun equal => ?_)
  refine .partField h "value" fun value hvalue => hvalue.write.bind fun ms => ?_
  refine delimiter_pays.bind fun comma => .pure ?_
  simp
  omega

/-- The order in which arguments are written does not matter: each shows what is taken for
    it. -/
theorem keywordsAndStar_pays (h : n.Shows x) : Pays x 0 (keywordsAndStar n) contents := by
  refine .field h "starargs" fun star hstar => ?_
  refine .look (P := fun as => ∀ a ∈ as, a.part.Shows x) (fun c as c' has => ?_)
    fun starred hstarred => .fieldItems h "keywords" fun keywords hkeywords => ?_
  · obtain ⟨hmem, rfl⟩ := starPlace_part has
    exact ⟨fun a ha => (hmem a ha).1 ▸ hstar, rfl⟩
  refine .look (P := fun as => ∀ a ∈ as, a.part.Shows x) (fun c as c' has => ?_) fun named hnamed => ?_
  · obtain ⟨hmem, rfl⟩ := keywordPlaces_part has
    exact ⟨fun a ha => hkeywords _ (hmem a ha).1, rfl⟩
  refine .ite (fun _ => .fail) fun _ => forEach_pays fun a ha => ?_
  -- sorting by places keeps the arguments
  have hpart : a.part.Shows x := by
    rcases List.mem_append.1 (List.mem_mergeSort.1 ha) with ha | ha
    · exact hstarred a ha
    · exact hnamed a ha
  exact .ite (fun _ => starArgument_pays _ hpart) fun _ => keywordArgument_pays hpart

/-! ## Parameters of a function -/

theorem annotation_pays (h : p.Shows x) : Pays x 0 ( annotation p) contents := by
  refine onlyIf_pays (.expectMarked fun _ colon => .bindAllBut 0 (h.addTo _) (by simp)
    fun ms => .pure ?_)
  simp

theorem parameterDefault_pays {d : Option Part} (h : ∀ q ∈ d, q.Shows x) :
    Pays x 0 (parameterDefault d) contents := by
  cases d with
  | none => exact .pure (Nat.zero_le _)
  | some q =>
    refine onlyIf_pays (.expectMarked fun _ equal => .bindAllBut 0 ((h q rfl).addTo _) (by simp)
      fun ms => .pure ?_)
    simp

/-- The name was taken already, as the token `t`. -/
theorem parameter_pays {t : Token} {d : Option Part} {kwonly : Bool} (h : p.Shows x)
    (hd : ∀ q ∈ d, q.Shows x) : Pays x (copies x t.text) (parameter t p d kwonly) content := by
  rw [← Nat.zero_add (copies x t.text)]
  refine .partField h "arg" fun _ _ => .asText fun name => .inPlaceOf ?_
  refine .partField h "annotation" fun ann hann => (annotation_pays hann).bind fun as => ?_
  refine (parameterDefault_pays hd).bind fun ds => .pure ?_
  simp
  omega

theorem delimitedParameter_pays {kwonly : Bool} {e : Part × Option Part} (h : e.1.Shows x)
    (hd : ∀ q ∈ e.2, q.Shows x) : Pays x 0 (delimitedParameter kwonly e) contents := by
  refine .expectShown fun t _ => (parameter_pays h hd).bindFrom fun arg => ?_
  refine delimiter_pays.bind fun comma => .pure ?_
  simp

theorem starParameter_pays (h : p.Shows x) (field : String) :
    Pays x 0 (starParameter p field) contents := by
  refine .partField h field fun arg harg => .ite (fun _ => ?_) fun _ => .pure (Nat.zero_le _)
  refine .expectShown fun t _ => .expect fun name _ => .skip looks_gapBefore fun between => ?_
  refine (parameter_pays harg (by simp)).bindFrom fun inside => ?_
  refine delimiter_pays.bind fun comma => .pure ?_
  simp

theorem positionalParameters_pays (h : p.Shows x) :
    Pays x 0 (positionalParameters p) contents := by
  refine .partField h "args" fun args hargs => .ite (fun _ => ?_) fun _ => .pure (Nat.zero_le _)
  refine .partField h "defaults" fun defaults hdefaults => .items hargs fun items hitems => ?_
  cases hdefaults with
  | list hlist =>
    refine forEach_pays fun e he => ?_
    refine delimitedParameter_pays (hitems _ (List.of_mem_zip he).1) fun q hq => ?_
    rw [Option.mem_def] at hq
    exact hlist q (mem_alignDefaults (hq ▸ (List.of_mem_zip he).2))
  | leaf | letter | node => exact .fail

theorem bareStar_pays (h : p.Shows x) (kwonly : Part) : Pays x 0 (bareStar p kwonly) contents := by
  refine .partField h "vararg" fun _ _ => .ite (fun _ => ?_) fun _ => .pure (Nat.zero_le _)
  refine .expectOp "*" (by decide) fun _ => .skip looks_gapAfter fun after => ?_
  refine .idle (delimiter_pays.bind fun comma => .pure ?_)
  simp

theorem parameters_pays (h : n.Shows x) : Pays x 0 (parameters n) contents := by
  refine .field h "args" fun args hargs => (positionalParameters_pays hargs).bind fun ps => ?_
  refine (starParameter_pays hargs "vararg").bind fun vs => ?_
  refine .partField hargs "kwonlyargs" fun kwonly hkwonly => ?_
  refine .partField hargs "kw_defaults" fun defaults hdefaults => ?_
  refine (bareStar_pays hargs kwonly).bind fun ss => ?_
  refine .items hkwonly fun items hitems => .items hdefaults fun ds hds => ?_
  have hnamed : Pays x 0 (forEach (delimitedParameter true) (items.zip (ds.map some))) contents := by
    refine forEach_pays fun e he => ?_
    refine delimitedParameter_pays (hitems _ (List.of_mem_zip he).1) fun q hq => ?_
    obtain ⟨d, hd, hsome⟩ := List.mem_map.1 (List.of_mem_zip he).2
    rw [Option.mem_def, ← hsome, Option.some.injEq] at hq
    exact hq ▸ hds d hd
  refine hnamed.bind fun ns => (starParameter_pays hargs "kwarg").bind fun ks => .pure ?_
  simp
  omega

/-! ## Literals, names and displays -/

theorem numberRule_pays : Pays x 0 (numberRule []) contents := by
  refine .expectShown fun t _ => .pure ?_
  simp

theorem stringTail_pays (count : Nat) : Pays x 0 (stringTail count) contents := by
  induction count with
  | zero => exact .pure (Nat.zero_le _)
  | succ count ih =>
    refine (absorb_pays _).bind fun between => .take fun t => .skip looks_gapBefore fun before => ?_
    refine ih.bind fun more => .pure ?_
    simp
    omega

theorem stringRule_pays : Pays x 0 (stringRule n []) contents := by
  refine .expectShown fun t _ => .skip (fun _ _ _ h => (get_ok.1 h).2) fun c => ?_
  refine .skip (looks_orFail _ _) fun more => (stringTail_pays more).bind fun tail => .pure ?_
  simp

theorem nameRule_pays (h : n.Shows x) : Pays x 0 (nameRule n []) contents := by
  refine .expectShown fun t _ => .field h "id" fun id _ => .caption fun inside => .inPlaceOf ?_
  refine .skip (looks_fieldCls n "ctx") fun ctx => .pure ?_
  simp

theorem nameConstantRule_pays : Pays x 0 (nameConstantRule []) contents := by
  refine .expect fun t _ => .pure ?_
  simp

theorem ellipsisRule_pays : Pays x 0 (ellipsisRule []) contents := by
  refine .expect fun t _ => .pure ?_
  simp

/-- A gap is free. -/
theorem optionalGap_pays (asked : Bool) (m : Scan String) (hm : Looks m) :
    Pays x 0 (onlyIf asked do return [text (← m)]) contents :=
  onlyIf_pays (.skip hm fun _ => .pure (Nat.zero_le _))

/-- A text that may be missing. -/
theorem optionalText_pays (asked : Bool) {m : Scan String} (hm : Pays x 0 m fun s => s) :
    Pays x 0 (onlyIf asked do return [text (← m)]) contents := by
  refine onlyIf_pays (hm.bind fun s => .pure ?_)
  simp

theorem tupleItem_pays (first : Bool) (h : p.Shows x) : PaysInto x (tupleItem first p) := by
  intro parent
  refine (optionalGap_pays _ _ looks_gapAfter).bind fun left => ?_
  refine .bindAllBut 0 (h.addTo _) (by simp) fun inside => ?_
  refine (enclosedOf_pays _).bind fun comma => .pure ?_
  simp

theorem tupleRule_pays (h : n.Shows x) : Pays x 0 (tupleRule n []) contents := by
  refine .skip (looks_fieldCls n "ctx") fun ctx => .field h "elts" fun elts helts => ?_
  refine .ite (fun _ => .items helts fun items hitems => ?_) fun _ => ?_
  · cases items with
    | nil => exact .pure (Nat.zero_le _)
    | cons item items =>
      have hhead := (tupleItem_pays true (hitems item List.mem_cons_self)).alone
      have htail := addEach_pays fun a ha => tupleItem_pays false
        (hitems a (List.mem_cons_of_mem _ ha))
      refine hhead.bind fun head => .bindAllBut 0 (htail head) (by simp) fun inside => .pure ?_
      simp
  · refine .expectOp "(" (by decide) fun _ => .expectOp ")" (by decide) fun _ => ?_
    refine .skip looks_gapBefore fun between => .pure ?_
    simp

theorem delimitedItem_pays (h : p.Shows x) : PaysInto x (delimitedItem p) := by
  intro parent
  refine .bindAllBut 0 (h.addTo parent) (by simp) fun inside => ?_
  refine delimiter_pays.bind fun comma => .pure ?_
  simp

theorem delimitedItems_pays {items : List Part} (h : ∀ q ∈ items, q.Shows x) :
    PaysInto x (addEach delimitedItem items) :=
  addEach_pays fun q hq => delimitedItem_pays (h q hq)

theorem listRule_pays (h : n.Shows x) : Pays x 0 (listRule n []) contents := by
  refine .skip (fun c a c' ha => ?_) fun attrs => (enclosed_pays false true).bind fun left => ?_
  · rw [contextAttr] at ha
    split at ha
    · obtain ⟨_, _, hcls, ha⟩ := bind_ok.1 ha
      obtain rfl := looks_fieldCls n _ _ _ _ hcls
      exact (pure_ok.1 ha).2
    · exact (pure_ok.1 ha).2
  refine .fieldItems h "elts" fun items hitems => ?_
  refine .bindAllBut 0 (delimitedItems_pays hitems _) (by simp) fun inside => ?_
  refine .expect fun right _ => .pure ?_
  simp

theorem dictItem_pays {e : Part × Part} (hkey : e.1.Shows x) (hvalue : e.2.Shows x) :
    Pays x 0 (dictItem e) contents := by
  refine hkey.write.bind fun key => (enclosed_pays true true).bind fun colon => ?_
  refine .bindAllBut 0 (hvalue.addTo _) (by simp) fun inside => ?_
  refine delimiter_pays.bind fun comma => .pure ?_
  simp

theorem dictRule_pays (h : n.Shows x) : Pays x 0 (dictRule n []) contents := by
  refine (enclosed_pays false true).bind fun left => .field h "keys" fun ks hks => ?_
  refine .field h "values" fun vs hvs => .items hks fun keys hkeys => .items hvs fun values hvalues => ?_
  have hitems : Pays x 0 (forEach dictItem (keys.zip values)) contents := forEach_pays fun e he =>
    dictItem_pays (hkeys _ (List.of_mem_zip he).1) (hvalues _ (List.of_mem_zip he).2)
  refine hitems.bind fun inside => .expectOp "\x7d" (by decide) fun _ => .pure ?_
  simp
  omega

/-! ## Parts of objects -/

theorem starredRule_pays (h : n.Shows x) : Pays x 0 (starredRule n []) contents := by
  refine .expectOp "*" (by decide) fun _ => .skip looks_gapAfter fun after => ?_
  refine .skip (looks_fieldCls n "ctx") fun ctx => ?_
  refine .bindAllBut 0 (h.addField "value" _) (by simp) fun inside => .pure ?_
  simp

theorem attributeRule_pays (h : n.Shows x) : Pays x 0 (attributeRule n []) contents := by
  refine .skip (looks_fieldCls n "ctx") fun ctx => .writeField h "value" fun value => ?_
  refine (enclosed_pays true true).bind fun dot => .expectShown fun t _ => .pure ?_
  simp
  omega

theorem subscriptRule_pays (h : n.Shows x) : Pays x 0 (subscriptRule n []) contents := by
  refine .skip (looks_fieldCls n "ctx") fun ctx => .writeField h "value" fun value => ?_
  refine (enclosed_pays false true).bind fun left => ?_
  refine .bindAllBut (copies x (contents value)) (h.addField "slice" _) (by simp) fun slice => ?_
  refine (enclosed_pays true false).bind fun right => .pure ?_
  simp
  omega

theorem indexRule_pays (h : n.Shows x) : PaysInto x (indexRule n) := by
  intro parent
  refine .writeField h "value" fun value => .pure ?_
  simp

theorem sliceRule_pays (h : n.Shows x) : PaysInto x (sliceRule n) := by
  intro parent
  refine .field h "lower" fun lower hlower => ?_
  refine (onlyIf_pays (hlower.write.bind fun ms => .skip looks_gapAfter fun after =>
    .pure ?_)).bind fun lowerPart => ?_
  · simp
  refine (enclosed_pays false false).bind fun colon => .field h "upper" fun upper hupper => ?_
  refine (onlyIf_pays (.skip looks_gapAfter fun after => hupper.write.bind fun ms =>
    .pure ?_)).bind fun upperPart => ?_
  · simp
  -- a second colon is taken only if it comes right next
  refine .skip looks_peek fun next => ?_
  refine (optionalText_pays _ (enclosed_pays true false)).bind fun second => ?_
  refine .field h "step" fun step hstep => ?_
  refine (onlyIf_pays (.skip looks_gapBefore fun before => hstep.write.bind fun ms =>
    .pure ?_)).bind fun stepPart => .pure ?_
  · simp
  · simp
    omega

theorem extSliceRule_pays (h : n.Shows x) : PaysInto x (extSliceRule n) :=
  fun parent => .fieldItems h "dims" fun _ hdims => delimitedItems_pays hdims parent

/-! ## Operators -/

theorem binOpRule_pays (h : n.Shows x) : Pays x 0 (binOpRule n []) contents := by
  refine .writeField h "left" fun left => .field h "op" fun op _ => ?_
  refine (enclosed_pays true true).bind fun sign => .skip (looks_cls op) fun cls => ?_
  refine .bindAllBut 0 (h.addField "right" _) (by simp) fun inside => .pure ?_
  simp

theorem boolOperand_pays (h : p.Shows x) : Pays x 0 (boolOperand p) contents := by
  refine (enclosed_pays true true).bind fun sign => h.write.bind fun inside => .pure ?_
  simp

theorem boolOpRule_pays (h : n.Shows x) : Pays x 0 (boolOpRule n []) contents := by
  refine .skip (looks_fieldCls n "op") fun op => .fieldItems h "values" fun values hvalues => ?_
  cases values with
  | nil => exact .pure (Nat.zero_le _)
  | cons operand operands =>
    refine (hvalues operand List.mem_cons_self).write.bind fun head => ?_
    refine (forEach_pays fun q hq => boolOperand_pays
      (hvalues q (List.mem_cons_of_mem _ hq))).bind fun tail => .pure ?_
    simp

theorem unaryOpRule_pays (h : n.Shows x) : Pays x 0 (unaryOpRule n []) contents := by
  refine .take fun t => (betweenStatements_pays true).bind fun after => ?_
  refine .skip (looks_fieldCls n "op") fun op => ?_
  refine .bindAllBut 0 (h.addField "operand" _) (by simp) fun inside => .pure ?_
  simp

theorem comparisonSign_pays (length : Nat) : Pays x 0 (comparisonSign length) fun s => s := by
  induction length with
  | zero => exact .pure (Nat.zero_le _)
  | succ length ih =>
    refine (enclosed_pays false true).bind fun sign => ih.bind fun more => .pure ?_
    simp

theorem comparison_pays {e : Part × Part} (h : e.2.Shows x) : Pays x 0 (comparison e) contents := by
  refine .skip looks_gapAfter fun before => .skip (looks_cls e.1) fun cls => ?_
  refine .skip (looks_orFail _ _) fun length => (comparisonSign_pays length).bind fun sign => ?_
  refine h.write.bind fun value => .pure ?_
  simp

theorem compareRule_pays (h : n.Shows x) : Pays x 0 (compareRule n []) contents := by
  refine .writeField h "left" fun left => .field h "ops" fun ops hops => ?_
  refine .field h "comparators" fun vs hvs => .items hops fun signs _ => ?_
  refine .items hvs fun values hvalues => ?_
  refine (forEach_pays fun e he => comparison_pays (hvalues _ (List.of_mem_zip he).2)).bind
    fun tail => .pure ?_
  simp

/-! ## Calls, conditions and functions -/

/-- A list that may be missing, in an element of its own. -/
theorem optionalList_pays {f : List Part → Scan (List Markup)} (tag : String) (h : p.Shows x)
    (hf : ∀ items, (∀ q ∈ items, q.Shows x) → Pays x 0 (f items) contents) :
    Pays x 0 (onlyIf p.isPresent do
      let inside ← f (← p.items)
      return [element tag [] inside]) contents := by
  refine onlyIf_pays (.items h fun items hitems => (hf items hitems).bind fun inside => .pure ?_)
  simp

theorem callRule_pays (h : n.Shows x) : Pays x 0 (callRule n []) contents := by
  refine .writeField h "func" fun func => (enclosed_pays true true).bind fun left => ?_
  refine .field h "args" fun args hargs => ?_
  refine (optionalList_pays "args" hargs fun _ hitems =>
    (delimitedItems_pays hitems).alone).bind fun argsPart => ?_
  refine (keywordsAndStar_pays h).bind fun named => .field h "kwargs" fun kwargs hkwargs => ?_
  refine (onlyIf_pays (starArgument_pays "kwargs" hkwargs)).bind fun kwargsPart => ?_
  refine .expectShown fun t ht => .pure ?_
  rw [Token.text_of_isOp ht (s := ")") (by decide)]
  simp
  omega

theorem ifExpRule_pays (h : n.Shows x) : Pays x 0 (ifExpRule n []) contents := by
  refine .writeField h "body" fun body => (enclosed_pays true true).bind fun ifText => ?_
  refine .writeField h "test" fun test => (enclosed_pays true true).bind fun elseText => ?_
  refine .writeField h "orelse" fun orelse => .pure ?_
  simp
  omega

theorem comprehensionIf_pays (h : p.Shows x) : Pays x 0 (comprehensionIf p) contents := by
  refine (enclosed_pays true true).bind fun ifText => ?_
  refine .bindAllBut 0 (h.addTo _) (by simp) fun inside => .pure ?_
  simp

theorem comprehension_pays (h : p.Shows x) : Pays x 0 (comprehension p) contents := by
  refine (enclosed_pays true true).bind fun forText => .partField h "target" fun target htarget => ?_
  refine htarget.write.bind fun ts => (enclosed_pays true true).bind fun inText => ?_
  refine .partField h "iter" fun iter hiter => hiter.write.bind fun is => ?_
  refine .partField h "ifs" fun ifs hifs => ?_
  refine (optionalList_pays "ifs" hifs fun _ hitems => forEach_pays fun q hq =>
    comprehensionIf_pays (hitems q hq)).bind fun ifsPart => .pure ?_
  simp
  omega

theorem comprehensionHead_pays (h : n.Shows x) : Pays x 0 (comprehensionHead n) contents := by
  refine .ite (fun _ => .writeField h "elt" fun elt => .pure ?_) fun _ => ?_
  · simp
  · refine .writeField h "key" fun key => (enclosed_pays true true).bind fun colon => ?_
    refine .writeField h "value" fun value => .pure ?_
    simp
    omega

theorem comprehensionRule_pays (h : n.Shows x) : Pays x 0 (comprehensionRule n []) contents := by
  refine (optionalText_pays _ (enclosed_pays false true)).bind fun left => ?_
  refine (comprehensionHead_pays h).bind fun head => .fieldItems h "generators" fun gens hgens => ?_
  refine (forEach_pays fun q hq => comprehension_pays (hgens q hq)).bind fun inside => ?_
  refine (optionalText_pays _ (enclosed_pays true false)).bind fun right => .pure ?_
  simp
  omega

theorem lambdaRule_pays (h : n.Shows x) : Pays x 0 (lambdaRule n []) contents := by
  refine .expectText fun _ => .skip looks_gapAfter fun after => ?_
  refine (parameters_pays h).bind fun arguments => (enclosed_pays false true).bind fun colon => ?_
  refine .writeField h "body" fun body => .pure ?_
  simp
  omega

theorem yieldRule_pays (h : n.Shows x) : Pays x 0 (yieldRule n []) contents := by
  refine .expect fun t _ => .skip looks_gapAfter fun after => ?_
  refine (onlyIf_pays (.expect fun u _ => .skip looks_gapAfter fun gap => .pure ?_)).bind
    fun fromPart => .field h "value" fun value hvalue => ?_
  · simp
  refine .bindAllBut 0 (orIdle_pays hvalue.addTo _) (by simp) fun inside => .pure ?_
  simp

end SourceScribe.Conversion
