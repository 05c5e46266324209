/-
  Reading one definition.

  The texts of a definition come back from any layout of it: `fieldsOf_of_trails` for the
  fields of a constructor, `Constructor.read` for a constructor, and `define_of_laid` for a
  whole definition, which stores a type for every constructor and a category with the names
  of them all.
-/
import SourceScribe.Asdl.Parser
import SourceScribe.Proofs.Asdl.Notation

namespace SourceScribe.Asdl

open Text (IsGap Trail Solid isBlank stripChars splitChars forall_mem_of_all mem_intercalate)

theorem splitOn_ofList (sep : String) (cs : List Char) :
    Text.splitOn sep (String.ofList cs) = (splitChars sep.toList cs).map String.ofList := by
  rw [Text.splitOn, String.toList_ofList]

theorem before_ofList (sep : String) (cs : List Char) :
    Text.before sep (String.ofList cs) = String.ofList ((splitChars sep.toList cs).headD []) := by
  rw [Text.before, String.toList_ofList, Text.beforeChars_eq_headD]

theorem strip_ofList (cs : List Char) :
    Text.strip (String.ofList cs) = String.ofList (stripChars cs) := by
  rw [Text.strip, String.toList_ofList]

theorem bind_of_ok {α β : Type} {m : Reading α} {k : α → Reading β} {g g' : Grammar} {a : α}
    (h : m g = .ok a g') : (m >>= k) g = k a g' := by
  show EStateM.bind m k g = _
  rw [EStateM.bind, h]

/-! ## Fields -/

theorem stripChars_of_solid {w : List Char} (h : Solid w) : stripChars w = w := by
  have htrail : Trail [w] ([] ++ (w ++ [])) := .cons Text.isGap_nil (.nil Text.isGap_nil)
  simpa using htrail.stripChars_eq h

/-- A text is what is left of its trail. -/
theorem strip_of_trail {s : String} {cs : List Char} (h : Trail [s.toList] cs)
    (hs : Solid s.toList) : Text.strip (String.ofList cs) = s := by
  rw [strip_ofList, h.stripChars_eq hs, String.ofList_toList]

/-- The last character of a category is none of the marks, so a mark there is the
    qualifier. -/
theorem Field.ofWords_eq {f : Field} (hf : f.IsSound) :
    Field.ofWords f.name (String.ofList (f.category.toList ++ f.qualifier.toList)) = .ok f := by
  obtain ⟨⟨hsolid, _⟩, _⟩ := hf.fit_category
  obtain ⟨hname, hcategory, hqualifier⟩ := hf
  have hstrip : Text.strip f.name = f.name := by
    rw [Text.strip, stripChars_of_solid hname.fit.1, String.ofList_toList]
  rw [Field.ofWords, strip_ofList, stripChars_of_solid hsolid, String.toList_ofList, hstrip]
  simp only [List.mem_cons, List.not_mem_nil, or_false] at hqualifier
  obtain ⟨name, category, qualifier⟩ := f
  rcases hqualifier with rfl | rfl | rfl
  · obtain ⟨c, hc⟩ := Option.isSome_iff_exists.1 (List.getLast?_isSome.2 hcategory.1)
    have hmark := (hcategory.2.1 c (List.mem_of_getLast? hc)).2
    have hqualifier : ¬ (c = '*' || c = '?') = true := by
      rw [Bool.or_eq_true, decide_eq_true_eq, decide_eq_true_eq]
      rintro (rfl | rfl) <;> exact hmark (by decide)
    simp only [String.toList_empty, List.append_nil, hc, if_neg hqualifier, String.ofList_toList]
  all_goals simp

theorem Field.ofText_of_trail {f : Field} (hf : f.IsSound) {cs : List Char}
    (h : Trail [f.text.toList] cs) : Field.ofText (String.ofList cs) = .ok f := by
  have hsplit : splitChars [' '] f.text.toList
      = [f.category.toList ++ f.qualifier.toList, f.name.toList] := by
    have hparts : ∀ p ∈ [f.category.toList ++ f.qualifier.toList, f.name.toList], ' ' ∉ p := by
      simp only [List.forall_mem_cons, List.not_mem_nil, false_imp_iff, implies_true, and_true]
      exact ⟨hf.fit_category.2, fun hc => Bool.noConfusion (hf.1.2.1 ' ' hc).1⟩
    have := Text.splitChars_intercalate (List.cons_ne_nil _ _) hparts
    rwa [List.intercalate_cons_cons, List.intercalate_singleton, List.append_assoc,
      ← Field.toList_text] at this
  have hwords : Text.splitOn " " f.text
      = [String.ofList (f.category.toList ++ f.qualifier.toList), f.name] := by
    rw [Text.splitOn]
    show (splitChars [' '] f.text.toList).map String.ofList = _
    rw [hsplit, List.map_cons, List.map_singleton, String.ofList_toList]
  rw [Field.ofText, strip_of_trail h hf.fit.1, hwords]
  exact Field.ofWords_eq hf

theorem fieldsOf_of_trails {fields : List Field} {pieces : List (List Char)}
    (hfields : ∀ f ∈ fields, f.IsSound)
    (h : List.Forall₂ Trail (fields.map fun f => [f.text.toList]) pieces) :
    fieldsOf (pieces.map String.ofList) = .ok fields := by
  induction fields generalizing pieces with
  | nil =>
    cases h
    rfl
  | cons f fields ih =>
    obtain ⟨hf, hfields⟩ := List.forall_mem_cons.1 hfields
    cases h with
    | cons hpiece hpieces =>
      rw [List.map_cons, fieldsOf, Field.ofText_of_trail hf hpiece, ih hfields hpieces]
      rfl

/-- Fields as written, without the white space around them. -/
theorem strip_pieces {fields : List Field} {pieces : List (List Char)}
    (hfields : ∀ f ∈ fields, f.IsSound)
    (h : List.Forall₂ Trail (fields.map fun f => [f.text.toList]) pieces) :
    (pieces.map String.ofList).map Text.strip = fields.map (·.text) := by
  induction fields generalizing pieces with
  | nil =>
    cases h
    rfl
  | cons f fields ih =>
    obtain ⟨hf, hfields⟩ := List.forall_mem_cons.1 hfields
    cases h with
    | cons hpiece hpieces =>
      rw [List.map_cons, List.map_cons, List.map_cons, strip_of_trail hpiece hf.fit.1,
        ih hfields hpieces]

/-! ## Lists in parentheses -/

theorem forall₂_pair {α β : Type} {R : α → β → Prop} {a b : α} {l : List β}
    (h : List.Forall₂ R [a, b] l) : ∃ x y, l = [x, y] ∧ R a x ∧ R b y := by
  cases h with
  | cons ha h =>
    cases h with
    | cons hb h =>
      cases h
      exact ⟨_, _, rfl, ha, hb⟩

/-- The marks that stand in a list are commas and qualifiers. -/
theorem not_mem_fieldTexts {fields : List Field} (hfields : ∀ f ∈ fields, f.IsSound) {c : Char}
    (hc : c ∈ marks) (hcomma : c ≠ ',') (hstar : c ≠ '*') (hquestion : c ≠ '?') :
    ∀ w ∈ [[',']].intercalate (fields.map fun f => [f.text.toList]), c ∉ w := by
  intro w hw
  rcases mem_intercalate hw with rfl | ⟨g, hg, hw⟩
  · simpa using hcomma
  · obtain ⟨f, hf, rfl⟩ := List.mem_map.1 hg
    rw [List.mem_singleton.1 hw]
    exact (hfields f hf).not_mem_text hc hstar hquestion

/-- A list after other texts: what stands before its parenthesis, and the pieces in it. -/
theorem inParentheses_of_trail {pre : List (List Char)} {fields : List Field} {cs : List Char}
    (hpre : ∀ w ∈ pre, '(' ∉ w) (hne : fields ≠ []) (hfields : ∀ f ∈ fields, f.IsSound)
    (h : Trail (pre ++ listTexts fields) cs) :
    (∃ p, Text.before "(" (String.ofList cs) = String.ofList p ∧ Trail pre p) ∧
    ∃ pieces, inParentheses (String.ofList cs) = pieces.map String.ofList ∧
      List.Forall₂ Trail (fields.map fun f => [f.text.toList]) pieces := by
  have hleft := not_mem_fieldTexts hfields (c := '(') (by decide) (by decide) (by decide) (by decide)
  have hright := not_mem_fieldTexts hfields (c := ')') (by decide) (by decide) (by decide)
    (by decide)
  generalize hlist : [[',']].intercalate (fields.map fun f => [f.text.toList]) = inner at *
  -- the parenthesis that opens
  have hopen : Trail ([['(']].intercalate [pre, inner ++ [[')']]]) cs := by
    simpa [listTexts, hlist, List.intercalate_cons_cons] using h
  obtain ⟨p, q, hsplit, hp, hq⟩ := forall₂_pair (hopen.splitChars (List.cons_ne_nil _ _)
    (by decide) (by
      simp only [List.forall_mem_cons, List.not_mem_nil, false_imp_iff, implies_true, and_true,
        List.forall_mem_append]
      exact ⟨hpre, hleft, by decide⟩))
  -- the one that closes
  have hclose : Trail ([[')']].intercalate [inner, []]) q := by
    simpa [List.intercalate_cons_cons] using hq
  obtain ⟨a, b, hsplit', ha, _⟩ := forall₂_pair (hclose.splitChars (List.cons_ne_nil _ _)
    (by decide) (by
      simp only [List.forall_mem_cons, List.not_mem_nil, false_imp_iff, implies_true, and_true]
      exact hright))
  -- the commas
  have hcommas : List.Forall₂ Trail (fields.map fun f => [f.text.toList]) (splitChars [','] a) := by
    refine Trail.splitChars (by simpa using hne) (by decide) (fun g hg w hw => ?_) (hlist ▸ ha)
    obtain ⟨f, hf, rfl⟩ := List.mem_map.1 hg
    rw [List.mem_singleton.1 hw]
    exact (hfields f hf).not_mem_text (by decide) (by decide) (by decide)
  refine ⟨⟨p, ?_, hp⟩, splitChars [','] a, ?_, hcommas⟩
  · rw [before_ofList]
    show String.ofList ((splitChars ['('] cs).headD []) = _
    rw [hsplit]
    rfl
  · have hcut : Text.splitOn "(" (String.ofList cs) = [String.ofList p, String.ofList q] :=
      (splitOn_ofList _ _).trans (congrArg (List.map String.ofList) hsplit)
    rw [inParentheses, hcut]
    show Text.splitOn "," (Text.before ")" (String.ofList q)) = _
    rw [before_ofList]
    show Text.splitOn "," (String.ofList ((splitChars [')'] q).headD [])) = _
    rw [hsplit', splitOn_ofList]
    rfl

/-- Without a parenthesis there is no list. -/
theorem inParentheses_eq_nil {cs : List Char} (h : '(' ∉ cs) :
    Text.before "(" (String.ofList cs) = String.ofList cs ∧
      inParentheses (String.ofList cs) = [] := by
  have hsplit : splitChars ['('] cs = [cs] :=
    Text.splitChars_eq_singleton fun hi => h (hi.subset List.mem_cons_self)
  constructor
  · rw [before_ofList]
    show String.ofList ((splitChars ['('] cs).headD []) = _
    rw [hsplit]
    rfl
  · have hcut : Text.splitOn "(" (String.ofList cs) = [String.ofList cs] :=
      (splitOn_ofList _ _).trans (congrArg (List.map String.ofList) hsplit)
    rw [inParentheses, hcut]

/-! ## Constructors -/

theorem not_mem_of_trail {ws : List (List Char)} {cs : List Char} (h : Trail ws cs) {c : Char}
    (hc : isBlank c = false) (hws : ∀ w ∈ ws, c ∉ w) : c ∉ cs := by
  intro hmem
  rcases h.mem hmem with hblank | ⟨w, hw, hcw⟩
  · exact Bool.noConfusion (hblank.symm.trans hc)
  · exact hws w hw hcw

/-- A constructor's own name, if it has one. -/
theorem Constructor.strip_name {alone : Bool} {c : Constructor} (hc : c.IsSound alone)
    {cs : List Char} (h : Trail (c.name.toList.map String.toList) cs) :
    Text.strip (String.ofList cs) = c.name.getD "" := by
  obtain ⟨hname, _⟩ := hc
  cases hc : c.name with
  | none =>
    rw [hc] at h
    cases h with
    | nil hgap => rw [strip_ofList, Text.stripChars_gap hgap]; rfl
  | some name =>
    rw [hc] at h hname
    exact strip_of_trail h (IsName.fit hname).1

/-- A constructor is read back from a layout of it. -/
theorem Constructor.read {alone : Bool} {c : Constructor} (hc : c.IsSound alone) {cs : List Char}
    (h : Trail c.texts cs) :
    Text.strip (Text.before "(" (Text.strip (String.ofList cs))) = c.name.getD "" ∧
      fieldsOf (inParentheses (Text.strip (String.ofList cs))) = .ok c.fields := by
  have htrail := h.strip fun w hw => (hc.fit w hw).1
  rw [strip_ofList]
  rw [texts] at htrail
  by_cases hfields : c.fields = []
  · rw [if_pos hfields, List.append_nil] at htrail
    obtain ⟨hbefore, hnone⟩ := inParentheses_eq_nil
      (not_mem_of_trail htrail (by decide) (hc.not_mem_name (by decide)))
    rw [hbefore, hnone, hfields]
    exact ⟨strip_name hc htrail, rfl⟩
  · rw [if_neg hfields] at htrail
    obtain ⟨⟨p, hbefore, hp⟩, pieces, hpieces, htrails⟩ :=
      inParentheses_of_trail (hc.not_mem_name (by decide)) hfields hc.2.1 htrail
    rw [hbefore, hpieces]
    exact ⟨strip_name hc hp, fieldsOf_of_trails hc.2.1 htrails⟩

/-- The types of constructors. -/
def typesOf (category : String) (attributes : List String) (constructors : List Constructor) :
    List NodeType :=
  constructors.map fun c => ⟨c.name.getD category, category, c.fields, attributes⟩

theorem NodeType.ofTexts_eq {name category : String} {texts attributes : List String}
    {fields : List Field} (h : fieldsOf texts = .ok fields) :
    NodeType.ofTexts name category texts attributes = .ok ⟨name, category, fields, attributes⟩ := by
  rw [NodeType.ofTexts, h]
  rfl

theorem addProduct_eq {alone : Bool} {c : Constructor} (hc : c.IsSound alone) {cs : List Char}
    (h : Trail c.texts cs) (category : String) (attributes : List String) (g : Grammar) :
    addProduct category attributes (Text.strip (String.ofList cs)) g
      = .ok [c.name.getD category] ((typesOf category attributes [c]).foldl .addType g) := by
  obtain ⟨hname, hfields⟩ := Constructor.read hc h
  have hown : (if c.name.getD "" = "" then category else c.name.getD "")
      = c.name.getD category := by
    cases hn : c.name with
    | none => rfl
    | some name =>
      have hne : name ≠ "" := by
        have := hc.1
        rw [hn] at this
        rintro rfl
        exact this.1 rfl
      exact if_neg hne
  rw [addProduct, hname]
  simp only [hown, NodeType.ofTexts_eq hfields]
  rfl

/-- The constructors of a sum all have names. -/
theorem addConstructors_eq {constructors : List Constructor}
    (hsound : ∀ c ∈ constructors, c.IsSound false) {pieces : List (List Char)}
    (h : List.Forall₂ Trail (constructors.map (·.texts)) pieces) (category : String)
    (attributes : List String) (g : Grammar) :
    addConstructors category attributes (pieces.map fun p => Text.strip (String.ofList p)) g
      = .ok (constructors.map fun c => c.name.getD category)
          ((typesOf category attributes constructors).foldl .addType g) := by
  induction constructors generalizing pieces g with
  | nil =>
    cases h
    rfl
  | cons c constructors ih =>
    obtain ⟨hc, hsound⟩ := List.forall_mem_cons.1 hsound
    cases h with
    | cons hpiece hpieces =>
      obtain ⟨hname, hfields⟩ := Constructor.read hc hpiece
      have hnamed : c.name.getD "" = c.name.getD category := by
        cases hn : c.name with
        | none =>
          have := hc.1
          rw [hn] at this
          exact absurd this.1 Bool.false_ne_true
        | some name => rfl
      rw [List.map_cons, addConstructors, hname, hnamed, NodeType.ofTexts_eq hfields]
      have hmore := ih hsound hpieces
        (g.addType ⟨c.name.getD category, category, c.fields, attributes⟩)
      exact (bind_of_ok rfl).trans (bind_of_ok hmore)

/-! ## Definitions -/

/-- The types of a definition. -/
def Definition.types (d : Definition) (attributes : List String) : List NodeType :=
  typesOf d.category attributes d.constructors

/-- The category and the rest of a definition, on both sides of the equals sign. -/
theorem Definition.Laid.splitOn_equals {d : Definition} (hd : d.IsSound) {cs : List Char}
    (h : d.Laid cs) : ∃ left right, Text.splitOn "=" (String.ofList cs)
        = [String.ofList left, String.ofList right] ∧ Text.strip (String.ofList left) = d.category ∧
      Trail (d.sumTexts ++ d.attributeTexts) right := by
  obtain ⟨gap, hgap, _, h⟩ := h
  cases h with
  | @cons lead _ _ right hlead hright =>
    have hleft : Trail [d.category.toList] (lead ++ (d.category.toList ++ gap)) :=
      .cons hlead (.nil hgap)
    have hcategory : ∀ w ∈ [d.category.toList], '=' ∉ w :=
      List.forall_mem_singleton.2 fun hc => (hd.1.2.1 '=' hc).2 (by decide)
    have hparts : ∀ p ∈ [lead ++ (d.category.toList ++ gap), right], '=' ∉ p := by
      simp only [List.forall_mem_cons, List.not_mem_nil, false_imp_iff, implies_true, and_true]
      exact ⟨not_mem_of_trail hleft (by decide) hcategory,
        not_mem_of_trail hright (by decide) fun w hw =>
          hd.not_mem_texts w hw '=' (by decide) (by decide)⟩
    have hsplit := Text.splitChars_intercalate (List.cons_ne_nil _ _) hparts
    refine ⟨_, right, ?_, strip_of_trail hleft hd.1.fit.1, hright⟩
    rw [splitOn_ofList]
    simpa [List.intercalate_cons_cons] using congrArg (List.map String.ofList) hsplit

/-- The constructors and the attributes of a definition, on both sides of the keyword. -/
theorem Definition.splitOn_keyword {d : Definition} (hd : d.IsSound) {cs : List Char}
    (h : Trail (d.sumTexts ++ d.attributeTexts) cs) :
    ∃ sum attributes, Trail d.sumTexts sum ∧
      attributes.map Text.strip = d.attributes.map (·.text) ∧
      ((Text.splitOn "attributes" (String.ofList cs) = [String.ofList sum] ∧ attributes = []) ∨
        ∃ list, Text.splitOn "attributes" (String.ofList cs) = [String.ofList sum, list] ∧
          attributes = inParentheses list) := by
  have hsumFree : ∀ {cs}, Trail d.sumTexts cs → ¬ keyword <:+: cs := fun h =>
    h.not_infix (by decide) (forall_mem_of_all (by decide)) (fun w hw => (hd.fit_sumTexts w hw).1)
      (fun w hw => (hd.fit_sumTexts w hw).2) d.parted_sumTexts
  have hkeyword : "attributes".toList = keyword := rfl
  rw [splitOn_ofList, hkeyword]
  by_cases hnone : d.attributes = []
  · rw [Definition.attributeTexts, if_pos hnone, List.append_nil] at h
    refine ⟨cs, [], h, by rw [hnone]; rfl, .inl ⟨?_, rfl⟩⟩
    rw [Text.splitChars_eq_singleton (hsumFree h)]
    rfl
  · rw [Definition.attributeTexts, if_neg hnone] at h
    obtain ⟨sum, rest, rfl, hsum, hrest⟩ := h.of_append
    cases hrest with
    | @cons gap _ _ list hgap hlist =>
      have hsum' : Trail d.sumTexts (sum ++ gap) := by simpa using hsum.append (.nil hgap)
      have hfit := fit_listTexts hd.2.2.2
      have hlistFree : ¬ keyword <:+: list :=
        hlist.not_infix (by decide) (forall_mem_of_all (by decide)) (fun w hw => (hfit w hw).1)
          (fun w hw => (hfit w hw).2) (parted_listTexts _)
      have hlist' : Trail ([] ++ listTexts d.attributes) list := hlist
      obtain ⟨_, pieces, hpieces, htrails⟩ := 
        inParentheses_of_trail (fun _ hw => absurd hw List.not_mem_nil) hnone hd.2.2.2 hlist'
      refine ⟨sum ++ gap, inParentheses (String.ofList list), hsum', ?_,
        .inr ⟨String.ofList list, ?_, rfl⟩⟩
      · rw [hpieces]
        exact strip_pieces hd.2.2.2 htrails
      · have hsplit : splitChars keyword (sum ++ gap ++ keyword ++ list)
            = (sum ++ gap) :: splitChars keyword list :=
          Text.splitChars_append (by decide) (hsumFree hsum')
        rw [Text.splitChars_eq_singleton hlistFree] at hsplit
        simpa using congrArg (List.map String.ofList) hsplit

/-- The types that the texts of constructors define, and their names. -/
def addTypes (category : String) (attributes : List String) :
    List String → Reading (List String)
  | [c] => addProduct category attributes c
  | cs => addConstructors category attributes cs

theorem define_eq {definition left right sum : String} {attributes : List String}
    (hequals : Text.splitOn "=" definition = [left, right])
    (hkeyword : (Text.splitOn "attributes" right = [sum] ∧ attributes = []) ∨
      ∃ list, Text.splitOn "attributes" right = [sum, list] ∧ attributes = inParentheses list) :
    define definition = (do
      let names ← addTypes (Text.strip left) attributes ((Text.splitOn "|" sum).map Text.strip)
      modify fun g => g.addCategory (Text.strip left) ⟨Text.strip left, names, false⟩) := by
  rw [define, hequals]
  rcases hkeyword with ⟨hparts, rfl⟩ | ⟨list, hparts, rfl⟩
  all_goals
    simp only [hparts, List.headD_cons]
    rw [if_neg (by simp)]
    generalize (Text.splitOn "|" sum).map Text.strip = texts
    rcases texts with _ | ⟨c, _ | ⟨c', cs⟩⟩ <;> rfl

theorem addTypes_eq {d : Definition} (hd : d.IsSound) {sum : List Char} (h : Trail d.sumTexts sum)
    (attributes : List String) (g : Grammar) :
    addTypes d.category attributes ((Text.splitOn "|" (String.ofList sum)).map Text.strip) g
      = .ok ((d.types attributes).map (·.name)) ((d.types attributes).foldl .addType g) := by
  obtain ⟨_, hne, hsound, _⟩ := hd
  have hbars : List.Forall₂ Trail (d.constructors.map (·.texts)) (splitChars ['|'] sum) := by
    refine Trail.splitChars (by simpa using hne) (by decide) (fun g hg w hw => ?_) h
    obtain ⟨c, hc, rfl⟩ := List.mem_map.1 hg
    exact (hsound c hc).not_mem_texts w hw '|' (by decide)
  have htexts : (Text.splitOn "|" (String.ofList sum)).map Text.strip
      = (splitChars ['|'] sum).map fun p => Text.strip (String.ofList p) := by
    rw [splitOn_ofList, List.map_map]
    rfl
  have hnames : (d.types attributes).map (·.name)
      = d.constructors.map fun c => c.name.getD d.category := by
    rw [Definition.types, typesOf, List.map_map]
    rfl
  rw [htexts, hnames, Definition.types]
  generalize splitChars ['|'] sum = pieces at hbars
  cases hc : d.constructors with
  | nil => exact absurd hc hne
  | cons c others =>
    rw [hc] at hbars hsound
    cases hbars with
    | @cons _ piece _ pieces hpiece hpieces =>
      cases others with
      | nil =>
        cases hpieces
        exact addProduct_eq (hsound c List.mem_cons_self) hpiece d.category attributes g
      | cons c' others =>
        cases hpieces with
        | cons hpiece' hpieces =>
          exact addConstructors_eq hsound (.cons hpiece (.cons hpiece' hpieces)) d.category
            attributes g

/-- **A definition.**  From any layout of a definition, its types and its category are
    stored; the attributes are kept as written. -/
theorem define_of_laid {d : Definition} (hd : d.IsSound) {cs : List Char} (h : d.Laid cs) :
    ∃ attributes, attributes.map Text.strip = d.attributes.map (·.text) ∧
      ∀ g, define (String.ofList cs) g = .ok () (((d.types attributes).foldl .addType g).addCategory
        d.category ⟨d.category, (d.types attributes).map (·.name), false⟩) := by
  obtain ⟨left, right, hequals, hcategory, hright⟩ := h.splitOn_equals hd
  obtain ⟨sum, attributes, hsum, hattributes, hkeyword⟩ := Definition.splitOn_keyword hd hright
  refine ⟨attributes, hattributes, fun g => ?_⟩
  rw [define_eq hequals hkeyword, hcategory]
  exact (bind_of_ok (addTypes_eq hd hsum attributes g)).trans rfl

end SourceScribe.Asdl
