import ProtoTypings.Proofs.ItemTexts
/-!
# A declaration file is known from its text

A file without comments is read back line by line. Its indentation is dropped
first: it says nothing that the braces do not say. What is left are the texts of
the header, the imports and the outline, one after the other.

A package and a scope are opened alike; the blank line after the opening of a
package tells them apart.

* `Line.map_withoutIndent_split`: the texts of the lines, found in the text of a
  file.
* `Typings.texts_inj`: a file is known from these texts, up to what is not printed.
* `Typings.lines_printed`: what is not printed does not change the lines.
-/
namespace ProtoTypings

/-! ## Lines without their indentation -/

namespace Text

/-- Whether a character may stand in front of a line. -/
def isIndentChar (c : Char) : Bool := c = ' ' || c = '\t'

def withoutIndent (s : String) : String := String.ofList (s.toList.dropWhile isIndentChar)

/-- A text that is found again in a line: it holds no newline and brings no
indentation of its own. -/
structure IsPlain (t : String) : Prop where
  newline : '\n' ∉ t.toList
  indent : Stops isIndentChar t.toList

theorem withoutIndent_append {s t : String} (hs : IsMadeOf isIndentChar s)
    (ht : Stops isIndentChar t.toList) : withoutIndent (s ++ t) = t := by
  have hchars : t.toList.dropWhile isIndentChar = t.toList := by
    have hsplit := List.takeWhile_append_dropWhile (p := isIndentChar) (l := t.toList)
    rwa [ht.takeWhile, List.nil_append] at hsplit
  rw [withoutIndent, String.toList_append, List.dropWhile_append_of_pos hs, hchars,
    String.ofList_toList]

theorem IsWord.newline {name : String} (h : IsWord name) : '\n' ∉ name.toList := by
  intro hmem
  exact absurd (h.2 '\n' hmem) (by decide)

theorem IsPath.newline {path : String} (h : IsPath path) : '\n' ∉ path.toList := by
  intro hmem
  exact absurd (h '\n' hmem) (by decide)

theorem BeginsWord.indent {t : String} (h : BeginsWord t) : Stops isIndentChar t.toList := by
  intro c hc
  obtain ⟨first, hfirst, hword⟩ := h.head
  obtain rfl : first = c := Option.some.inj (hfirst.symm.trans hc)
  cases hindent : isIndentChar first with
  | false => rfl
  | true =>
    simp only [isIndentChar, Bool.or_eq_true, decide_eq_true_eq] at hindent
    rcases hindent with rfl | rfl
    · exact absurd hword (by decide)
    · exact absurd hword (by decide)

end Text

namespace Line

/-- The text of a line without its indentation. -/
def text : Line → String
  | blank => ""
  | written _ text => text

variable {indent : String} (hindent : Text.IsMadeOf Text.isIndentChar indent)
include hindent

theorem isMadeOf_join (depth : Nat) :
    Text.IsMadeOf Text.isIndentChar (String.join (List.replicate depth indent)) := by
  intro c hc
  rw [String.toList_join, List.mem_flatMap] at hc
  obtain ⟨piece, hpiece, hmem⟩ := hc
  rw [List.eq_of_mem_replicate hpiece] at hmem
  exact hindent c hmem

theorem withoutIndent_body {line : Line} (h : Text.IsPlain line.text) :
    Text.withoutIndent (line.body indent) = line.text := by
  cases line with
  | blank => rfl
  | written depth text =>
    exact Text.withoutIndent_append (isMadeOf_join hindent depth) h.indent

theorem newline_notMem_body {line : Line} (h : Text.IsPlain line.text) :
    '\n' ∉ (line.body indent).toList := by
  cases line with
  | blank => exact List.not_mem_nil
  | written depth text =>
    rw [body, String.toList_append, List.mem_append, not_or]
    refine ⟨fun hmem => ?_, h.newline⟩
    exact absurd (isMadeOf_join hindent depth '\n' hmem) (by decide)

/-- **The texts of the lines** are found in the text of a file. -/
theorem map_withoutIndent_split {lines : List Line}
    (h : ∀ line ∈ lines, Text.IsPlain line.text) :
    (Text.split '\n' (renderAll indent lines)).map Text.withoutIndent =
      lines.map text ++ [""] := by
  have htexts : lines.map text = lines.flatMap fun line => [line.text] := List.map_eq_flatMap
  rw [split_renderAll, List.map_append, List.map_flatMap, htexts]
  refine congrArg (· ++ [""]) (List.flatMap_congr fun line hline => ?_)
  rw [Text.split_of_notMem (newline_notMem_body hindent (h line hline)), List.map_singleton,
    withoutIndent_body hindent (h line hline)]

end Line

/-! ## Texts without newlines -/

theorem ValueType.newline_text {type : ValueType} (h : type.Readable) :
    '\n' ∉ type.text.toList := by
  induction type with
  | named path => exact Text.IsPath.newline h.1
  | array element ih => simpa using ih h
  | map value ih => simpa using ih h
  | _ => simp

theorem CallType.newline_text {call : CallType} (h : call.Readable) : '\n' ∉ call.text.toList := by
  have hinput := h.input.newline
  have houtput := h.output.newline
  have henvelope : '\n' ∉ call.envelope.toList := by simpa [envelope] using houtput
  have hrequest : '\n' ∉ call.request.toList := by
    unfold request step
    split <;> simpa using hinput
  unfold text iterator callback step iterated
  split <;> split <;> try split
  all_goals simp [hinput, hrequest, henvelope]

theorem Property.Readable.isPlain {p : Property} (h : p.Readable) : Text.IsPlain p.text := by
  refine ⟨?_, h.beginsWord.indent⟩
  simp [Property.text, h.name.newline, ValueType.newline_text h.type]

theorem Operation.Readable.isPlain {settings : Settings} {o : Operation}
    (h : o.Readable settings) : Text.IsPlain o.text := by
  refine ⟨?_, h.beginsWord.indent⟩
  simp [Operation.text, h.name.newline, CallType.newline_text h.type]

theorem newline_repr (n : Int) : '\n' ∉ n.repr.toList := by
  have hdigits (m : Nat) : '\n' ∉ m.repr.toList := fun hmem =>
    absurd (Text.isDigit_of_mem_repr hmem) (by decide)
  cases n with
  | ofNat m => exact hdigits m
  | negSucc m =>
    have hsign : (Int.negSucc m).repr = "-" ++ (m + 1).repr := rfl
    rw [hsign, String.toList_append, List.mem_append, not_or]
    exact ⟨by decide, hdigits (m + 1)⟩

theorem Enumerator.Readable.isPlain {e : Enumerator} (h : e.Readable) (style : EnumStyle) :
    Text.IsPlain (e.text style) := by
  refine ⟨?_, (h.beginsWord style).indent⟩
  cases style with
  | numeric => simp [Enumerator.text, h.name.newline, newline_repr]
  | text => simp [Enumerator.text, h.name.newline]

theorem Import.Readable.isPlain {i : Import} (h : i.Readable) : Text.IsPlain i.text := by
  unfold Import.text
  split
  · refine ⟨by simp [h.name.newline, h.newline], ?_⟩
    simp only [String.append_assoc]
    exact Text.stops_append (by decide) (by decide) _
  · refine ⟨by simp [h.name.newline, h.newline], ?_⟩
    simp only [String.append_assoc]
    exact Text.stops_append (by decide) (by decide) _

namespace Item

variable {settings : Settings}

theorem isPlain_opening (modifier : Modifier) {item : Item} (h : '\n' ∉ item.name.toList) :
    Text.IsPlain (item.opening modifier) := by
  constructor
  · cases modifier <;> cases item <;> simpa [opening, Modifier.keyword, kindWord] using h
  · simp only [opening, String.append_assoc]
    cases modifier <;> exact Text.stops_append (by decide) (by decide) _

theorem Readable.name {item : Item} (h : item.Readable settings) : Text.IsWord item.name := by
  cases item <;> exact h.1

theorem isPlain_empty : Text.IsPlain "" := ⟨by decide, by decide⟩

theorem isPlain_brace : Text.IsPlain "\x7d" := ⟨by decide, by decide⟩

theorem allTexts_eq_flatMap (modifier : Modifier) (items : List Item) :
    allTexts settings modifier items =
      items.flatMap fun item => item.opening modifier :: item.tailTexts settings := by
  induction items with
  | nil => rfl
  | cons item rest ih => rw [allTexts, ih, List.flatMap_cons]

theorem isPlain_allTexts_of_forall {modifier : Modifier} {items : List Item}
    (h : AllReadable settings items)
    (htails : ∀ item ∈ items, ∀ t ∈ item.tailTexts settings, Text.IsPlain t) :
    ∀ t ∈ allTexts settings modifier items, Text.IsPlain t := by
  intro t ht
  rw [allTexts_eq_flatMap, List.mem_flatMap] at ht
  obtain ⟨item, hitem, ht⟩ := ht
  rcases List.mem_cons.1 ht with rfl | ht
  · exact isPlain_opening modifier (allReadable_iff.1 h item hitem).name.newline
  · exact htails item hitem t ht

theorem isPlain_tailTexts (item : Item) (h : item.Readable settings) :
    ∀ t ∈ item.tailTexts settings, Text.IsPlain t := by
  induction item using Item.scope_induction with
  | interface name leading properties =>
    simp only [tailTexts, List.forall_mem_append, List.forall_mem_map, List.forall_mem_cons]
    exact ⟨fun p hp => (h.2.2 p hp).isPlain, isPlain_brace, isPlain_empty,
      List.forall_mem_nil _⟩
  | enumeration typing =>
    simp only [tailTexts, List.forall_mem_append, List.forall_mem_map, List.forall_mem_cons]
    exact ⟨fun e he => (h.2.2 e he).isPlain _, isPlain_brace, List.forall_mem_nil _⟩
  | service typing =>
    simp only [tailTexts, List.forall_mem_append, List.forall_mem_map, List.forall_mem_cons]
    exact ⟨fun o ho => (h.2.2 o ho).isPlain, isPlain_brace, List.forall_mem_nil _⟩
  | scope name items ih =>
    simp only [tailTexts, List.forall_mem_append, List.forall_mem_cons]
    refine ⟨isPlain_allTexts_of_forall h.2 fun item hitem => ?_, isPlain_brace, isPlain_empty,
      List.forall_mem_nil _⟩
    exact ih item hitem (allReadable_iff.1 h.2 item hitem)

theorem isPlain_allTexts (modifier : Modifier) {items : List Item}
    (h : AllReadable settings items) : ∀ t ∈ allTexts settings modifier items, Text.IsPlain t :=
  isPlain_allTexts_of_forall h fun item hitem =>
    item.isPlain_tailTexts (allReadable_iff.1 h item hitem)

/-! ## Texts of lines -/

/-- Members without comments are printed on a line each. -/
theorem map_text_membersBlock {α : Type} {depth : Nat} {head : String} {xs : List α}
    {lines : α → List String} {text : α → String} (h : ∀ x ∈ xs, lines x = [text x]) :
    (membersBlock depth none head (xs.flatMap lines)).map Line.text =
      (head ++ " \x7b") :: xs.map text ++ ["\x7d"] := by
  have hlines : xs.flatMap lines = xs.map text := by
    rw [List.map_eq_flatMap]
    exact List.flatMap_congr h
  rw [membersBlock, hlines]
  simp [Comment.leadingLines, Line.block, Line.text, Function.comp_def]

theorem map_text_allLines_of_forall {depth : Nat} {modifier : Modifier} {items : List Item}
    (h : ∀ item ∈ items, (item.lines settings depth modifier).map Line.text =
      item.opening modifier :: item.tailTexts settings) :
    (allLines settings depth modifier items).map Line.text = allTexts settings modifier items := by
  rw [allLines_eq_flatMap, allTexts_eq_flatMap, List.map_flatMap]
  exact List.flatMap_congr h

/-- The texts of the lines of an item. -/
theorem map_text_lines (item : Item) :
    ∀ depth modifier, item.Readable settings →
      (item.lines settings depth modifier).map Line.text =
        item.opening modifier :: item.tailTexts settings := by
  induction item using Item.scope_induction with
  | interface name leading properties =>
    intro depth modifier h
    have hlines : ∀ p ∈ properties, p.lines = [p.text] := by
      intro p hp
      rw [Property.lines_eq, (h.2.2 p hp).comment]
      rfl
    rw [lines, h.2.1, List.map_append, map_text_membersBlock hlines]
    simp [tailTexts, opening, kindWord, Item.name, Line.text]
  | enumeration typing =>
    intro depth modifier h
    have hlines : ∀ e ∈ typing.enumerators,
        e.lines settings.enumStyle = [e.text settings.enumStyle] := by
      intro e he
      rw [Enumerator.lines, (h.2.2 e he).comment]
      rfl
    rw [lines, h.2.1, map_text_membersBlock hlines]
    simp [tailTexts, opening, kindWord, Item.name]
  | service typing =>
    intro depth modifier h
    have hlines : ∀ o ∈ typing.operations, o.lines = [o.text] := by
      intro o ho
      rw [Operation.lines_eq, (h.2.2 o ho).comment]
      rfl
    rw [lines, h.2.1, map_text_membersBlock hlines]
    simp [tailTexts, opening, kindWord, Item.name]
  | scope name items ih =>
    intro depth modifier h
    have hitems := map_text_allLines_of_forall fun item hitem =>
      ih item hitem (depth + 1) .exported (allReadable_iff.1 h.2 item hitem)
    simp [lines, Line.block, Line.text, hitems, tailTexts, opening, kindWord, Item.name]

end Item

/-! ## Files -/

/-- A file without comments whose names, paths and modules can be read. -/
structure Typings.Readable (settings : Settings) (typings : Typings) : Prop where
  imports : ∀ i ∈ typings.imports, i.Readable
  package : ∀ segment ∈ typings.outline.package, Text.IsWord segment
  items : Item.AllReadable settings typings.outline.items

def Typings.printed (style : EnumStyle) (typings : Typings) : Typings where
  imports := typings.imports.map Import.printed
  outline :=
    { package := typings.outline.package
      items := Item.allPrinted style typings.outline.items }

def Import.allTexts (imports : List Import) : List String :=
  if imports.isEmpty then [] else imports.map Import.text ++ [""]

def Outline.texts (settings : Settings) (outline : Outline) : List String :=
  if outline.package.isEmpty then Item.allTexts settings .declared outline.items
  else
    Item.opening (if settings.declareNamespace then .declared else .exported)
      (.scope outline.packageName outline.items) :: "" ::
        Item.allTexts settings .exported outline.items ++ ["\x7d"]

def Typings.texts (settings : Settings) (typings : Typings) : List String :=
  header :: "" :: (Import.allTexts typings.imports ++ typings.outline.texts settings)

section file
variable {settings : Settings} {typings typings' : Typings}

theorem Typings.Readable.map_text_lines (h : typings.Readable settings) :
    (typings.lines settings).map Line.text = typings.texts settings := by
  have hitems (depth : Nat) (modifier : Modifier) :
      (Item.allLines settings depth modifier typings.outline.items).map Line.text =
        Item.allTexts settings modifier typings.outline.items :=
    Item.map_text_allLines_of_forall fun item hitem =>
      item.map_text_lines depth modifier (Item.allReadable_iff.1 h.items item hitem)
  have himports : (Import.allLines typings.imports).map Line.text =
      Import.allTexts typings.imports := by
    unfold Import.allLines Import.allTexts
    split
    · rfl
    · simp [Function.comp_def, Import.line_eq, Line.text]
  have houtline : (typings.outline.lines settings).map Line.text =
      typings.outline.texts settings := by
    unfold Outline.lines Outline.texts
    split
    · exact hitems 0 .declared
    · simp [Line.block, Line.text, hitems, Item.opening, Item.kindWord, Item.name]
  rw [Typings.lines, List.map_append, List.map_append, himports, houtline]
  rfl

theorem Text.isPath_intercalate {names : List String} (h : ∀ name ∈ names, IsWord name) :
    IsPath (".".intercalate names) := by
  induction names with
  | nil => decide
  | cons name rest ih =>
    rw [List.forall_mem_cons] at h
    have hname : IsPath name := fun c hc => by simp [isPathChar, h.1.2 c hc]
    by_cases hrest : rest = []
    · simpa [hrest] using hname
    · rw [String.intercalate_cons_of_ne_nil hrest, IsPath, IsMadeOf]
      simp only [String.toList_append, List.forall_mem_append]
      have hdot : IsPath "." := by decide
      exact ⟨⟨hname, hdot⟩, ih h.2⟩

theorem Typings.Readable.isPlain_texts (h : typings.Readable settings) :
    ∀ t ∈ typings.texts settings, Text.IsPlain t := by
  have himports : ∀ t ∈ Import.allTexts typings.imports, Text.IsPlain t := by
    unfold Import.allTexts
    split
    · exact List.forall_mem_nil _
    · simp only [List.forall_mem_append, List.forall_mem_map, List.forall_mem_singleton]
      exact ⟨fun i hi => (h.imports i hi).isPlain, Item.isPlain_empty⟩
  have houtline : ∀ t ∈ typings.outline.texts settings, Text.IsPlain t := by
    unfold Outline.texts
    split
    · exact Item.isPlain_allTexts .declared h.items
    · simp only [List.cons_append, List.forall_mem_cons, List.forall_mem_append]
      exact ⟨Item.isPlain_opening _ (Text.isPath_intercalate h.package).newline,
        Item.isPlain_empty, Item.isPlain_allTexts .exported h.items, Item.isPlain_brace,
        List.forall_mem_nil _⟩
  simp only [Typings.texts, List.forall_mem_cons, List.forall_mem_append]
  exact ⟨⟨by decide, by decide⟩, Item.isPlain_empty, himports, houtline⟩

/-! ## Imports and outlines -/

theorem Import.head?_text (i : Import) :
    i.text.toList.head? = some 'i' ∨ i.text.toList.head? = some '/' := by
  unfold Import.text
  split
  · left
    simp
  · right
    simp

/-- What may follow the imports: it does not begin like an import. -/
def EndsImports (rest : List String) : Prop :=
  ∀ t ∈ rest.head?, t.toList.head? ≠ some 'i' ∧ t.toList.head? ≠ some '/'

theorem EndsImports.head?_ne {rest : List String} (h : EndsImports rest) (i : Import) :
    rest.head? ≠ some i.text := by
  intro hhead
  obtain ⟨hi, hslash⟩ := h _ hhead
  rcases i.head?_text with htext | htext
  · exact hi htext
  · exact hslash htext

/-- Imports are known from their texts; they end at the first blank line. -/
theorem Import.allTexts_inj {imports imports' : List Import} {rest rest' : List String}
    (h : ∀ i ∈ imports, i.Readable) (h' : ∀ i ∈ imports', i.Readable) (hrest : EndsImports rest)
    (hrest' : EndsImports rest')
    (heq : allTexts imports ++ rest = allTexts imports' ++ rest') :
    imports.map Import.printed = imports'.map Import.printed ∧ rest = rest' := by
  have hblank (i : Import) : (i.text != "") = true := by
    rw [bne_iff_ne]
    intro hempty
    rcases i.head?_text with htext | htext <;> simp [hempty] at htext
  cases imports with
  | nil =>
    cases imports' with
    | nil => exact ⟨rfl, heq⟩
    | cons i' imports' => exact absurd (congrArg List.head? heq) (hrest.head?_ne i')
  | cons i imports =>
    cases imports' with
    | nil => exact absurd (congrArg List.head? heq).symm (hrest'.head?_ne i)
    | cons i' imports' =>
      simp only [allTexts, List.isEmpty_cons, Bool.false_eq_true, if_false, List.append_assoc,
        List.singleton_append] at heq
      obtain ⟨htexts, hends⟩ := append_inj_of_stops (p := (· != ""))
        (List.forall_mem_map.2 fun i _ => hblank i) (List.forall_mem_map.2 fun i _ => hblank i)
        (by simp [Stops]) (by simp [Stops]) heq
      refine ⟨map_eq_map_of_texts (fun i hi i' hi' => ?_) htexts, (List.cons.inj hends).2⟩
      exact Import.text_inj (h i hi) (h' i' hi')

theorem endsImports_opening (modifier : Modifier) (item : Item) (rest : List String) :
    EndsImports (item.opening modifier :: rest) := by
  intro t ht
  obtain rfl : item.opening modifier = t := Option.some.inj ht
  cases modifier <;> simp [Item.opening, Modifier.keyword]

theorem Outline.endsImports_texts (outline : Outline) :
    EndsImports (outline.texts settings) := by
  unfold Outline.texts
  split
  · cases outline.items with
    | nil => exact fun t ht => nomatch ht
    | cons item items => exact endsImports_opening .declared item _
  · exact endsImports_opening _ _ _

/-- Items are no package: after the opening of an item there is no blank line. -/
theorem Item.allTexts_ne_package {modifier : Modifier} {items : List Item}
    (h : AllReadable settings items) (first : String) (rest : List String) :
    allTexts settings modifier items ≠ first :: "" :: rest := by
  intro heq
  cases items with
  | nil => cases heq
  | cons item items =>
    simp only [allTexts, List.cons_append, List.cons.injEq] at heq
    obtain ⟨second, hsecond, hne⟩ := head?_tailTexts h.1
    have hhead := congrArg List.head? heq.2
    rw [List.head?_append, hsecond] at hhead
    exact hne (Option.some.inj hhead)

theorem Outline.package_eq_of_packageName {outline outline' : Outline}
    (h : ∀ segment ∈ outline.package, Text.IsWord segment)
    (h' : ∀ segment ∈ outline'.package, Text.IsWord segment)
    (heq : outline.packageName = outline'.packageName) : outline.package = outline'.package := by
  have hsegment {name : String} (hname : Text.IsWord name) : Dotted.IsSegment name :=
    ⟨hname.1, fun hdot => absurd (hname.2 '.' hdot) (by decide)⟩
  rw [← Dotted.segments_intercalate fun segment hs => hsegment (h segment hs),
    ← Dotted.segments_intercalate fun segment hs => hsegment (h' segment hs)]
  exact congrArg Dotted.segments heq

/-- Outlines are known from their texts. A blank line after the opening of a package
tells it from a scope. -/
theorem Typings.Readable.outline_inj (h : typings.Readable settings)
    (h' : typings'.Readable settings)
    (heq : typings.outline.texts settings = typings'.outline.texts settings) :
    typings.outline.package = typings'.outline.package ∧
      Item.allPrinted settings.enumStyle typings.outline.items =
        Item.allPrinted settings.enumStyle typings'.outline.items := by
  unfold Outline.texts at heq
  cases hpackage : typings.outline.package.isEmpty with
  | true =>
    cases hpackage' : typings'.outline.package.isEmpty with
    | true =>
      have hends : Item.EndsItems [] := fun t ht => nomatch ht
      simp only [hpackage, hpackage', if_true] at heq
      rw [List.isEmpty_iff.1 hpackage, List.isEmpty_iff.1 hpackage']
      exact ⟨rfl, (Item.allTexts_inj h.items h'.items hends hends (congrArg (· ++ []) heq)).1⟩
    | false =>
      simp only [hpackage, hpackage', if_true, Bool.false_eq_true, if_false] at heq
      exact absurd heq (Item.allTexts_ne_package h.items _ _)
  | false =>
    cases hpackage' : typings'.outline.package.isEmpty with
    | true =>
      simp only [hpackage, hpackage', if_true, Bool.false_eq_true, if_false] at heq
      exact absurd heq.symm (Item.allTexts_ne_package h'.items _ _)
    | false =>
      simp only [hpackage, hpackage', Bool.false_eq_true, if_false, List.cons_append,
        List.cons.injEq] at heq
      obtain ⟨hopening, -, hitems⟩ := heq
      have hends : Item.EndsItems ["\x7d"] := by simp [Item.EndsItems]
      exact ⟨Outline.package_eq_of_packageName h.package h'.package (Item.opening_inj hopening).2,
        (Item.allTexts_inj h.items h'.items hends hends hitems).1⟩

/-- A file is known from the texts of its lines, up to what is not printed. -/
theorem Typings.Readable.texts_inj (h : typings.Readable settings)
    (h' : typings'.Readable settings) (heq : typings.texts settings = typings'.texts settings) :
    typings.printed settings.enumStyle = typings'.printed settings.enumStyle := by
  simp only [Typings.texts, List.cons.injEq, true_and] at heq
  obtain ⟨himports, houtline⟩ := Import.allTexts_inj h.imports h'.imports
    typings.outline.endsImports_texts typings'.outline.endsImports_texts heq
  obtain ⟨hpackage, hitems⟩ := h.outline_inj h' houtline
  rw [Typings.printed, Typings.printed, himports, hpackage, hitems]

end file

/-! ## What is not printed -/

theorem Item.allLines_printed_of_forall {settings : Settings} {depth : Nat} {modifier : Modifier}
    {items : List Item}
    (h : ∀ item ∈ items, (item.printed settings.enumStyle).lines settings depth modifier =
      item.lines settings depth modifier) :
    allLines settings depth modifier (allPrinted settings.enumStyle items) =
      allLines settings depth modifier items := by
  induction items with
  | nil => rfl
  | cons item rest ih =>
    rw [List.forall_mem_cons] at h
    rw [allPrinted, allLines, allLines, h.1, ih h.2]

/-- The lines of an item are those of what is printed of it. -/
theorem Item.lines_printed (settings : Settings) (item : Item) :
    ∀ depth modifier, (item.printed settings.enumStyle).lines settings depth modifier =
      item.lines settings depth modifier := by
  induction item using Item.scope_induction with
  | interface name leading properties => exact fun _ _ => rfl
  | enumeration typing =>
    intro depth modifier
    have hlines : ∀ e : Enumerator, (e.printed settings.enumStyle).lines settings.enumStyle =
        e.lines settings.enumStyle := by
      intro e
      cases settings.enumStyle <;> rfl
    simp only [printed, lines, List.flatMap_map, hlines]
  | service typing => exact fun _ _ => rfl
  | scope name items ih =>
    intro depth modifier
    rw [printed, lines, lines,
      allLines_printed_of_forall fun item hitem => ih item hitem (depth + 1) .exported]

/-- The lines of a file are those of what is printed of it. -/
theorem Typings.lines_printed (settings : Settings) (typings : Typings) :
    (typings.printed settings.enumStyle).lines settings = typings.lines settings := by
  have hitems (depth : Nat) (modifier : Modifier) :
      Item.allLines settings depth modifier
          (Item.allPrinted settings.enumStyle typings.outline.items) =
        Item.allLines settings depth modifier typings.outline.items :=
    Item.allLines_printed_of_forall fun item _ => item.lines_printed settings depth modifier
  have himports : Import.allLines (typings.imports.map Import.printed) =
      Import.allLines typings.imports := by
    unfold Import.allLines
    rw [List.isEmpty_map, List.map_map]
    rfl
  have houtline : (typings.printed settings.enumStyle).outline.lines settings =
      typings.outline.lines settings := by
    simp only [Typings.printed, Outline.lines, Outline.packageName, hitems]
  rw [Typings.lines, Typings.lines, houtline]
  exact congrArg (· ++ _) (congrArg ([.written 0 header, .blank] ++ ·) himports)

/-- **A declaration file is known from its text.** Let the indentation be made of
blanks and tabs, and let two files be free of comments, with names and paths that can
be read. Their texts agree exactly when the files agree in all that is printed: the
imports but for the imported files, the package, and the tree of items but for full
names and, where enumerators have texts for values, their numbers. -/
theorem Typings.render_eq_iff {settings : Settings}
    (hindent : ∀ c ∈ settings.indent.toList, c = ' ' ∨ c = '\t') {typings typings' : Typings}
    (h : typings.Readable settings) (h' : typings'.Readable settings) :
    typings.render settings = typings'.render settings ↔
      typings.printed settings.enumStyle = typings'.printed settings.enumStyle := by
  have hblank : Text.IsMadeOf Text.isIndentChar settings.indent := by
    simpa [Text.IsMadeOf, Text.isIndentChar] using hindent
  have htexts {t : Typings} (ht : t.Readable settings) :
      (Text.split '\n' (t.render settings)).map Text.withoutIndent = t.texts settings ++ [""] := by
    have hplain : ∀ line ∈ t.lines settings, Text.IsPlain line.text := by
      rw [← List.forall_mem_map, ht.map_text_lines]
      exact ht.isPlain_texts
    rw [Typings.render, Line.map_withoutIndent_split hblank hplain, ht.map_text_lines]
  constructor
  · intro heq
    have hsame := htexts h
    rw [heq, htexts h'] at hsame
    exact h.texts_inj h' (List.append_cancel_right hsame).symm
  · intro heq
    have hlines := congrArg (Typings.lines settings) heq
    rw [Typings.lines_printed, Typings.lines_printed] at hlines
    rw [Typings.render, Typings.render, hlines]

namespace Sample

/-- A file with an item of every kind. Its full names, its imported file and, where
enumerators have texts for values, its number are not printed. -/
def roster (file fullName : String) (number : Int32) : Typings where
  imports := [{ name := "base", file, specifier := "./lib/base", used := true }]
  outline :=
    { package := ["club", "staff"]
      items :=
        [.interface "Member" none
          [{ name := "tags", type := .map (.array (.named "base.Tag")) }],
         .scope "Member"
          [.enumeration { name := "Role", fullName, enumerators := [{ name := "HEAD", number }] }],
         .service
          { name := "DeskService", fullName
            operations := [{ name := "Enter", type := ⟨.client, "Member", "base.Id", false⟩ }] }] }

theorem readable_roster (style : EnumStyle) (file fullName : String) (number : Int32) :
    (roster file fullName number).Readable { enumStyle := style } where
  imports := List.forall_mem_singleton.2
    ⟨(by decide : Text.IsWord "base"), (by decide : '"' ∉ "./lib/base".toList),
      (by decide : '\n' ∉ "./lib/base".toList)⟩
  package := (by decide : ∀ segment ∈ ["club", "staff"], Text.IsWord segment)
  items := by
    have hproperty : ({ name := "tags", type := .map (.array (.named "base.Tag")) } :
        Property).Readable := ⟨by decide, ⟨by decide, by decide⟩, rfl⟩
    have henumerator : ({ name := "HEAD", number } : Enumerator).Readable :=
      ⟨(by decide : Text.IsWord "HEAD"), rfl⟩
    have hoperation : ({ name := "Enter", type := ⟨.client, "Member", "base.Id", false⟩ } :
        Operation).Readable { enumStyle := style } := ⟨by decide, ⟨by decide, by decide⟩, rfl, rfl⟩
    exact ⟨⟨by decide, rfl, List.forall_mem_singleton.2 hproperty⟩,
      ⟨by decide, ⟨(by decide : Text.IsWord "Role"), rfl,
        List.forall_mem_singleton.2 henumerator⟩, trivial⟩,
      ⟨(by decide : Text.IsWord "DeskService"), rfl,
        List.forall_mem_singleton.2 hoperation⟩, trivial⟩

end Sample

/-- Two files that differ in a number. With texts for values they have the same text; with
numbers the texts differ, since what is printed does. -/
theorem Typings.render_eq_iff_roster :
    (∀ style, (∀ c ∈ ({ enumStyle := style } : Settings).indent.toList, c = ' ' ∨ c = '\t') ∧
      (Sample.roster "lib/base.proto" "club.staff" 1).Readable { enumStyle := style } ∧
      (Sample.roster "base.proto" "" 2).Readable { enumStyle := style }) ∧
    (Sample.roster "lib/base.proto" "club.staff" 1).render { enumStyle := .text } =
      (Sample.roster "base.proto" "" 2).render { enumStyle := .text } ∧
    (Sample.roster "lib/base.proto" "club.staff" 1).render { enumStyle := .numeric } ≠
      (Sample.roster "base.proto" "" 2).render { enumStyle := .numeric } := by
  have hindent (style : EnumStyle) :
      ∀ c ∈ ({ enumStyle := style } : Settings).indent.toList, c = ' ' ∨ c = '\t' := by simp
  have hfirst (style : EnumStyle) :=
    Sample.readable_roster style "lib/base.proto" "club.staff" 1
  have hsecond (style : EnumStyle) := Sample.readable_roster style "base.proto" "" 2
  have hiff (style : EnumStyle) :=
    Typings.render_eq_iff (hindent style) (hfirst style) (hsecond style)
  refine ⟨fun style => ⟨hindent style, hfirst style, hsecond style⟩, (hiff .text).2 rfl,
    fun htexts => ?_⟩
  have hprinted := (hiff .numeric).1 htexts
  simp [Typings.printed, Sample.roster, Item.allPrinted, Item.printed, Enumerator.printed]
    at hprinted

end ProtoTypings
