import Mathlib.Order.Monotone.Basic
import Mathlib.Order.Nat
import ProtoTypings.Proofs.Counterparts
import ProtoTypings.Proofs.RenderedLines
/-!
# Comments in a rendered file

A declaration file with its comments and the same file without them. A comment
may hold anything, line breaks included, and stands at declarations and members
of every depth.

**Grown lists.** `Grown R new xs ys`: the list `ys` is `xs` with every element
replaced as `R` allows, and with elements in between that are `new`. It is stated
about printed lines, where it goes along the outline, and carried over to the
lines of the text.

**Results.**
* `Grown.exists_embedding`: a grown list has all elements of the first list in
  their order, and every other element is new.
* `Item.grown_lines`: the lines of an item, one case for each kind of item.
* `Typings.comments_keep_code`: comments only add lines of their own and endings
  of member lines.
-/
namespace ProtoTypings

/-! ## Grown lists -/

/-- The second list is the first one with its elements replaced as `R` allows and
with `new` elements in between. -/
inductive Grown {α : Type} (R : α → α → Prop) (new : α → Prop) : List α → List α → Prop
  | nil : Grown R new [] []
  | cons {x y : α} {xs ys : List α} : R x y → Grown R new xs ys → Grown R new (x :: xs) (y :: ys)
  | insert {y : α} {xs ys : List α} : new y → Grown R new xs ys → Grown R new xs (y :: ys)

namespace Grown

variable {α β : Type} {R S : α → α → Prop} {new : α → Prop} {xs ys xs' ys' : List α}

theorem refl (hR : ∀ x, R x x) (xs : List α) : Grown R new xs xs := by
  induction xs with
  | nil => exact .nil
  | cons x xs ih => exact .cons (hR x) ih

theorem append (h : Grown R new xs ys) (h' : Grown R new xs' ys') :
    Grown R new (xs ++ xs') (ys ++ ys') := by
  induction h with
  | nil => exact h'
  | cons hxy _ ih => exact .cons hxy ih
  | insert hnew _ ih => exact .insert hnew ih

theorem mono (hRS : ∀ x y, R x y → S x y) (h : Grown R new xs ys) : Grown S new xs ys := by
  induction h with
  | nil => exact .nil
  | cons hxy _ ih => exact .cons (hRS _ _ hxy) ih
  | insert hnew _ ih => exact .insert hnew ih

theorem of_new (h : ∀ y ∈ ys, new y) : Grown R new [] ys := by
  induction ys with
  | nil => exact .nil
  | cons y ys ih =>
    obtain ⟨hy, hys⟩ := List.forall_mem_cons.1 h
    exact .insert hy (ih hys)

theorem flatMap_same {f g : β → List α} {zs : List β}
    (h : ∀ z ∈ zs, Grown R new (f z) (g z)) : Grown R new (zs.flatMap f) (zs.flatMap g) := by
  induction zs with
  | nil => exact .nil
  | cons z zs ih =>
    obtain ⟨hz, hzs⟩ := List.forall_mem_cons.1 h
    exact hz.append (ih hzs)

/-- If every element is cut into pieces, the lists of pieces have grown too. -/
theorem flatMap {R' : β → β → Prop} {new' : β → Prop} {f : α → List β}
    (hR : ∀ x y, R x y → Grown R' new' (f x) (f y)) (hnew : ∀ y, new y → ∀ z ∈ f y, new' z)
    (h : Grown R new xs ys) : Grown R' new' (xs.flatMap f) (ys.flatMap f) := by
  induction h with
  | nil => exact .nil
  | @cons x y _ _ hxy _ ih => exact (hR x y hxy).append ih
  | @insert y _ _ hy _ ih => exact (of_new (hnew y hy)).append ih

/-- **What a grown list keeps.** Its elements are those of the first list, each
replaced as `R` allows and in their order, and elements that are new. -/
theorem exists_embedding (h : Grown R new xs ys) :
    ∃ f : Nat → Nat, StrictMono f ∧
      (∀ i x, xs[i]? = some x → ∃ y, ys[f i]? = some y ∧ R x y) ∧
      ∀ j y, ys[j]? = some y → (∃ i, i < xs.length ∧ f i = j) ∨ new y := by
  induction h with
  | nil => exact ⟨id, strictMono_id, by simp, by simp⟩
  | @cons x y xs ys hxy _ ih =>
    obtain ⟨f, hmono, hkept, hother⟩ := ih
    refine ⟨fun | 0 => 0 | i + 1 => f i + 1, ?_, ?_, ?_⟩
    · intro i j hij
      cases i with
      | zero =>
        cases j with
        | zero => omega
        | succ j => exact Nat.succ_pos _
      | succ i =>
        cases j with
        | zero => omega
        | succ j =>
          have := hmono (show i < j by omega)
          simpa using this
    · intro i z hz
      cases i with
      | zero =>
        obtain rfl : x = z := by simpa using hz
        exact ⟨y, by simp, hxy⟩
      | succ i => simpa using hkept i z (by simpa using hz)
    · intro j z hz
      cases j with
      | zero => exact .inl ⟨0, by simp, rfl⟩
      | succ j =>
        rcases hother j z (by simpa using hz) with ⟨i, hi, hfi⟩ | hnew
        · exact .inl ⟨i + 1, by simpa using hi, by simp [hfi]⟩
        · exact .inr hnew
  | @insert y xs ys hnew _ ih =>
    obtain ⟨f, hmono, hkept, hother⟩ := ih
    refine ⟨fun i => f i + 1, ?_, ?_, ?_⟩
    · intro i j hij
      have := hmono hij
      simpa using this
    · intro i z hz
      simpa using hkept i z hz
    · intro j z hz
      cases j with
      | zero =>
        obtain rfl : y = z := by simpa using hz
        exact .inr hnew
      | succ j =>
        rcases hother j z (by simpa using hz) with ⟨i, hi, hfi⟩ | hnew
        · exact .inl ⟨i, hi, by simp [hfi]⟩
        · exact .inr hnew

end Grown

/-! ## Files without comments -/

def Property.bare (property : Property) : Property := { property with comment := {} }

def Enumerator.bare (e : Enumerator) : Enumerator := { e with comment := {} }

def Operation.bare (operation : Operation) : Operation := { operation with comment := {} }

namespace Item

mutual

/-- An item without the comments at it and inside it. -/
def bare : Item → Item
  | interface name _ properties => interface name none (properties.map Property.bare)
  | enumeration typing => enumeration
      { typing with leading := none, enumerators := typing.enumerators.map Enumerator.bare }
  | service typing => service
      { typing with leading := none, operations := typing.operations.map Operation.bare }
  | scope name items => scope name (allBare items)

def allBare : List Item → List Item
  | [] => []
  | item :: rest => bare item :: allBare rest

end

mutual

/-- The lines of the members of an item, at every depth, without comments. -/
def memberLines (settings : Settings) (depth : Nat) : Item → List Line
  | interface _ _ properties => properties.map fun p => .written (depth + 1) p.text
  | enumeration typing =>
    typing.enumerators.map fun e => .written (depth + 1) (e.text settings.enumStyle)
  | service typing => typing.operations.map fun o => .written (depth + 1) o.text
  | scope _ items => allMemberLines settings (depth + 1) items

def allMemberLines (settings : Settings) (depth : Nat) : List Item → List Line
  | [] => []
  | item :: rest => memberLines settings depth item ++ allMemberLines settings depth rest

end

theorem allBare_eq_map (items : List Item) : allBare items = items.map bare := by
  induction items with
  | nil => rfl
  | cons item rest ih => rw [allBare, ih, List.map_cons]

theorem allMemberLines_eq_flatMap (settings : Settings) (depth : Nat) (items : List Item) :
    allMemberLines settings depth items = items.flatMap (memberLines settings depth) := by
  induction items with
  | nil => rfl
  | cons item rest ih => rw [allMemberLines, ih, List.flatMap_cons]

end Item

def Typings.bare (typings : Typings) : Typings where
  imports := typings.imports
  outline := { typings.outline with items := Item.allBare typings.outline.items }

def Typings.memberLines (settings : Settings) (typings : Typings) : List Line :=
  Item.allMemberLines settings (if typings.outline.package.isEmpty then 0 else 1)
    typings.outline.items

/-! ## Printed lines -/

namespace Line

/-- What comments make of a printed line: it stays as it is, or, if it is that of
a member, a comment follows on it. -/
def FollowedOn (members : List Line) (line line' : Line) : Prop :=
  line' = line ∨ ∃ depth text comment, line = .written depth text ∧ line ∈ members ∧
    '\n' ∉ comment.toList ∧ line' = .written depth (text ++ " // " ++ comment)

/-- A line that is nothing but a comment. -/
def IsComment (line : Line) : Prop :=
  ∃ depth comment, '\n' ∉ comment.toList ∧ line = .written depth ("//" ++ comment)

theorem FollowedOn.refl (members : List Line) (line : Line) : FollowedOn members line line :=
  .inl rfl

theorem FollowedOn.mono {members members' : List Line} (h : members ⊆ members') (line line' : Line)
    (hline : FollowedOn members line line') : FollowedOn members' line line' := by
  rcases hline with heq | ⟨depth, text, comment, heq, hmem, hcomment⟩
  · exact .inl heq
  · exact .inr ⟨depth, text, comment, heq, h hmem, hcomment⟩

end Line

theorem Text.mem_of_mem_trim {s : String} {c : Char} (h : c ∈ (Text.trim s).toList) :
    c ∈ s.toList := by
  rw [Text.trim, String.toList_ofList, Text.trimChars, List.mem_reverse] at h
  have hfront := (List.dropWhile_sublist Text.isBlank).subset h
  exact (List.dropWhile_sublist Text.isBlank).subset (List.mem_reverse.1 hfront)

namespace Comment

theorem isComment_of_mem_leadingLines (leading : Option String) (depth : Nat) :
    ∀ line ∈ (leadingLines leading).map (Line.written depth), line.IsComment := by
  intro line hline
  obtain ⟨text, htext, rfl⟩ := List.mem_map.1 hline
  cases leading with
  | none => cases htext
  | some comment =>
    obtain ⟨piece, hpiece, rfl⟩ := List.mem_map.1 htext
    exact ⟨depth, piece, Text.notMem_of_mem_split hpiece, rfl⟩

theorem notMem_of_mem_trailingLines (trailing : Option String) :
    ∀ text ∈ trailingLines trailing, '\n' ∉ text.toList := by
  intro text htext
  cases trailing with
  | none => cases htext
  | some comment =>
    obtain ⟨piece, hpiece, rfl⟩ := List.mem_map.1 (List.mem_filter.1 htext).1
    exact fun hmem => Text.notMem_of_mem_split hpiece (Text.mem_of_mem_trim hmem)

/-- The lines of a member have grown from one line by its comments. -/
theorem grown_around {members : List Line} {depth : Nat} {text : String}
    (h : .written depth text ∈ members) (comment : Comment) :
    Grown (Line.FollowedOn members) Line.IsComment [.written depth text]
      ((comment.around text).map (.written depth)) := by
  have hleading := Grown.of_new (R := Line.FollowedOn members)
    (isComment_of_mem_leadingLines comment.leading depth)
  rw [around, List.map_append, ← List.nil_append [Line.written depth text]]
  refine hleading.append ?_
  have htrailing := notMem_of_mem_trailingLines comment.trailing
  unfold followedBy
  cases hlines : trailingLines comment.trailing with
  | nil => exact .refl (Line.FollowedOn.refl members) _
  | cons first rest =>
    rw [hlines, List.forall_mem_cons] at htrailing
    refine .cons (.inr ⟨depth, text, first, rfl, h, htrailing.1, rfl⟩) (.of_new ?_)
    intro line hline
    simp only [List.mem_map, List.map_map] at hline
    obtain ⟨last, hlast, rfl⟩ := hline
    refine ⟨depth, " " ++ last, ?_, by simp [← String.append_assoc]⟩
    simpa using htrailing.2 last hlast

end Comment

namespace Item

variable {settings : Settings}

/-- The members of a block grow, and so does the whole declaration. -/
theorem grown_membersBlock {lines : List Line} {depth : Nat} {opening : String}
    {members members' : List String} (leading : Option String)
    (h : Grown (Line.FollowedOn lines) Line.IsComment (members.map (.written (depth + 1)))
      (members'.map (.written (depth + 1)))) :
    Grown (Line.FollowedOn lines) Line.IsComment (membersBlock depth none opening members)
      (membersBlock depth leading opening members') := by
  have hrefl := Line.FollowedOn.refl lines
  have hleading := Grown.of_new (R := Line.FollowedOn lines)
    (Comment.isComment_of_mem_leadingLines leading depth)
  exact hleading.append (.cons (hrefl _) (h.append (.refl hrefl _)))

/-- The lines of a list of members grow by the comments of each. -/
theorem grown_members {α : Type} (text : α → String) {lines : List Line} {depth : Nat}
    {xs : List α} {bare : α → α} {comment : α → Comment} (hbare : ∀ x, comment (bare x) = {})
    (htext : ∀ x, text (bare x) = text x) (hmem : ∀ x ∈ xs, .written depth (text x) ∈ lines) :
    Grown (Line.FollowedOn lines) Line.IsComment
      (((xs.map bare).flatMap fun x => (comment x).around (text x)).map (.written depth))
      ((xs.flatMap fun x => (comment x).around (text x)).map (.written depth)) := by
  rw [List.map_flatMap, List.map_flatMap, List.flatMap_map]
  refine Grown.flatMap_same fun x hx => ?_
  rw [hbare, htext]
  exact Comment.grown_around (hmem x hx) (comment x)

theorem grown_allLines_of_forall {items : List Item} {depth : Nat} {modifier : Modifier}
    (h : ∀ item ∈ items, Grown (Line.FollowedOn (item.memberLines settings depth)) Line.IsComment
      (item.bare.lines settings depth modifier) (item.lines settings depth modifier)) :
    Grown (Line.FollowedOn (allMemberLines settings depth items)) Line.IsComment
      (allLines settings depth modifier (allBare items))
      (allLines settings depth modifier items) := by
  rw [allBare_eq_map, allLines_eq_flatMap, allLines_eq_flatMap, List.flatMap_map]
  refine Grown.flatMap_same fun item hitem => (h item hitem).mono ?_
  refine Line.FollowedOn.mono fun line hline => ?_
  rw [allMemberLines_eq_flatMap]
  exact List.mem_flatMap.2 ⟨item, hitem, hline⟩

/-- **The lines of an item** grow by its comments, at every depth. -/
theorem grown_lines (item : Item) :
    ∀ depth modifier, Grown (Line.FollowedOn (item.memberLines settings depth)) Line.IsComment
      (item.bare.lines settings depth modifier) (item.lines settings depth modifier) := by
  induction item using Item.scope_induction with
  | interface name leading properties =>
    intro depth modifier
    refine (grown_membersBlock leading ?_).append (.refl (Line.FollowedOn.refl _) _)
    exact grown_members Property.text (fun _ => rfl) (fun _ => rfl)
      fun p hp => List.mem_map.2 ⟨p, hp, rfl⟩
  | enumeration typing =>
    intro depth modifier
    refine grown_membersBlock typing.leading ?_
    refine grown_members (Enumerator.text settings.enumStyle) (fun _ => rfl) ?_
      fun e he => List.mem_map.2 ⟨e, he, rfl⟩
    intro e
    cases settings.enumStyle <;> rfl
  | service typing =>
    intro depth modifier
    refine grown_membersBlock typing.leading ?_
    exact grown_members Operation.text (fun _ => rfl) (fun _ => rfl)
      fun o ho => List.mem_map.2 ⟨o, ho, rfl⟩
  | scope name items ih =>
    intro depth modifier
    have hrefl := Line.FollowedOn.refl (Item.memberLines settings depth (.scope name items))
    refine Grown.append (.cons (hrefl _) (Grown.append ?_ (.refl hrefl _))) (.refl hrefl _)
    exact grown_allLines_of_forall fun item hitem => ih item hitem (depth + 1) .exported

end Item

theorem Typings.grown_lines (settings : Settings) (typings : Typings) :
    Grown (Line.FollowedOn (typings.memberLines settings)) Line.IsComment
      (typings.bare.lines settings) (typings.lines settings) := by
  have hrefl := Line.FollowedOn.refl (typings.memberLines settings)
  refine Grown.append (.refl hrefl _) ?_
  unfold Outline.lines Typings.memberLines
  cases hpackage : typings.outline.package.isEmpty with
  | true =>
    simp only [Typings.bare, hpackage, ↓reduceIte]
    exact Item.grown_allLines_of_forall fun item _ => item.grown_lines 0 .declared
  | false =>
    simp only [Typings.bare, hpackage, Bool.false_eq_true, ↓reduceIte]
    refine .cons (.inl rfl) (.cons (.inl rfl) (Grown.append ?_ (.refl (.refl _) _)))
    exact Item.grown_allLines_of_forall fun item _ => item.grown_lines 1 .exported

/-! ## Lines of the text -/

/-- The last line of the text of a member. It is the whole text, unless a name in
it holds a newline. -/
def Typings.IsMemberLine (settings : Settings) (typings : Typings) (text : String) : Prop :=
  ∃ line ∈ typings.memberLines settings,
    (Text.split '\n' (line.body settings.indent)).getLast? = some text

/-- What comments make of a line of the text. -/
def Typings.Extends (settings : Settings) (typings : Typings) (line line' : String) : Prop :=
  line' = line ∨ typings.IsMemberLine settings line ∧
    ∃ comment : String, '\n' ∉ comment.toList ∧ line' = line ++ " // " ++ comment

/-- A line of the text that is nothing but a comment. -/
def Settings.IsCommentLine (settings : Settings) (line : String) : Prop :=
  ∃ (depth : Nat) (comment : String), '\n' ∉ comment.toList ∧
    line = String.join (List.replicate depth settings.indent) ++ "//" ++ comment

section text
variable {settings : Settings} {typings : Typings}

/-- A comment that follows on a printed line follows on its last line. -/
theorem Line.FollowedOn.grown_split {line line' : Line}
    (h : FollowedOn (typings.memberLines settings) line line') :
    Grown (typings.Extends settings) settings.IsCommentLine
      (Text.split '\n' (line.body settings.indent))
      (Text.split '\n' (line'.body settings.indent)) := by
  have hrefl : ∀ text, typings.Extends settings text text := fun _ => .inl rfl
  rcases h with rfl | ⟨depth, text, comment, rfl, hmem, hcomment, rfl⟩
  · exact .refl hrefl _
  · have hending : '\n' ∉ (" // " ++ comment).toList := by simpa using hcomment
    obtain ⟨init, last, hsplit, hextended⟩ := Text.split_append_of_notMem hending
      ((Line.written depth text).body settings.indent)
    have hbody : (Line.written depth (text ++ " // " ++ comment)).body settings.indent =
        (Line.written depth text).body settings.indent ++ (" // " ++ comment) := by
      simp only [Line.body, String.append_assoc]
    rw [hbody, hextended, hsplit]
    refine (Grown.refl hrefl init).append (.cons (.inr ⟨⟨_, hmem, ?_⟩, comment, hcomment, ?_⟩) .nil)
    · rw [hsplit, List.getLast?_concat]
    · rw [String.append_assoc]

/-- The printed line of a comment is one line, if the indentation is. -/
theorem Line.IsComment.isCommentLine (hindent : '\n' ∉ settings.indent.toList) {line : Line}
    (h : line.IsComment) :
    ∀ text ∈ Text.split '\n' (line.body settings.indent), settings.IsCommentLine text := by
  obtain ⟨depth, comment, hcomment, rfl⟩ := h
  have hbody : '\n' ∉ ((Line.written depth ("//" ++ comment)).body settings.indent).toList := by
    simp only [Line.body, String.toList_append, String.toList_join, List.mem_append, not_or,
      List.mem_flatMap, List.mem_replicate]
    refine ⟨?_, by decide, hcomment⟩
    rintro ⟨piece, ⟨-, rfl⟩, hmem⟩
    exact hindent hmem
  rw [Text.split_of_notMem hbody]
  intro text htext
  rw [List.mem_singleton.1 htext]
  exact ⟨depth, comment, hcomment, by simp only [Line.body, String.append_assoc]⟩

end text

/-- **Comments keep the code.** Let the indentation hold no newline. The lines of a
declaration file without comments are found again in the file with comments, in
their order. Each stays as it is, or it is the last line of a member and a comment
follows on it after two slashes. Every other line is nothing but indentation and a
comment. No comment holds a newline. -/
theorem Typings.comments_keep_code {settings : Settings}
    (hindent : '\n' ∉ settings.indent.toList) (typings : Typings) :
    ∃ f : Nat → Nat, StrictMono f ∧
      (∀ i line, (Text.split '\n' (typings.bare.render settings))[i]? = some line →
        ∃ line', (Text.split '\n' (typings.render settings))[f i]? = some line' ∧
          (line' = line ∨ typings.IsMemberLine settings line ∧
            ∃ comment : String, '\n' ∉ comment.toList ∧ line' = line ++ " // " ++ comment)) ∧
      ∀ j line', (Text.split '\n' (typings.render settings))[j]? = some line' →
        (∃ i, i < (Text.split '\n' (typings.bare.render settings)).length ∧ f i = j) ∨
        ∃ (depth : Nat) (comment : String), '\n' ∉ comment.toList ∧
          line' = String.join (List.replicate depth settings.indent) ++ "//" ++ comment := by
  have htext : Grown (typings.Extends settings) settings.IsCommentLine
      (Text.split '\n' (typings.bare.render settings))
      (Text.split '\n' (typings.render settings)) := by
    unfold Typings.render
    rw [Line.split_renderAll, Line.split_renderAll]
    refine Grown.append ?_ (.refl (fun _ => .inl rfl) _)
    exact (typings.grown_lines settings).flatMap (fun _ _ h => h.grown_split)
      fun _ h => h.isCommentLine hindent
  exact htext.exists_embedding

/-- A property with an empty comment above it and several lines, one of them
empty, after it. -/
def Sample.remarks : Typings where
  outline :=
    { package := ["shop"]
      items := [.interface "Order" (some " One\n two\n")
        [{ name := "lines", type := .array .number
           comment := { leading := some "", trailing := some " three\r\n\n four // five\n" } }]] }

theorem Typings.comments_keep_code_remarks :
    '\n' ∉ ({} : Settings).indent.toList ∧
      ∃ f : Nat → Nat, StrictMono f ∧
        ∀ j line', (Text.split '\n' (Sample.remarks.render {}))[j]? = some line' →
          (∃ i, i < (Text.split '\n' (Sample.remarks.bare.render {})).length ∧ f i = j) ∨
            ({} : Settings).IsCommentLine line' := by
  have hindent : '\n' ∉ ({} : Settings).indent.toList := by decide
  obtain ⟨f, hmono, -, hother⟩ := Typings.comments_keep_code hindent Sample.remarks
  exact ⟨hindent, f, hmono, hother⟩

end ProtoTypings
