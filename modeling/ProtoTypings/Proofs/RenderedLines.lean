import ProtoTypings.Outline.Printer
import ProtoTypings.Proofs.Segments
/-!
# Lines of a rendered file

A declaration file is printed line after line, each with its newline. A printed
line may itself hold newlines, since nothing is known about names. Here the text
is cut at its newlines again.

**Results.**
* `Text.notMem_of_mem_split`: a piece does not hold the separator.
* `Text.split_append_of_notMem`: what is written at the end of a text stands at
  the end of its last piece.
* `Line.split_renderAll`: the lines of the text are those of the printed lines,
  in order.
-/
namespace ProtoTypings

namespace Text

variable {sep : Char}

theorem notMem_of_mem_splitChars {cs : List Char} :
    ∀ piece ∈ splitChars sep cs, sep ∉ piece := by
  induction cs with
  | nil => simp [splitChars]
  | cons c cs ih =>
    rw [splitChars]
    split
    · next h => exact absurd h (splitChars_ne_nil sep cs)
    · next piece pieces h =>
      rw [h, List.forall_mem_cons] at ih
      split
      · simpa using ih
      · next hc =>
        rw [List.forall_mem_cons]
        refine ⟨?_, ih.2⟩
        simp only [List.mem_cons, not_or]
        exact ⟨Ne.symm hc, ih.1⟩

theorem notMem_of_mem_split {s piece : String} (h : piece ∈ split sep s) :
    sep ∉ piece.toList := by
  obtain ⟨cs, hcs, rfl⟩ := List.mem_map.1 h
  simpa using notMem_of_mem_splitChars cs hcs

theorem split_of_notMem {s : String} (h : sep ∉ s.toList) : split sep s = [s] := by
  simp [split, splitChars_of_notMem h]

theorem splitChars_append_of_notMem {bs : List Char} (h : sep ∉ bs) (as : List Char) :
    ∃ init last, splitChars sep as = init ++ [last] ∧
      splitChars sep (as ++ bs) = init ++ [last ++ bs] := by
  induction as with
  | nil => exact ⟨[], [], rfl, splitChars_of_notMem h⟩
  | cons a as ih =>
    obtain ⟨init, last, has, hbs⟩ := ih
    rw [List.cons_append, splitChars, splitChars, has, hbs]
    cases init with
    | nil =>
      by_cases ha : a = sep
      · exact ⟨[[]], last, by simp [ha], by simp [ha]⟩
      · exact ⟨[], a :: last, by simp [ha], by simp [ha]⟩
    | cons piece pieces =>
      by_cases ha : a = sep
      · exact ⟨[] :: piece :: pieces, last, by simp [ha], by simp [ha]⟩
      · exact ⟨(a :: piece) :: pieces, last, by simp [ha], by simp [ha]⟩

/-- What is written at the end of a text, and holds no separator, stands at the
end of its last piece. -/
theorem split_append_of_notMem {t : String} (h : sep ∉ t.toList) (s : String) :
    ∃ init last, split sep s = init ++ [last] ∧ split sep (s ++ t) = init ++ [last ++ t] := by
  obtain ⟨init, last, hs, hst⟩ := splitChars_append_of_notMem h s.toList
  refine ⟨init.map String.ofList, String.ofList last, by simp [split, hs], ?_⟩
  simp [split, hst, String.ofList_append]

end Text

namespace Line

/-- The text of a line with its indentation, but without its newline. -/
def body (indent : String) : Line → String
  | blank => ""
  | written depth text => String.join (List.replicate depth indent) ++ text

theorem render_eq (indent : String) (line : Line) :
    line.render indent = line.body indent ++ "\n" := by
  cases line with
  | blank => rfl
  | written depth text => rfl

/-- **The lines of the text** are those of the printed lines, in order; after
the last newline nothing follows. -/
theorem split_renderAll (indent : String) (lines : List Line) :
    Text.split '\n' (renderAll indent lines) =
      lines.flatMap (fun line => Text.split '\n' (line.body indent)) ++ [""] := by
  induction lines with
  | nil => rfl
  | cons line rest ih =>
    have hcons : renderAll indent (line :: rest) =
        line.body indent ++ String.singleton '\n' ++ renderAll indent rest := by
      rw [renderAll, List.map_cons, String.join_cons, render_eq]
      rfl
    rw [hcons, Text.split_append_sep, ih, List.flatMap_cons, List.append_assoc]

end Line

/-! ## Members -/

def Property.text (property : Property) : String :=
  property.name ++ "?: " ++ property.type.text ++ ";"

def Operation.text (operation : Operation) : String :=
  operation.name ++ ": " ++ operation.type.text ++ ";"

theorem Property.lines_eq (property : Property) :
    property.lines = property.comment.around property.text := rfl

theorem Operation.lines_eq (operation : Operation) :
    operation.lines = operation.comment.around operation.text := rfl

theorem Item.allLines_eq_flatMap (settings : Settings) (depth : Nat) (modifier : Modifier)
    (items : List Item) :
    Item.allLines settings depth modifier items =
      items.flatMap (Item.lines settings depth modifier) := by
  induction items with
  | nil => rfl
  | cons item rest ih => rw [Item.allLines, ih, List.flatMap_cons]

end ProtoTypings
