import Mathlib.Data.Nat.Find
import ProtoTypings.Proofs.CommentLines
import ProtoTypings.Proofs.LocatedElements
/-!
# Aliases in enums

Several values of an enum may have one number. The first of them names the member, and the others
are left out; they still count when positions are counted, since comments are kept by position.
Numbers may be negative, come in any order and be left out, which reads as zero.

**Kept values.** `EnumType.firstValues` are the values that no value before them has the number
of, with their positions. Everything about the members is said by them.

**Results.**
* `EnumType.mem_firstValues_iff`, `EnumType.firstValues_ascending`: which values are kept, in the
  order of their positions.
* `EnumType.exists_first`: every number has a first value.
* `EnumTyping.printsAs`: the lines of an enumeration, one for each member.
* `EnumType.aliases_dropped`: the members of an enum and how they are printed.
-/
namespace ProtoTypings

namespace EnumType

variable (enum : EnumType)

/-! ## Values that are kept -/

theorem mem_firstValues_iff {value : EnumValue} {i : Nat} :
    (value, i) ∈ enum.firstValues ↔ enum.values[i]? = some value ∧
      ∀ j < i, ∀ earlier, enum.values[j]? = some earlier → earlier.code ≠ value.code := by
  have hearlier : value.code ∉ (enum.values.take i).map EnumValue.code ↔
      ∀ j < i, ∀ earlier, enum.values[j]? = some earlier → earlier.code ≠ value.code := by
    constructor
    · intro h j hj earlier hget heq
      have hmem : earlier ∈ enum.values.take i :=
        List.mem_of_getElem? ((List.getElem?_take_of_lt hj).trans hget)
      exact h (List.mem_map.2 ⟨earlier, hmem, heq⟩)
    · intro h hmem
      obtain ⟨earlier, hearlier, heq⟩ := List.mem_map.1 hmem
      obtain ⟨j, hj, hget⟩ := List.mem_take_iff_getElem.1 hearlier
      have hlt : j < i := by omega
      exact h j hlt earlier (List.getElem?_eq_some_iff.2 ⟨_, hget⟩) heq
  rw [firstValues, List.mem_filter, List.mem_zipIdx_iff_getElem?, decide_eq_true_eq, hearlier]

theorem firstValues_ascending : (enum.firstValues.map (·.2)).Pairwise (· < ·) := by
  have hall : (enum.values.zipIdx.map (·.2)).Pairwise (· < ·) := by
    rw [List.zipIdx_map_snd]
    exact List.pairwise_lt_range'
  exact hall.sublist (enum.firstValues_sublist.map _)

/-- Of the values with a number, the one at the least position is kept. -/
theorem exists_first {value : EnumValue} (h : value ∈ enum.values) :
    ∃ first, first ∈ enum.firstValues ∧ first.1.code = value.code := by
  have hsome : ∃ (i : Nat) (other : EnumValue),
      enum.values[i]? = some other ∧ other.code = value.code := by
    obtain ⟨i, hi⟩ := List.mem_iff_getElem?.1 h
    exact ⟨i, value, hi, rfl⟩
  obtain ⟨other, hget, hcode⟩ := Nat.find_spec hsome
  refine ⟨(other, Nat.find hsome), enum.mem_firstValues_iff.2 ⟨hget, ?_⟩, hcode⟩
  intro j hj earlier hearlier heq
  exact Nat.find_min hsome hj ⟨earlier, hearlier, heq.trans hcode⟩

theorem mem_codes_firstValues_iff {n : Int32} :
    n ∈ enum.firstValues.map (fun value => value.1.code) ↔ n ∈ enum.values.map EnumValue.code := by
  constructor
  · intro h
    obtain ⟨⟨value, i⟩, hmem, rfl⟩ := List.mem_map.1 h
    exact List.mem_map_of_mem (List.mem_of_getElem? (enum.mem_firstValues_iff.1 hmem).1)
  · intro h
    obtain ⟨value, hmem, rfl⟩ := List.mem_map.1 h
    obtain ⟨first, hfirst, hcode⟩ := enum.exists_first hmem
    exact List.mem_map.2 ⟨first, hfirst, hcode⟩

/-- The members of an enum are its kept values, with the comments at their positions. -/
theorem enumerators_typing (context : TypingContext) (outer : String) (path : List Int32) :
    (enum.typing context outer path).enumerators = enum.firstValues.map fun value =>
      { name := value.1.name, number := value.1.code
        comment := context.comment (PathStep.enumValue.child path value.2) } := by
  rw [typing, EnumValue.firstOfNumber_zipIdx]
  rfl

end EnumType

/-! ## Lines of an enumeration -/

/-- In a style, the lines of an enumeration are an opening line, one line for each of `texts` and a
closing line, in this order. Comments may follow on the lines of `texts`, and all other lines are
nothing but comments. -/
def EnumTyping.PrintsAs (typing : EnumTyping) (style : EnumStyle) (texts : List String) : Prop :=
  ∀ (settings : Settings) (depth : Nat) (modifier : Modifier), settings.enumStyle = style →
    Grown (Line.FollowedOn (texts.map (.written (depth + 1)))) Line.IsComment
      (Line.block depth (modifier.keyword ++ " enum " ++ typing.name)
        (texts.map (.written (depth + 1))))
      (Item.lines settings depth modifier (.enumeration typing))

theorem EnumTyping.printsAs (typing : EnumTyping) (style : EnumStyle) :
    typing.PrintsAs style (typing.enumerators.map (Enumerator.text style)) := by
  rintro settings depth modifier rfl
  have hgrown := @Item.grown_lines settings (.enumeration typing) depth modifier
  -- without comments, a member is its own line
  have hbare :
      (typing.enumerators.map Enumerator.bare).flatMap (Enumerator.lines settings.enumStyle) =
        typing.enumerators.map (Enumerator.text settings.enumStyle) := by
    rw [List.flatMap_map, List.map_eq_flatMap]
    rfl
  rw [Item.bare, Item.lines, Item.memberLines, hbare, Item.membersBlock, List.map_map] at hgrown
  rw [List.map_map]
  exact hgrown

namespace EnumType

/-- **Aliases are left out.** The members of an enum have different numbers, and these are the
numbers of its values. The members are the values that no value before them has the number of, in
the order of declaration. Each has the value's own name and number, and the comments of its position
among all values. The enumeration is printed with one line for each of them in this order, which
assigns the number or the name in quotes. -/
theorem aliases_dropped (enum : EnumType) (context : TypingContext) (outer : String)
    (path : List Int32) :
    ((enum.typing context outer path).enumerators.map (·.number)).Nodup ∧
    (∀ n, n ∈ (enum.typing context outer path).enumerators.map (·.number) ↔
      n ∈ enum.values.map (·.number.getD 0)) ∧
    ∃ kept : List (EnumValue × Nat),
      (kept.map (·.2)).Pairwise (· < ·) ∧
      (∀ value i, (value, i) ∈ kept ↔ enum.values[i]? = some value ∧
        ∀ j < i, ∀ earlier, enum.values[j]? = some earlier →
          earlier.number.getD 0 ≠ value.number.getD 0) ∧
      (enum.typing context outer path).enumerators = (kept.map fun value =>
        { name := value.1.name, number := value.1.number.getD 0
          comment := context.comment (path ++ [2, Int32.ofNat value.2]) }) ∧
      (enum.typing context outer path).PrintsAs .numeric
        (kept.map fun value =>
          value.1.name ++ " = " ++ toString (value.1.number.getD 0).toInt ++ ",") ∧
      (enum.typing context outer path).PrintsAs .text
        (kept.map fun value => value.1.name ++ " = \"" ++ value.1.name ++ "\",") := by
  have htyping := enum.enumerators_typing context outer path
  have hnumbers : (enum.typing context outer path).enumerators.map (·.number) =
      enum.firstValues.map fun value => value.1.code := by
    rw [htyping, List.map_map]
    rfl
  have hprints := (enum.typing context outer path).printsAs
  refine ⟨hnumbers ▸ enum.codes_firstValues_nodup, fun n => ?_, enum.firstValues,
    enum.firstValues_ascending, fun _ _ => enum.mem_firstValues_iff, htyping, ?_, ?_⟩
  · rw [hnumbers, enum.mem_codes_firstValues_iff]
    rfl
  · have hnumeric := hprints .numeric
    rw [htyping, List.map_map] at hnumeric
    exact hnumeric
  · have htext := hprints .text
    rw [htyping, List.map_map] at htext
    exact htext

/-- `B` has no number and `C` repeats its zero; the comment behind `D` is kept by its position among
all values. -/
example :
    (typing ⟨{}, "level.proto", [{ path := [5, 0, 2, 3], trailing := some "below" }]⟩ "" [5, 0]
      { name := "Level"
        values := [⟨"A", some 1⟩, ⟨"B", none⟩, ⟨"C", some 0⟩, ⟨"D", some (-3)⟩, ⟨"E", some 1⟩] }
      ).enumerators =
    [⟨"A", 1, {}⟩, ⟨"B", 0, {}⟩, ⟨"D", -3, { trailing := some "below" }⟩] := by decide

end EnumType
end ProtoTypings
