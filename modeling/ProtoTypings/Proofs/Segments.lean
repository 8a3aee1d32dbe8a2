import ProtoTypings.Dotted
/-!
# Segments of dotted names

A dotted name is put together with `join` from the empty name, one segment at
a time, and `segments` takes it apart again. Both directions need segments
that are not empty and hold no dot.

* `segments_join`: joining appends one segment, whatever the scope is.
* `ofSegments_segments_join`: a name put together from segments is given back
  by them.
* `segments_intercalate`: the segments of a package written with dots.
* `join_inj`, `outerBackwards_join`: a name without a dot can be taken off the
  scope that it was joined with.
-/
namespace ProtoTypings

namespace Text

theorem splitChars_ne_nil (sep : Char) (cs : List Char) : splitChars sep cs ≠ [] := by
  cases cs with
  | nil => simp [splitChars]
  | cons c cs =>
    rw [splitChars]
    split
    · simp
    · split <;> simp

theorem splitChars_sep (sep : Char) (cs : List Char) :
    splitChars sep (sep :: cs) = [] :: splitChars sep cs := by
  rw [splitChars]
  split
  · next h => exact absurd h (splitChars_ne_nil sep cs)
  · next h => simp [h]

theorem splitChars_append_sep (sep : Char) (as bs : List Char) :
    splitChars sep (as ++ sep :: bs) = splitChars sep as ++ splitChars sep bs := by
  induction as with
  | nil => exact splitChars_sep sep bs
  | cons a as ih =>
    rw [List.cons_append, splitChars, ih, splitChars]
    cases hs : splitChars sep as with
    | nil => exact absurd hs (splitChars_ne_nil sep as)
    | cons piece pieces =>
      by_cases ha : a = sep
      · simp [ha]
      · simp [ha]

theorem splitChars_of_notMem {sep : Char} {cs : List Char} (h : sep ∉ cs) :
    splitChars sep cs = [cs] := by
  induction cs with
  | nil => rfl
  | cons c cs ih =>
    rw [List.mem_cons, not_or] at h
    rw [splitChars, ih h.2]
    simp [Ne.symm h.1]

theorem forall_ne_of_notMem {sep : Char} {cs : List Char} (h : sep ∉ cs) :
    ∀ c ∈ cs, decide (c ≠ sep) = true := by
  intro c hc
  rw [decide_eq_true_eq]
  rintro rfl
  exact h hc

/-- The pieces of two texts with a separator between them. -/
theorem split_append_sep (sep : Char) (s t : String) :
    split sep (s ++ String.singleton sep ++ t) = split sep s ++ split sep t := by
  have hchars : (s ++ String.singleton sep ++ t).toList = s.toList ++ sep :: t.toList := by simp
  rw [split, hchars, splitChars_append_sep, List.map_append]
  rfl

theorem splitNonempty_append_sep (sep : Char) (s t : String) :
    splitNonempty sep (s ++ String.singleton sep ++ t) =
      splitNonempty sep s ++ splitNonempty sep t := by
  rw [splitNonempty, split_append_sep, List.filter_append]
  rfl

end Text

namespace Dotted

/-- A name that can stand between two dots. -/
def IsSegment (name : String) : Prop := name ≠ "" ∧ '.' ∉ name.toList

instance (name : String) : Decidable (IsSegment name) :=
  inferInstanceAs (Decidable (_ ∧ _))

def segments (name : String) : List String := Text.splitNonempty '.' name

def ofSegments (names : List String) : String := names.foldl join ""

@[simp] theorem segments_empty : segments "" = [] := by decide

@[simp] theorem join_empty_left (name : String) : join "" name = name := by simp [join]

theorem join_of_ne {scope : String} (h : scope ≠ "") (name : String) :
    join scope name = scope ++ "." ++ name := by simp [join, h]

theorem join_ne_empty (scope : String) {name : String} (h : name ≠ "") : join scope name ≠ "" := by
  by_cases hs : scope = ""
  · simpa [hs] using h
  · rw [join_of_ne hs]
    simp

@[simp] theorem join_eq_empty_iff {scope name : String} :
    join scope name = "" ↔ scope = "" ∧ name = "" := by
  by_cases hs : scope = ""
  · simp [hs]
  · simp [join_of_ne hs, hs]

theorem join_join (package : String) {outer : String} (h : outer ≠ "") (name : String) :
    join package (join outer name) = join (join package outer) name := by
  rw [join_of_ne h, join_of_ne (join_ne_empty package h)]
  by_cases hp : package = ""
  · rw [hp, join_empty_left, join_empty_left]
  · rw [join_of_ne hp, join_of_ne hp]
    simp only [String.append_assoc]

theorem join_right_inj {scope name name' : String} :
    join scope name = join scope name' ↔ name = name' := by
  by_cases hs : scope = ""
  · simp [hs]
  · simp [join_of_ne hs]

theorem segments_of_isSegment {name : String} (h : IsSegment name) : segments name = [name] := by
  rw [segments, Text.splitNonempty, Text.split, Text.splitChars_of_notMem h.2]
  simp [h.1]

theorem segments_dot (s t : String) : segments (s ++ "." ++ t) = segments s ++ segments t :=
  Text.splitNonempty_append_sep '.' s t

theorem segments_join (scope : String) {name : String} (h : IsSegment name) :
    segments (join scope name) = segments scope ++ [name] := by
  by_cases hs : scope = ""
  · simp [hs, segments_of_isSegment h]
  · rw [join_of_ne hs, segments_dot, segments_of_isSegment h]

@[simp] theorem ofSegments_append (names : List String) (name : String) :
    ofSegments (names ++ [name]) = join (ofSegments names) name := by
  simp [ofSegments]

/-- Joining names one after the other puts dots between them; names at the front that are
empty leave nothing. -/
theorem foldl_join (place : String) (names : List String) :
    names.foldl join place = ".".intercalate ((place :: names).dropWhile (· = "")) := by
  induction names generalizing place with
  | nil => by_cases hplace : place = "" <;> simp [hplace]
  | cons name rest ih =>
    rw [List.foldl_cons, ih]
    by_cases hplace : place = ""
    · rw [hplace, join_empty_left, List.dropWhile_cons_of_pos (by simp) (a := "")]
    · have hjoined : join place name = place ++ "." ++ name := join_of_ne hplace name
      rw [hjoined, List.dropWhile_cons_of_neg (by simp),
        List.dropWhile_cons_of_neg (by simpa using hplace)]
      rfl

theorem ofSegments_eq_intercalate (names : List String) :
    ofSegments names = ".".intercalate (names.dropWhile (· = "")) := by
  rw [ofSegments, foldl_join, List.dropWhile_cons_of_pos (by simp)]

theorem ofSegments_segments_join {scope name : String} (h : IsSegment name)
    (hscope : ofSegments (segments scope) = scope) :
    ofSegments (segments (join scope name)) = join scope name := by
  rw [segments_join scope h, ofSegments_append, hscope]

theorem segments_intercalate {names : List String} (h : ∀ name ∈ names, IsSegment name) :
    segments (".".intercalate names) = names := by
  induction names with
  | nil => simp
  | cons name rest ih =>
    have hname := h name List.mem_cons_self
    have hrest := ih fun n hn => h n (List.mem_cons_of_mem _ hn)
    by_cases hr : rest = []
    · simp [hr, segments_of_isSegment hname]
    · rw [String.intercalate_cons_of_ne_nil hr, segments_dot, hrest,
        segments_of_isSegment hname]
      rfl

/-- The first segment of a name is what stands before its first dot. -/
theorem head_intercalate {name : String} (h : IsSegment name) (rest : List String) :
    head (".".intercalate (name :: rest)) = name := by
  have hchars := Text.forall_ne_of_notMem h.2
  by_cases hr : rest = []
  · rw [hr, String.intercalate_singleton, head, ← List.append_nil name.toList,
      List.takeWhile_append_of_pos hchars]
    simp
  · rw [String.intercalate_cons_of_ne_nil hr, head, String.toList_append, String.toList_append,
      List.append_assoc, List.takeWhile_append_of_pos hchars]
    simp

theorem dot_suffix_of_mem_afterDots {cs rest : List Char} (h : rest ∈ afterDots cs) :
    '.' :: rest <:+ cs := by
  induction cs with
  | nil => cases h
  | cons c cs ih =>
    rw [afterDots] at h
    split at h
    · next hc =>
      obtain rfl | h := List.mem_cons.1 h
      · exact hc ▸ List.suffix_refl _
      · exact (ih h).trans (List.suffix_cons c cs)
    · exact (ih h).trans (List.suffix_cons c cs)

/-- Cutting off the last segment brings in no character. -/
theorem mem_toList_of_mem_parent {name : String} {c : Char} (h : c ∈ (parent name).toList) :
    c ∈ name.toList := by
  rw [parent, ofBackwards, String.toList_ofList, List.mem_reverse, outerBackwards] at h
  cases hdots : afterDots name.toList.reverse with
  | nil =>
    rw [hdots] at h
    cases h
  | cons rest more =>
    rw [hdots] at h
    have hsuffix : '.' :: rest <:+ name.toList.reverse :=
      dot_suffix_of_mem_afterDots (by rw [hdots]; exact List.mem_cons_self)
    exact List.mem_reverse.1 (hsuffix.subset (List.mem_cons_of_mem _ h))

/-! ## Taking the last name off -/

theorem afterDots_append_of_notMem {as : List Char} (h : '.' ∉ as) (bs : List Char) :
    afterDots (as ++ bs) = afterDots bs := by
  induction as with
  | nil => rfl
  | cons a as ih =>
    rw [List.mem_cons, not_or] at h
    rw [List.cons_append, afterDots, if_neg (Ne.symm h.1), ih h.2]

theorem outerBackwards_of_notMem {name : String} (h : '.' ∉ name.toList) :
    outerBackwards name.toList.reverse = [[]] := by
  have hdots : afterDots (name.toList.reverse ++ []) = afterDots [] :=
    afterDots_append_of_notMem (by simpa using h) []
  rw [List.append_nil] at hdots
  rw [outerBackwards, hdots]
  rfl

/-- Around a name without a dot that is joined with a scope are the scope and
what is around it. -/
theorem outerBackwards_join {scope name : String} (hscope : scope ≠ "")
    (hname : '.' ∉ name.toList) :
    outerBackwards (join scope name).toList.reverse =
      scope.toList.reverse :: outerBackwards scope.toList.reverse := by
  have hchars : (join scope name).toList.reverse =
      name.toList.reverse ++ '.' :: scope.toList.reverse := by
    simp [join_of_ne hscope]
  rw [hchars, outerBackwards, afterDots_append_of_notMem (by simpa using hname), afterDots,
    if_pos rfl]
  rfl

theorem parent_join (scope : String) {name : String} (hname : '.' ∉ name.toList) :
    parent (join scope name) = scope := by
  by_cases hscope : scope = ""
  · rw [hscope, join_empty_left, parent, outerBackwards_of_notMem hname]
    rfl
  · rw [parent, outerBackwards_join hscope hname, List.headD_cons]
    simp [ofBackwards]

theorem join_inj {scope scope' name name' : String} (hname : '.' ∉ name.toList)
    (hname' : '.' ∉ name'.toList) (h : join scope name = join scope' name') :
    scope = scope' ∧ name = name' := by
  have hscope : scope = scope' := by
    rw [← parent_join scope hname, h, parent_join scope' hname']
  subst hscope
  exact ⟨rfl, join_right_inj.1 h⟩

/-- What is around a name is empty, or the name begins with it and a dot. -/
theorem dot_isPrefix_of_mem_outerBackwards {name : String} {part : List Char}
    (h : part ∈ outerBackwards name.toList.reverse) :
    part = [] ∨ part.reverse ++ ['.'] <+: name.toList := by
  rw [outerBackwards, List.mem_append, List.mem_singleton] at h
  obtain h | rfl := h
  · right
    have hprefix := List.reverse_prefix.2 (dot_suffix_of_mem_afterDots h)
    simpa using hprefix
  · exact .inl rfl

/-! ## First segments and leading dots -/

theorem head_of_isSegment {name : String} (h : IsSegment name) : head name = name := by
  rw [← String.intercalate_singleton (s := ".") (t := name)]
  exact head_intercalate h []

theorem head_join {scope : String} (h : scope ≠ "") (name : String) :
    head (join scope name) = head scope := by
  have hchars : (join scope name).toList = scope.toList ++ '.' :: name.toList := by
    simp [join_of_ne h]
  rw [head, head, hchars]
  congr 1
  induction scope.toList with
  | nil => rfl
  | cons c cs ih =>
    rw [List.cons_append, List.takeWhile_cons, List.takeWhile_cons, ih]

theorem isRooted_join {scope name : String} (hscope : isRooted scope = false)
    (hname : '.' ∉ name.toList) : isRooted (join scope name) = false := by
  by_cases hs : scope = ""
  · rw [hs, join_empty_left, isRooted, decide_eq_false_iff_not]
    exact fun hhead => hname (List.mem_of_mem_head? hhead)
  · have hne : scope.toList ≠ [] := by simpa using hs
    obtain ⟨c, cs, hchars⟩ := List.exists_cons_of_ne_nil hne
    rw [isRooted, hchars] at hscope
    rw [isRooted, join_of_ne hs, String.toList_append, String.toList_append, hchars]
    exact hscope

theorem unrooted_of_not_isRooted {name : String} (h : isRooted name = false) :
    unrooted name = name := by
  rw [unrooted]
  split
  · next rest hname =>
    rw [isRooted, hname] at h
    simp at h
  · rfl

end Dotted
end ProtoTypings
