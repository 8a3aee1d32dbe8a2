import Mathlib.Data.List.DropRight
import ProtoTypings.Proofs.RenderedLines
/-!
# Line comments

A comment is written behind two slashes and ends with its line. The printer begins a new line at
every line feed of a comment. Readers of the declarations also end a line at a carriage return
and at the separators U+2028 and U+2029, and what follows one of those is no comment any more.

**Pieces.** A text is cut at its line feeds, and a trailing comment is trimmed besides. What
holds of every piece is said of the places in the text.

**Results.**
* `Text.mem_splitChars_iff`, `Text.forall_splitChars_iff`: the pieces of a text, and the places
  in them.
* `Text.trimChars_free_iff`: when nothing that ends a line is left by trimming.
* `Comment.stays_behind_iff`: which comments stay behind their slashes.
* `Comment.escapes`: some do not.
-/
namespace ProtoTypings

/-! ## Ends of lines -/

/-- The characters at which readers of the declarations end a line. -/
def Text.isTerminator (c : Char) : Bool :=
  c = '\n' || c = '\r' || c = '\u2028' || c = '\u2029'

/-- A line ends where it is over, with a line feed that may follow a carriage return, and not
before. -/
def Text.OneLine (cs : List Char) : Prop :=
  ∀ before c after, cs = before ++ c :: after → isTerminator c = true →
    c :: after = ['\n'] ∨ c :: after = ['\r', '\n']

/-- Behind `start` and two slashes, the rest of a printed line is one line. -/
def Line.StaysBehind (indent start : String) (line : Line) : Prop :=
  ∃ rest : List Char, (line.render indent).toList = start.toList ++ '/' :: '/' :: rest ∧
    Text.OneLine rest

namespace Comment

/-- Every line of a leading comment stays behind its slashes, at a depth of indentation. -/
def LeadingStays (indent : String) (depth : Nat) (leading : Option String) : Prop :=
  ∀ line ∈ leadingLines leading,
    (Line.written depth line).StaysBehind indent (String.join (List.replicate depth indent))

/-- Every line of a trailing comment stays behind its slashes: the first one, if there is any,
behind the text of the declaration, and the others below. -/
def TrailingStays (indent : String) (depth : Nat) (text : String) (trailing : Option String) :
    Prop :=
  ∃ first rest, followedBy text trailing = first :: rest ∧
    (first = text ∨ (Line.written depth first).StaysBehind indent
      (String.join (List.replicate depth indent) ++ (text ++ " "))) ∧
    ∀ line ∈ rest,
      (Line.written depth line).StaysBehind indent (String.join (List.replicate depth indent))

/-- What ends a line in a leading comment is a line feed, or a carriage return in front of one or
at the end. -/
def LeadingSafe (text : String) : Prop :=
  ∀ before c after, text.toList = before ++ c :: after → Text.isTerminator c = true →
    c = '\n' ∨ c = '\r' ∧ (after = [] ∨ ∃ rest, after = '\n' :: rest)

/-- What ends a line in a trailing comment is a line feed, or there are only blanks between it
and the line feed in front of it or behind it. -/
def TrailingSafe (text : String) : Prop :=
  ∀ before c after, text.toList = before ++ c :: after → Text.isTerminator c = true →
    c = '\n' ∨ (∀ d ∈ before.rtakeWhile (· ≠ '\n'), Text.isBlank d = true) ∨
      ∀ d ∈ after.takeWhile (· ≠ '\n'), Text.isBlank d = true

end Comment

namespace Text

theorem isBlank_of_isTerminator {c : Char} (h : isTerminator c = true) : isBlank c = true := by
  simp only [isTerminator, Bool.or_eq_true, decide_eq_true_eq] at h
  rcases h with ((rfl | rfl) | rfl) | rfl <;> decide

/-- A text and a line feed are one line if the text ends no line, but for a carriage return at
its end. -/
theorem oneLine_concat_iff {cs : List Char} :
    OneLine (cs ++ ['\n']) ↔
      ∀ before c after, cs = before ++ c :: after → isTerminator c = true →
        c = '\r' ∧ after = [] := by
  constructor
  · intro h before c after hcs hc
    have hplace : cs ++ ['\n'] = before ++ c :: (after ++ ['\n']) := by simp [hcs]
    rcases h before c _ hplace hc with hend | hend
    · simp at hend
    · simpa using hend
  · intro h before c after hcs hc
    rcases List.eq_nil_or_concat after with rfl | ⟨init, last, rfl⟩
    · obtain ⟨-, rfl⟩ := List.append_singleton_inj.1 hcs
      exact .inl rfl
    · have hplace : cs ++ ['\n'] = (before ++ c :: init) ++ [last] := by simpa using hcs
      obtain ⟨hcs', rfl⟩ := List.append_singleton_inj.1 hplace
      obtain ⟨rfl, rfl⟩ := h before c init hcs' hc
      exact .inr rfl

/-! ## Pieces of a text -/

section pieces
variable {sep : Char} {cs : List Char}

/-- **The pieces of a text** stand between separators and hold none. -/
theorem mem_splitChars_iff {piece : List Char} :
    piece ∈ splitChars sep cs ↔ sep ∉ piece ∧ ∃ before after, cs = before ++ (piece ++ after) ∧
      (before = [] ∨ ∃ init, before = init ++ [sep]) ∧
      (after = [] ∨ ∃ rest, after = sep :: rest) := by
  constructor
  · intro h
    refine ⟨notMem_of_mem_splitChars piece h, ?_⟩
    -- the first piece ends at the first separator, and the others are those of the rest
    induction hlength : cs.length using Nat.strongRecOn generalizing cs with
    | ind n ih =>
      by_cases hsep : sep ∈ cs
      · obtain ⟨first, rest, rfl, hfirst⟩ := List.eq_append_cons_of_mem hsep
        rw [splitChars_append_sep, splitChars_of_notMem hfirst, List.singleton_append,
          List.mem_cons] at h
        obtain rfl | h := h
        · exact ⟨[], sep :: rest, rfl, .inl rfl, .inr ⟨rest, rfl⟩⟩
        · have hlt : rest.length < n := by
            rw [← hlength, List.length_append, List.length_cons]
            omega
          obtain ⟨before, after, rfl, hbefore, hafter⟩ := ih _ hlt h rfl
          refine ⟨first ++ sep :: before, after, by simp, .inr ?_, hafter⟩
          obtain rfl | ⟨init, rfl⟩ := hbefore
          · exact ⟨first, rfl⟩
          · exact ⟨first ++ sep :: init, by simp⟩
      · rw [splitChars_of_notMem hsep, List.mem_singleton] at h
        exact ⟨[], [], by simp [h], .inl rfl, .inl rfl⟩
  · rintro ⟨hpiece, before, after, rfl, hbefore, hafter⟩
    have hrest : piece ∈ splitChars sep (piece ++ after) := by
      obtain rfl | ⟨rest, rfl⟩ := hafter
      · rw [List.append_nil, splitChars_of_notMem hpiece]
        exact List.mem_singleton_self piece
      · rw [splitChars_append_sep, splitChars_of_notMem hpiece]
        exact List.mem_cons_self
    obtain rfl | ⟨init, rfl⟩ := hbefore
    · exact hrest
    · rw [List.append_assoc, List.singleton_append, splitChars_append_sep]
      exact List.mem_append_right _ hrest

theorem takeWhile_append_of_ends {as after : List Char} (has : sep ∉ as)
    (hafter : after = [] ∨ ∃ rest, after = sep :: rest) :
    (as ++ after).takeWhile (· ≠ sep) = as := by
  rw [List.takeWhile_append_of_pos (forall_ne_of_notMem has)]
  obtain rfl | ⟨rest, rfl⟩ := hafter <;> simp

theorem dropWhile_ends (sep : Char) (as : List Char) :
    as.dropWhile (· ≠ sep) = [] ∨ ∃ rest, as.dropWhile (· ≠ sep) = sep :: rest := by
  cases h : as.dropWhile (· ≠ sep) with
  | nil => exact .inl rfl
  | cons c rest =>
    have hc := List.head?_dropWhile_not (· ≠ sep) as
    rw [h, List.head?_cons] at hc
    obtain rfl : c = sep := by simpa using hc
    exact .inr ⟨rest, rfl⟩

theorem rtakeWhile_append_of_ends {as before : List Char} (has : sep ∉ as)
    (hbefore : before = [] ∨ ∃ init, before = init ++ [sep]) :
    (before ++ as).rtakeWhile (· ≠ sep) = as := by
  have hends : before.reverse = [] ∨ ∃ rest, before.reverse = sep :: rest := by
    obtain rfl | ⟨init, rfl⟩ := hbefore
    · exact .inl rfl
    · exact .inr ⟨init.reverse, by simp⟩
  have has' : sep ∉ as.reverse := by simpa using has
  rw [List.rtakeWhile, List.reverse_append, takeWhile_append_of_ends has' hends,
    List.reverse_reverse]

theorem rdropWhile_ends (sep : Char) (as : List Char) :
    as.rdropWhile (· ≠ sep) = [] ∨ ∃ init, as.rdropWhile (· ≠ sep) = init ++ [sep] := by
  rw [List.rdropWhile]
  obtain h | ⟨rest, h⟩ := dropWhile_ends sep as.reverse
  · exact .inl (by rw [h]; rfl)
  · exact .inr ⟨rest.reverse, by rw [h, List.reverse_cons]⟩

/-- What is said of the places in all pieces may be said of the places in the text that are no
separators, with what is around them up to the next separators. -/
theorem forall_splitChars_iff {Q : List Char → Char → List Char → Prop} :
    (∀ piece ∈ splitChars sep cs, ∀ before c after, piece = before ++ c :: after →
      Q before c after) ↔
    ∀ before c after, cs = before ++ c :: after → c ≠ sep →
      Q (before.rtakeWhile (· ≠ sep)) c (after.takeWhile (· ≠ sep)) := by
  constructor
  · intro h before c after hcs hc
    refine h (before.rtakeWhile (· ≠ sep) ++ c :: after.takeWhile (· ≠ sep)) ?_ _ _ _ rfl
    refine mem_splitChars_iff.2 ⟨fun hmem => ?_, before.rdropWhile (· ≠ sep),
      after.dropWhile (· ≠ sep), ?_, rdropWhile_ends sep before, dropWhile_ends sep after⟩
    · obtain hmem | hmem := List.mem_append.1 hmem
      · simpa using List.mem_rtakeWhile_imp hmem
      · obtain hmem | hmem := List.mem_cons.1 hmem
        · exact hc hmem.symm
        · simpa using List.mem_takeWhile_imp hmem
    · calc cs = before ++ c :: after := hcs
        _ = (before.rdropWhile (· ≠ sep) ++ before.rtakeWhile (· ≠ sep)) ++
            c :: (after.takeWhile (· ≠ sep) ++ after.dropWhile (· ≠ sep)) := by
          rw [List.rdropWhile_append_rtakeWhile, List.takeWhile_append_dropWhile]
        _ = _ := by simp only [List.append_assoc, List.cons_append]
  · intro h piece hpiece before c after hplace
    obtain ⟨hsep, front, back, hcs, hfront, hback⟩ := mem_splitChars_iff.1 hpiece
    rw [hplace, List.mem_append, List.mem_cons, not_or, not_or] at hsep
    obtain ⟨hbefore, hc, hafter⟩ := hsep
    have hat := h (front ++ before) c (after ++ back) (by simp [hcs, hplace]) (Ne.symm hc)
    rwa [rtakeWhile_append_of_ends hbefore hfront, takeWhile_append_of_ends hafter hback] at hat

end pieces

/-! ## Trimming -/

/-- Trimming takes blanks off both ends, until something else stands there. -/
theorem exists_trimChars (cs : List Char) :
    ∃ front back, cs = front ++ (trimChars cs ++ back) ∧ (∀ c ∈ front, isBlank c = true) ∧
      (∀ c ∈ back, isBlank c = true) ∧ (∀ c ∈ (trimChars cs).head?, isBlank c = false) ∧
      ∀ c ∈ (trimChars cs).getLast?, isBlank c = false := by
  have htrim : trimChars cs = (cs.dropWhile isBlank).rdropWhile isBlank := rfl
  rw [htrim]
  refine ⟨cs.takeWhile isBlank, (cs.dropWhile isBlank).rtakeWhile isBlank, ?_,
    fun c hc => List.mem_takeWhile_imp hc, fun c hc => List.mem_rtakeWhile_imp hc,
    fun c hc => ?_, fun c hc => ?_⟩
  · rw [List.rdropWhile_append_rtakeWhile, List.takeWhile_append_dropWhile]
  · -- what is left begins where the first blanks end
    obtain ⟨rest, hrest⟩ := List.rdropWhile_prefix isBlank (cs.dropWhile isBlank)
    have hfirst := List.head?_dropWhile_not isBlank cs
    rw [← hrest, List.head?_append, hc] at hfirst
    exact hfirst
  · obtain ⟨init, hinit⟩ := List.getLast?_eq_some_iff.1 hc
    have hlast := List.rdropWhile_last_not isBlank (cs.dropWhile isBlank) (by rw [hinit]; simp)
    simpa [hinit] using hlast

/-- Trimming leaves nothing that ends a line just when around each such character there are only
blanks on one side. -/
theorem trimChars_free_iff {cs : List Char} :
    (∀ c ∈ trimChars cs, isTerminator c = false) ↔
      ∀ before c after, cs = before ++ c :: after → isTerminator c = true →
        (∀ d ∈ before, isBlank d = true) ∨ ∀ d ∈ after, isBlank d = true := by
  obtain ⟨front, back, hcs, hfront, hback, hhead, hlast⟩ := exists_trimChars cs
  constructor
  · intro h before c after hplace hc
    rw [hcs] at hplace
    rcases List.append_eq_append_iff.1 hplace with ⟨middle, rfl, hrest⟩ | ⟨middle, rfl, hrest⟩
    · -- the character stands behind `front`
      rcases List.append_eq_append_iff.1 hrest with ⟨more, rfl, hmore⟩ | ⟨more, htrim, hmore⟩
      · refine .inr fun d hd => hback d ?_
        rw [hmore]
        exact List.mem_append_right _ (List.mem_cons_of_mem _ hd)
      · cases more with
        | nil =>
          refine .inr fun d hd => hback d ?_
          rw [List.nil_append] at hmore
          rw [← hmore]
          exact List.mem_cons_of_mem _ hd
        | cons e more =>
          obtain ⟨rfl, -⟩ := List.cons.inj hmore
          rw [h c (by rw [htrim]; simp)] at hc
          cases hc
    · exact .inl fun d hd => hfront d (List.mem_append_left _ hd)
  · intro h c hc
    obtain ⟨before, after, htrim⟩ := List.append_of_mem hc
    by_contra hnot
    have hterm : isTerminator c = true := by simpa using hnot
    have hblank := isBlank_of_isTerminator hterm
    rcases h (front ++ before) c (after ++ back) (by rw [hcs, htrim]; simp) hterm with hall | hall
    · have hfirst : ∃ d ∈ (trimChars cs).head?, isBlank d = true := by
        rw [htrim]
        cases before with
        | nil => exact ⟨c, rfl, hblank⟩
        | cons d before => exact ⟨d, rfl, hall d (by simp)⟩
      obtain ⟨d, hd, hblank⟩ := hfirst
      rw [hhead d hd] at hblank
      cases hblank
    · have hend : ∃ d ∈ (trimChars cs).getLast?, isBlank d = true := by
        rw [htrim]
        rcases List.eq_nil_or_concat after with rfl | ⟨init, d, rfl⟩
        · exact ⟨c, by simp, hblank⟩
        · exact ⟨d, List.getLast?_eq_some_iff.2 ⟨before ++ c :: init, by simp⟩, hall d (by simp)⟩
      obtain ⟨d, hd, hblank⟩ := hend
      rw [hlast d hd] at hblank
      cases hblank

/-- A line feed at the end of a text adds no piece that holds anything. -/
theorem forall_splitChars_dropEnding {P : List Char → Prop} (hnil : P []) (text : String) :
    (∀ piece ∈ splitChars '\n' (dropEnding "\n" text).toList, P piece) ↔
      ∀ piece ∈ splitChars '\n' text.toList, P piece := by
  rw [dropEnding]
  split
  · next hsuffix =>
    obtain ⟨init, hinit⟩ := List.isSuffixOf_iff_suffix.1 hsuffix
    have hchars : text.toList = init ++ '\n' :: [] := hinit.symm
    have hinit' : (String.ofList
        (text.toList.take (text.toList.length - "\n".toList.length))).toList = init := by
      simp [hchars]
    rw [hinit', hchars, splitChars_append_sep, List.forall_mem_append]
    simp [splitChars, hnil]
  · exact Iff.rfl

end Text

/-! ## Comments behind their slashes -/

theorem Line.staysBehind_iff (indent : String) (depth : Nat) (lead body : String) :
    (Line.written depth (lead ++ "//" ++ body)).StaysBehind indent
        (String.join (List.replicate depth indent) ++ lead) ↔
      Text.OneLine (body.toList ++ ['\n']) := by
  have hchars : ((Line.written depth (lead ++ "//" ++ body)).render indent).toList =
      (String.join (List.replicate depth indent) ++ lead).toList ++
        '/' :: '/' :: (body.toList ++ ['\n']) := by
    simp [Line.render]
  rw [Line.StaysBehind, hchars]
  constructor
  · rintro ⟨rest, hrest, hone⟩
    rw [List.append_cancel_left_eq, List.cons.injEq, List.cons.injEq] at hrest
    rw [hrest.2.2]
    exact hone
  · intro hone
    exact ⟨_, rfl, hone⟩

namespace Comment

/-- Places that are no line feeds, each with a condition on what ends a line. -/
theorem forall_places_iff {cs : List Char} {R : List Char → Char → List Char → Prop} :
    (∀ before c after, cs = before ++ c :: after → c ≠ '\n' → Text.isTerminator c = true →
      R before c after) ↔
    ∀ before c after, cs = before ++ c :: after → Text.isTerminator c = true →
      c = '\n' ∨ R before c after :=
  forall₄_congr fun _ _ _ _ => imp.swap.trans (imp_congr_right fun _ => or_iff_not_imp_left.symm)

theorem staysBehind_comment_iff (indent : String) (depth : Nat) (body : String) :
    (Line.written depth ("//" ++ body)).StaysBehind indent
        (String.join (List.replicate depth indent)) ↔ Text.OneLine (body.toList ++ ['\n']) := by
  simpa using Line.staysBehind_iff indent depth "" body

/-- A leading comment stays behind its slashes just when it is safe. -/
theorem leading_stays_iff (indent : String) (depth : Nat) (leading : Option String) :
    LeadingStays indent depth leading ↔ ∀ text ∈ leading, LeadingSafe text := by
  cases leading with
  | none => simp [LeadingStays, leadingLines]
  | some text =>
    have hpieces : LeadingStays indent depth (some text) ↔
        ∀ piece ∈ Text.splitChars '\n' (Text.dropEnding "\n" text).toList,
          Text.OneLine (piece ++ ['\n']) := by
      simp [LeadingStays, leadingLines, Text.split, staysBehind_comment_iff]
    have hplace (after : List Char) : after.takeWhile (· ≠ '\n') = [] ↔
        after = [] ∨ ∃ rest, after = '\n' :: rest := by
      cases after with
      | nil => simp
      | cons d after =>
        by_cases hd : d = '\n'
        · simp [hd]
        · simp [hd]
    rw [hpieces, Text.forall_splitChars_dropEnding (Text.oneLine_concat_iff.2 (by simp))]
    simp only [Text.oneLine_concat_iff]
    rw [Text.forall_splitChars_iff, forall_places_iff]
    simp only [hplace, Option.mem_some, forall_eq', LeadingSafe]

/-- No line is left to end in a trailing comment just when it is safe. -/
theorem trailing_free_iff (trailing : Option String) :
    (∀ line ∈ trailingLines trailing, ∀ c ∈ line.toList, Text.isTerminator c = false) ↔
      ∀ text ∈ trailing, TrailingSafe text := by
  cases trailing with
  | none => simp [trailingLines]
  | some text =>
    have hpieces : (∀ line ∈ trailingLines (some text), ∀ c ∈ line.toList,
          Text.isTerminator c = false) ↔
        ∀ piece ∈ Text.splitChars '\n' text.toList, ∀ c ∈ Text.trimChars piece,
          Text.isTerminator c = false := by
      constructor
      · intro h piece hpiece c hc
        have htrim : c ∈ (Text.trim (String.ofList piece)).toList := by simpa [Text.trim] using hc
        refine h _ (List.mem_filter.2
          ⟨List.mem_map_of_mem (List.mem_map_of_mem hpiece), ?_⟩) c htrim
        rw [decide_eq_true_eq]
        intro hempty
        simp [hempty] at htrim
      · intro h line hline c hc
        obtain ⟨s, hs, rfl⟩ := List.mem_map.1 (List.mem_filter.1 hline).1
        obtain ⟨piece, hpiece, rfl⟩ := List.mem_map.1 hs
        exact h piece hpiece c (by simpa [Text.trim] using hc)
    rw [hpieces]
    simp only [Text.trimChars_free_iff]
    rw [Text.forall_splitChars_iff, forall_places_iff]
    simp only [Option.mem_some, forall_eq', TrailingSafe]

/-- A line that was trimmed is one line just when nothing in it ends a line, since no carriage
return is left at its end. -/
theorem oneLine_trailing_iff {trailing : Option String} {line : String}
    (h : line ∈ trailingLines trailing) :
    Text.OneLine ((" " ++ line).toList ++ ['\n']) ↔
      ∀ c ∈ line.toList, Text.isTerminator c = false := by
  have hlast : ∀ c ∈ line.toList.getLast?, Text.isBlank c = false := by
    cases trailing with
    | none => cases h
    | some text =>
      obtain ⟨s, -, rfl⟩ := List.mem_map.1 (List.mem_filter.1 h).1
      obtain ⟨_, _, _, _, _, _, hlast⟩ := Text.exists_trimChars s.toList
      simpa [Text.trim] using hlast
  have hchars : (" " ++ line).toList = ' ' :: line.toList := by simp
  rw [Text.oneLine_concat_iff, hchars]
  constructor
  · intro hends c hc
    obtain ⟨before, after, hline⟩ := List.append_of_mem hc
    by_contra hnot
    have hterm : Text.isTerminator c = true := by simpa using hnot
    obtain ⟨-, rfl⟩ := hends (' ' :: before) c after (by rw [hline]; rfl) hterm
    have hblank := hlast c (List.getLast?_eq_some_iff.2 ⟨before, hline⟩)
    rw [Text.isBlank_of_isTerminator hterm] at hblank
    cases hblank
  · intro hfree before c after hline hterm
    have hc : c ∈ ' ' :: line.toList := by rw [hline]; simp
    obtain rfl | hc := List.mem_cons.1 hc
    · cases hterm
    · rw [hfree c hc] at hterm
      cases hterm

/-- A trailing comment stays behind its slashes just when it is safe. -/
theorem trailing_stays_iff (indent : String) (depth : Nat) (text : String)
    (trailing : Option String) :
    TrailingStays indent depth text trailing ↔ ∀ t ∈ trailing, TrailingSafe t := by
  rw [← trailing_free_iff]
  have hone := fun line (hline : line ∈ trailingLines trailing) => oneLine_trailing_iff hline
  unfold TrailingStays followedBy
  cases hlines : trailingLines trailing with
  | nil => simp
  | cons first rest =>
    rw [hlines] at hone
    have hfirst : text ++ " // " ++ first = text ++ " " ++ "//" ++ (" " ++ first) := by
      simp [← String.toList_inj]
    have hnext (line : String) : "// " ++ line = "//" ++ (" " ++ line) := by
      simp [← String.toList_inj]
    have hne : text ++ " // " ++ first ≠ text := by
      intro heq
      have hlength := congrArg String.length heq
      have hfour : " // ".length = 4 := rfl
      rw [String.length_append, String.length_append] at hlength
      omega
    constructor
    · rintro ⟨_, _, heq, hhead, htail⟩
      obtain ⟨rfl, rfl⟩ := List.cons.inj heq
      refine List.forall_mem_cons.2 ⟨?_, fun line hline => ?_⟩
      · have hbehind := hhead.resolve_left hne
        rw [hfirst, Line.staysBehind_iff] at hbehind
        exact (hone first List.mem_cons_self).1 hbehind
      · have hbehind := htail _ (List.mem_map_of_mem hline)
        rw [hnext, staysBehind_comment_iff] at hbehind
        exact (hone line (List.mem_cons_of_mem _ hline)).1 hbehind
    · intro hfree
      refine ⟨_, _, rfl, .inr ?_, fun line hline => ?_⟩
      · rw [hfirst, Line.staysBehind_iff]
        exact (hone first List.mem_cons_self).2 (hfree first List.mem_cons_self)
      · obtain ⟨last, hlast, rfl⟩ := List.mem_map.1 hline
        rw [hnext, staysBehind_comment_iff]
        have hmem : last ∈ first :: rest := List.mem_cons_of_mem _ hlast
        exact (hone last hmem).2 (hfree last hmem)

/-- **Comments behind their slashes.** Whatever the indentation, its depth and the text of a
declaration are, the comments of the declaration stay behind their slashes just when they are
safe: a leading comment if it holds no separator U+2028 or U+2029 and carriage returns only in
front of line feeds or at the end, and a trailing comment if carriage returns and separators
have only blanks between them and one end of their line. -/
theorem stays_behind_iff (indent : String) (depth : Nat) (text : String) (comment : Comment) :
    (LeadingStays indent depth comment.leading ↔ ∀ t ∈ comment.leading, LeadingSafe t) ∧
      (TrailingStays indent depth text comment.trailing ↔
        ∀ t ∈ comment.trailing, TrailingSafe t) :=
  ⟨leading_stays_iff indent depth comment.leading,
    trailing_stays_iff indent depth text comment.trailing⟩

/-- A carriage return ends a leading comment before its line is over, and a separator a trailing
one. -/
theorem escapes :
    Line.renderAll "    " ((leadingLines (some "a\rb")).map (.written 0)) = "//a\rb\n" ∧
      ¬ LeadingStays "    " 0 (some "a\rb") ∧
      followedBy "text?: string;" (some "c\u2028d") = ["text?: string; // c\u2028d"] ∧
      ¬ TrailingStays "    " 1 "text?: string;" (some "c\u2028d") := by
  refine ⟨by decide, fun hstays => ?_, by decide, fun hstays => ?_⟩
  · have hsafe := (leading_stays_iff _ _ _).1 hstays _ rfl ['a'] '\r' ['b'] rfl (by decide)
    simp at hsafe
  · have hsafe := (trailing_stays_iff _ _ _ _).1 hstays _ rfl ['c'] '\u2028' ['d'] rfl (by decide)
    rcases hsafe with hfeed | hblank | hblank
    · exact absurd hfeed (by decide)
    · exact absurd (hblank 'c' (by decide)) (by decide)
    · exact absurd (hblank 'd' (by decide)) (by decide)

end Comment
end ProtoTypings
