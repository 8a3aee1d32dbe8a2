import ProtoTypings.Proofs.MemberNames
/-!
# Laws of camel case

Camel case takes the underscores out of an identifier and changes the case of some letters. Which
ones can be said without cutting the identifier into segments, by what is in front of a character:
it begins a segment if nothing or an underscore is right before it, and the segment is the first
that is not empty if there are only underscores before it.

**Places.** A character behind `before` is written behind those characters of `before` that are no
underscores. So its place in the result is their number.

**Results.**
* `Casing.scan_place`, `Casing.lowerCamel_place`: what is written for a character, and where.
* `Casing.lowerCamel_laws`: no underscores, no changes but those of case where a segment begins,
  and nothing more the second time.
-/
namespace ProtoTypings.Casing

/-- What camel case writes for a character behind `before`. The first character of the first
segment is in lower case, that of every later one in upper case, and all others are as they
were. -/
def written (before : List Char) (c : Char) : Char :=
  if before.getLast?.all (· = '_') then
    if before.all (· = '_') then c.toLower else c.toUpper
  else c

/-! ## One pass -/

theorem underscore_notMem_scan (cs : List Char) (behind : Bool) : '_' ∉ scan behind cs := by
  induction cs generalizing behind with
  | nil => exact List.not_mem_nil
  | cons c cs ih =>
    by_cases hc : c = '_'
    · rw [hc, scan_underscore]
      exact ih true
    · have hupper := mt toUpper_eq_underscore_iff.1 hc
      rw [scan_other behind hc, List.mem_cons, not_or]
      refine ⟨?_, ih false⟩
      cases behind
      · exact Ne.symm hc
      · exact Ne.symm hupper

/-- But for the case of letters, a pass only leaves the underscores out. -/
theorem map_toLower_scan (cs : List Char) (behind : Bool) :
    (scan behind cs).map Char.toLower = (cs.filter (· ≠ '_')).map Char.toLower := by
  induction cs generalizing behind with
  | nil => rfl
  | cons c cs ih =>
    by_cases hc : c = '_'
    · rw [hc, scan_underscore, ih, List.filter_cons_of_neg (by simp)]
    · rw [scan_other behind hc, List.filter_cons_of_pos (by simpa using hc), List.map_cons,
        List.map_cons, ih]
      cases behind <;> simp

/-- **A pass, place by place.** What is written for a character depends on what is right before
it, and for the first one on the flag. -/
theorem scan_place (before : List Char) {c : Char} (hc : c ≠ '_') (after : List Char)
    (behind : Bool) :
    (scan behind (before ++ c :: after))[(before.filter (· ≠ '_')).length]? =
      some (if before.getLast?.elim behind (· = '_') then c.toUpper else c) := by
  induction before generalizing behind with
  | nil =>
    rw [List.nil_append, scan_other behind hc]
    rfl
  | cons d before ih =>
    -- for what follows `d`, the flag says whether `d` is an underscore
    have hlast : (d :: before).getLast?.elim behind (· = '_') =
        before.getLast?.elim (decide (d = '_')) (· = '_') := by
      rw [List.getLast?_cons]
      cases before.getLast? <;> rfl
    rw [List.cons_append, hlast]
    by_cases hd : d = '_'
    · rw [hd, scan_underscore, List.filter_cons_of_neg (by simp), ih]
      rfl
    · rw [scan_other behind hd, List.filter_cons_of_pos (by simpa using hd), List.length_cons,
        List.getElem?_cons_succ, ih, decide_eq_false hd]

/-! ## Camel case -/

theorem getElem?_changeFirst (f : Char → Char) (cs : List Char) (i : Nat) :
    (changeFirst f cs)[i]? = if i = 0 then cs[i]?.map f else cs[i]? := by
  cases cs with
  | nil => simp [changeFirst]
  | cons c cs => cases i <;> rfl

theorem length_filter_eq_zero_iff {before : List Char} :
    (before.filter (· ≠ '_')).length = 0 ↔ before.all (· = '_') = true := by
  simp

/-- **Camel case, place by place.** -/
theorem lowerCamel_place {s : String} {before after : List Char} {c : Char}
    (hs : s.toList = before ++ c :: after) (hc : c ≠ '_') :
    (lowerCamel s).toList[(before.filter (· ≠ '_')).length]? = some (written before c) := by
  rw [lowerCamel_toList, getElem?_changeFirst, hs, scan_place before hc, written]
  by_cases hfirst : before.all (· = '_') = true
  · -- only underscores before it, so an underscore or nothing is right before it
    have hbegins : before.getLast?.all (· = '_') = true := by
      rw [Option.all_eq_true]
      intro d hd
      exact List.all_eq_true.1 hfirst d (List.mem_of_getLast? hd)
    rw [if_pos (length_filter_eq_zero_iff.2 hfirst), if_pos hbegins, if_pos hfirst, Option.map_some]
    split <;> simp
  · have hne : before ≠ [] := by
      rintro rfl
      exact hfirst rfl
    obtain ⟨last, hlast⟩ := Option.isSome_iff_exists.1 (List.getLast?_isSome.2 hne)
    rw [if_neg (mt length_filter_eq_zero_iff.1 hfirst), if_neg hfirst, hlast]
    rfl

theorem underscore_notMem_lowerCamel (s : String) : '_' ∉ (lowerCamel s).toList := by
  have hscan := underscore_notMem_scan s.toList true
  rw [lowerCamel_toList]
  cases hpass : scan true s.toList with
  | nil => exact List.not_mem_nil
  | cons c cs =>
    rw [hpass, List.mem_cons, not_or] at hscan
    rw [changeFirst, List.mem_cons, not_or]
    exact ⟨Ne.symm (mt toLower_eq_underscore_iff.1 (Ne.symm hscan.1)), hscan.2⟩

theorem map_toLower_lowerCamel (s : String) :
    (lowerCamel s).toList.map Char.toLower = (s.toList.filter (· ≠ '_')).map Char.toLower := by
  rw [lowerCamel_toList, ← map_toLower_scan s.toList true]
  cases scan true s.toList with
  | nil => rfl
  | cons c cs => simp [changeFirst]

/-- Camel case is what unseen changes lead to, so it is not changed again. -/
theorem lowerCamel_lowerCamel (s : String) : lowerCamel (lowerCamel s) = lowerCamel s := by
  have hmerged : Merged s (lowerCamel s) :=
    Relation.EqvGen.reflTransGen_le_eqvGen _ _ _ (unseen_lowerCamel s)
  exact (merged_iff.1 hmerged).symm

/-- **Laws of camel case.** The camel case of a text has no underscores. But for the case of ASCII
letters it is the text without its underscores, and the case differs at most where a segment
begins: every character that is no underscore is written in its place as `written` says. Doing it
again changes nothing. -/
theorem lowerCamel_laws (s : String) :
    '_' ∉ (lowerCamel s).toList ∧
    (lowerCamel s).toList.map Char.toLower = (s.toList.filter (· ≠ '_')).map Char.toLower ∧
    (∀ before c after, s.toList = before ++ c :: after → c ≠ '_' →
      (lowerCamel s).toList[(before.filter (· ≠ '_')).length]? = some (written before c)) ∧
    lowerCamel (lowerCamel s) = lowerCamel s :=
  ⟨underscore_notMem_lowerCamel s, map_toLower_lowerCamel s,
    fun _ _ _ hs hc => lowerCamel_place hs hc, lowerCamel_lowerCamel s⟩

/-- The first segment begins behind two underscores; the last one begins with a letter that has no
case here. -/
theorem lowerCamel_laws_words :
    (lowerCamel "__Net_ID_äb_").toList[5]? = some 'ä' ∧
      lowerCamel "__Net_ID_äb_" = "netIDäb" := by
  obtain ⟨-, -, hplaces, -⟩ := lowerCamel_laws "__Net_ID_äb_"
  have hplace := hplaces "__Net_ID_".toList 'ä' "b_".toList (by decide) (by decide)
  exact ⟨hplace, by decide⟩

end ProtoTypings.Casing
