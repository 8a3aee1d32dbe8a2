import ProtoTypings.Proofs.ScopedLookup
/-!
# The search for what hides a name

A type of the same file is named by its path inside the package unless a message around
the place declares a type called like the first name of that path. The search for such
a message starts right outside the place and goes outwards one name at a time. It ends
at the first name that is no message, or at a message that declares the type.

The empty name comes last and lies inside itself. A message can have it, if it is
without a name in a file without a package. The search does not get past that message.

**Walks.** `catalog.Walk name enclosing result`: the loop, from the name `enclosing` on,
ends with `result`. A loop that does not end has no such result.

**Results.**
* `walk_iff_search`: the search has a result exactly if the loop ends with it.
* `search_eq_none_iff`: it has none exactly if all names around a place, down to the
  empty one, are messages that do not declare the type.
* `MessagesNamed.walk`: where every message has a name, every loop ends, with the answer
  that is taken from it.
* `messagesNamed_iff`: only there.
* `messagesNamed_iff_files`: it is so unless a file without a package has a message without
  a name.
* `isShadowed_eq_any`: the answer, by the list of messages around a place.
-/
namespace ProtoTypings

theorem Dotted.outerBackwards_cases (cs : List Char) :
    outerBackwards cs = [[]] ∨
      ∃ rest, rest.length < cs.length ∧ outerBackwards cs = rest :: outerBackwards rest := by
  induction cs with
  | nil => exact .inl rfl
  | cons c cs ih =>
    by_cases hdot : c = '.'
    · refine .inr ⟨cs, Nat.lt_succ_self _, ?_⟩
      rw [outerBackwards, afterDots, if_pos hdot]
      rfl
    · have hsame : outerBackwards (c :: cs) = outerBackwards cs := by
        rw [outerBackwards, afterDots, if_neg hdot]
        rfl
      rw [hsame]
      obtain hroot | ⟨rest, hlt, hrest⟩ := ih
      · exact .inl hroot
      · exact .inr ⟨rest, Nat.lt_succ_of_lt hlt, hrest⟩

theorem Dotted.parent_empty : parent "" = "" :=
  parent_of_notMem (by simp)

theorem Dotted.parent_ofBackwards {cs first : List Char} {rest : List (List Char)}
    (h : outerBackwards cs = first :: rest) : parent (ofBackwards cs) = ofBackwards first := by
  have hchars : (ofBackwards cs).toList.reverse = cs := by simp [ofBackwards]
  rw [parent, hchars, h]
  rfl

namespace Catalog

/-! ## The loop -/

/-- The loop that looks for a type called `name` inside the messages around a place,
from the name `enclosing` on, and its result. -/
inductive Walk (catalog : Catalog) (name : String) : String → Bool → Prop
  | stop {enclosing : String} :
      (∀ owner, catalog.get? enclosing = some owner → owner.isMessage = false) →
      Walk catalog name enclosing false
  | found {enclosing : String} {owner : DeclaredType} :
      catalog.get? enclosing = some owner → owner.isMessage = true →
      catalog.declares owner name = true → Walk catalog name enclosing true
  | outward {enclosing : String} {owner : DeclaredType} {result : Bool} :
      catalog.get? enclosing = some owner → owner.isMessage = true →
      catalog.declares owner name = false →
      Walk catalog name (Dotted.parent enclosing) result → Walk catalog name enclosing result

variable {catalog : Catalog} {name enclosing : String} {result : Bool}

/-- The search goes on at a message that does not declare the type, and nowhere else. -/
theorem verdict?_eq_none_iff :
    catalog.verdict? name enclosing = none ↔
      ∃ owner, catalog.get? enclosing = some owner ∧ owner.isMessage = true ∧
        catalog.declares owner name = false := by
  unfold verdict?
  cases catalog.get? enclosing with
  | none => simp
  | some owner => cases hmessage : owner.isMessage <;> simp [hmessage]

theorem verdict?_of_stop
    (h : ∀ owner, catalog.get? enclosing = some owner → owner.isMessage = false) :
    catalog.verdict? name enclosing = some false := by
  unfold verdict?
  cases hget : catalog.get? enclosing with
  | none => rfl
  | some owner => simp [h owner hget]

theorem verdict?_of_found {owner : DeclaredType} (hget : catalog.get? enclosing = some owner)
    (hmessage : owner.isMessage = true) (hdeclares : catalog.declares owner name = true) :
    catalog.verdict? name enclosing = some true := by
  unfold verdict?
  simp [hget, hmessage, hdeclares]

theorem walk_of_verdict (h : catalog.verdict? name enclosing = some result) :
    catalog.Walk name enclosing result := by
  unfold verdict? at h
  cases hget : catalog.get? enclosing with
  | none =>
    rw [hget] at h
    cases h
    exact .stop fun owner howner => by simp [hget] at howner
  | some owner =>
    simp only [hget] at h
    cases hmessage : owner.isMessage with
    | false =>
      simp only [hmessage, Bool.not_false, if_true, Option.some.injEq] at h
      subst h
      exact .stop fun other hother => by simp_all
    | true =>
      cases hdeclares : catalog.declares owner name with
      | false => simp [hmessage, hdeclares] at h
      | true =>
        simp only [hmessage, hdeclares, Bool.not_true, Bool.false_eq_true, if_false, if_true,
          Option.some.injEq] at h
        subst h
        exact .found hget hmessage hdeclares

/-- One round of the loop. -/
theorem walk_iff :
    catalog.Walk name enclosing result ↔
      catalog.verdict? name enclosing = some result ∨
        catalog.verdict? name enclosing = none ∧
          catalog.Walk name (Dotted.parent enclosing) result := by
  constructor
  · intro h
    cases h with
    | stop hstop => exact .inl (verdict?_of_stop hstop)
    | found hget hmessage hdeclares => exact .inl (verdict?_of_found hget hmessage hdeclares)
    | outward hget hmessage hdeclares hnext =>
      exact .inr ⟨verdict?_eq_none_iff.2 ⟨_, hget, hmessage, hdeclares⟩, hnext⟩
  · rintro (hverdict | ⟨hnone, hnext⟩)
    · exact walk_of_verdict hverdict
    · obtain ⟨owner, hget, hmessage, hdeclares⟩ := verdict?_eq_none_iff.1 hnone
      exact .outward hget hmessage hdeclares hnext

/-- A loop that has to go on at the empty name comes to where it was, and never ends. -/
theorem not_walk_root (h : catalog.verdict? name "" = none) : ¬ catalog.Walk name "" result := by
  have hnever : ∀ {enclosing}, catalog.Walk name enclosing result → enclosing ≠ "" := by
    intro enclosing hwalk
    induction hwalk with
    | stop hstop =>
      rintro rfl
      rw [verdict?_of_stop hstop] at h
      cases h
    | found hget hmessage hdeclares =>
      rintro rfl
      rw [verdict?_of_found hget hmessage hdeclares] at h
      cases h
    | outward _ _ _ _ ih =>
      rintro rfl
      exact ih Dotted.parent_empty
  exact fun hwalk => hnever hwalk rfl

/-! ## The search -/

theorem search_cons_of_some {first : List Char} (rest : List (List Char))
    (h : catalog.verdict? name (Dotted.ofBackwards first) = some result) :
    catalog.search name (first :: rest) = some result := by
  simp only [search, h]

theorem search_cons_of_none {first : List Char} (rest : List (List Char))
    (h : catalog.verdict? name (Dotted.ofBackwards first) = none) :
    catalog.search name (first :: rest) = catalog.search name rest := by
  simp only [search, h]

/-- At the empty name the search ends at once or never. -/
theorem search_root (catalog : Catalog) (name : String) :
    catalog.search name [[]] = catalog.verdict? name "" := by
  have hempty : Dotted.ofBackwards [] = "" := rfl
  rw [search, search, hempty]
  cases hverdict : catalog.verdict? name "" with
  | some result => rfl
  | none =>
    show catalog.searchRoot name = none
    rw [Option.eq_none_iff_forall_ne_some]
    refine searchRoot.partial_correctness catalog name (fun _ => False)
      fun search ih result hresult => ih result ?_
    simpa [hverdict] using hresult

/-- **The search is the loop.** It has a result exactly if the loop ends with it. By
induction on the name: its outer names are the first one of them and the outer names of
that, and the last one is empty. -/
theorem walk_iff_search (catalog : Catalog) (name scope : String) (result : Bool) :
    catalog.Walk name (Dotted.parent scope) result ↔
      catalog.search name (Dotted.outerBackwards scope.toList.reverse) = some result := by
  have hlist : ∀ cs : List Char, catalog.Walk name (Dotted.parent (Dotted.ofBackwards cs)) result ↔
      catalog.search name (Dotted.outerBackwards cs) = some result := by
    intro cs
    induction hlength : cs.length using Nat.strongRecOn generalizing cs with
    | ind n ih =>
      obtain hroot | ⟨rest, hlt, hrest⟩ := Dotted.outerBackwards_cases cs
      · rw [Dotted.parent_ofBackwards hroot, hroot, search_root]
        show catalog.Walk name "" result ↔ _
        cases hverdict : catalog.verdict? name "" with
        | some found =>
          rw [walk_iff, hverdict]
          simp
        | none => exact iff_of_false (not_walk_root hverdict) (by simp)
      · rw [Dotted.parent_ofBackwards hrest, hrest, walk_iff]
        cases hverdict : catalog.verdict? name (Dotted.ofBackwards rest) with
        | some found =>
          rw [search_cons_of_some _ hverdict]
          simp
        | none =>
          rw [search_cons_of_none _ hverdict, ih rest.length (hlength ▸ hlt) rest rfl]
          simp
  have hself : Dotted.ofBackwards scope.toList.reverse = scope := by simp [Dotted.ofBackwards]
  rw [← hlist, hself]

/-- The answer that is taken from a search which ends is its result. -/
theorem Walk.isShadowed_eq {localName scope : String}
    (h : catalog.Walk (Dotted.head localName) (Dotted.parent scope) result) :
    catalog.isShadowed localName scope = result := by
  rw [isShadowed, (walk_iff_search catalog _ scope result).1 h, Option.getD_some]

/-- **Searches without an end.** All names around the place, down to the empty one, are
messages that do not declare the type. -/
theorem search_eq_none_iff {scope : String} :
    catalog.search name (Dotted.outerBackwards scope.toList.reverse) = none ↔
      ∀ enclosing ∈ Dotted.outer scope, ∃ owner, catalog.get? enclosing = some owner ∧
        owner.isMessage = true ∧ catalog.declares owner name = false := by
  have hlist : ∀ names : List (List Char), catalog.search name (names ++ [[]]) = none ↔
      ∀ cs ∈ names ++ [[]], catalog.verdict? name (Dotted.ofBackwards cs) = none := by
    intro names
    induction names with
    | nil =>
      rw [List.nil_append, List.forall_mem_singleton, search_root]
      rfl
    | cons first rest ih =>
      rw [List.cons_append, List.forall_mem_cons]
      cases hverdict : catalog.verdict? name (Dotted.ofBackwards first) with
      | some found => simp [search_cons_of_some _ hverdict]
      | none => rw [search_cons_of_none _ hverdict, ih, eq_self, true_and]
  rw [Dotted.outer, List.forall_mem_map, Dotted.outerBackwards, hlist]
  simp only [verdict?_eq_none_iff]

/-! ## Messages with names -/

/-- No message has the empty full name. -/
def MessagesNamed (catalog : Catalog) : Prop :=
  ∀ entry ∈ catalog.types, entry.isMessage = true → entry.fullName ≠ ""

theorem MessagesNamed.exists_walk (h : catalog.MessagesNamed) (name enclosing : String) :
    ∃ result, catalog.Walk name enclosing result := by
  induction hlength : enclosing.length using Nat.strongRecOn generalizing enclosing with
  | ind n ih =>
    cases hverdict : catalog.verdict? name enclosing with
    | some result => exact ⟨result, walk_iff.2 (.inl hverdict)⟩
    | none =>
      have hne : enclosing ≠ "" := by
        rintro rfl
        obtain ⟨owner, hget, hmessage, -⟩ := verdict?_eq_none_iff.1 hverdict
        obtain ⟨hmem, hempty⟩ := mem_of_type? hget
        exact h owner hmem hmessage hempty
      obtain ⟨result, hwalk⟩ :=
        ih _ (hlength ▸ Dotted.length_parent_lt hne) (Dotted.parent enclosing) rfl
      exact ⟨result, walk_iff.2 (.inr ⟨hverdict, hwalk⟩)⟩

/-- **Where every message has a name**, the loop ends with the answer that is taken from
it. -/
theorem MessagesNamed.walk (h : catalog.MessagesNamed) (localName scope : String) :
    catalog.Walk (Dotted.head localName) (Dotted.parent scope)
      (catalog.isShadowed localName scope) := by
  obtain ⟨result, hwalk⟩ := h.exists_walk (Dotted.head localName) (Dotted.parent scope)
  rw [hwalk.isShadowed_eq]
  exact hwalk

/-- There is always a name that is not declared. -/
theorem exists_type?_eq_none (catalog : Catalog) :
    ∃ name, Dotted.isRooted name = false ∧ catalog.type? name = none := by
  -- a name longer than all that are there
  let length := (catalog.types.map (·.fullName.length)).max?.getD 0 + 1
  refine ⟨String.ofList (List.replicate length 'x'), ?_, ?_⟩
  · simp [Dotted.isRooted, length, List.replicate_succ]
  · rw [type?, List.find?_eq_none]
    intro entry hentry hname
    have hle : entry.fullName.length ≤ (catalog.types.map (·.fullName.length)).max?.getD 0 :=
      List.le_max?_getD_of_mem (List.mem_map_of_mem hentry)
    rw [of_decide_eq_true hname, String.length_ofList, List.length_replicate] at hle
    exact Nat.not_succ_le_self _ hle

/-- **Every loop ends exactly where every message has a name.** -/
theorem messagesNamed_iff {files : List File} (hfiles : ofFiles files = .ok catalog) :
    catalog.MessagesNamed ↔ ∀ name enclosing, ∃ result, catalog.Walk name enclosing result := by
  refine ⟨MessagesNamed.exists_walk, fun h entry hentry hmessage hempty => ?_⟩
  obtain ⟨name, hplain, hnone⟩ := catalog.exists_type?_eq_none
  have hget : catalog.get? "" = some entry := by
    have hfound := type?_of_mem hfiles hentry
    rwa [hempty] at hfound
  have hdeclares : catalog.declares entry name = false := by
    rw [declares, hempty, Dotted.join_empty_left, get?, Dotted.unrooted_of_not_isRooted hplain,
      hnone]
    rfl
  obtain ⟨result, hwalk⟩ := h name ""
  exact not_walk_root (verdict?_eq_none_iff.2 ⟨entry, hget, hmessage, hdeclares⟩) hwalk

theorem empty_of_localName_empty {file package : String} (m : Message) :
    ∀ outer, ∀ entry ∈ m.types file package outer, entry.localName = "" →
      outer = "" ∧ m.name = "" := by
  induction m using Message.nested_induction with
  | step m ih =>
    intro outer
    rw [Message.forall_types]
    refine ⟨Dotted.join_eq_empty_iff.1, fun n hn entry hentry hempty => ?_, fun e _ hempty => ?_⟩
    · exact Dotted.join_eq_empty_iff.1 (ih n hn _ entry hentry hempty).1
    · exact Dotted.join_eq_empty_iff.1 (Dotted.join_eq_empty_iff.1 hempty).1

/-- A message has the empty full name exactly if it is one without a name of a file without
a package. -/
theorem messagesNamed_iff_files {files : List File} (hfiles : ofFiles files = .ok catalog) :
    catalog.MessagesNamed ↔
      ∀ file ∈ files, file.packageName = "" → ∀ m ∈ file.messages, m.name ≠ "" := by
  constructor
  · intro hnamed file hfile hpackage m hm hname
    have hentry : DeclaredType.ofLocal file.path file.packageName (Dotted.join "" m.name)
        (.message m) ∈ file.types := by
      rw [File.types_eq, List.mem_append, List.mem_flatMap]
      exact .inl ⟨m, hm, Message.mem_types.2 (.inl rfl)⟩
    refine hnamed _ ((mem_types_iff hfiles).2 ⟨file, hfile, hentry⟩) rfl ?_
    simp [DeclaredType.ofLocal, hpackage, hname]
  · intro hnamed
    refine forall_types hfiles fun file hfile => ?_
    rw [File.forall_types]
    refine ⟨fun m hm entry hentry _ hempty => ?_, fun e _ hmessage => by cases hmessage⟩
    rw [m.eq_ofLocal "" entry hentry] at hempty
    obtain ⟨hpackage, hlocal⟩ := Dotted.join_eq_empty_iff.1 hempty
    exact hnamed file hfile hpackage m hm (empty_of_localName_empty m "" entry hentry hlocal).2

/-! ## Messages around a place -/

/-- The messages around `scope`, innermost first, up to the first outer name that is no
message. -/
def enclosingMessages (catalog : Catalog) (scope : String) : List DeclaredType :=
  go (Dotted.outerBackwards scope.toList.reverse)
where
  /-- The messages at the front of a list of names, read backwards. -/
  go : List (List Char) → List DeclaredType
    | [] => []
    | name :: rest =>
      match catalog.get? (Dotted.ofBackwards name) with
      | some owner => if owner.isMessage then owner :: go rest else []
      | none => []

theorem any_go_of_some {first : List Char} (rest : List (List Char))
    (h : catalog.verdict? name (Dotted.ofBackwards first) = some result) :
    (enclosingMessages.go catalog (first :: rest)).any (catalog.declares · name) = result := by
  cases walk_of_verdict h with
  | stop hstop =>
    rw [enclosingMessages.go]
    cases hget : catalog.get? (Dotted.ofBackwards first) with
    | none => rfl
    | some owner => simp [hstop owner hget]
  | found hget hmessage hdeclares => simp [enclosingMessages.go, hget, hmessage, hdeclares]
  | outward hget hmessage hdeclares _ =>
    rw [verdict?_eq_none_iff.2 ⟨_, hget, hmessage, hdeclares⟩] at h
    cases h

theorem any_go_of_none {first : List Char} (rest : List (List Char))
    (h : catalog.verdict? name (Dotted.ofBackwards first) = none) :
    (enclosingMessages.go catalog (first :: rest)).any (catalog.declares · name) =
      (enclosingMessages.go catalog rest).any (catalog.declares · name) := by
  obtain ⟨owner, hget, hmessage, hdeclares⟩ := verdict?_eq_none_iff.1 h
  simp [enclosingMessages.go, hget, hmessage, hdeclares]

/-- A name is hidden if one of the messages around the place declares it. -/
theorem isShadowed_eq_any (catalog : Catalog) (localName scope : String) :
    catalog.isShadowed localName scope =
      (catalog.enclosingMessages scope).any (catalog.declares · (Dotted.head localName)) := by
  have hlist : ∀ names : List (List Char),
      (catalog.search (Dotted.head localName) (names ++ [[]])).getD false =
        (enclosingMessages.go catalog (names ++ [[]])).any
          (catalog.declares · (Dotted.head localName)) := by
    intro names
    induction names with
    | nil =>
      rw [List.nil_append, search_root]
      cases hverdict : catalog.verdict? (Dotted.head localName) "" with
      | some found => exact (any_go_of_some [] hverdict).symm
      | none => exact (any_go_of_none [] hverdict).symm
    | cons first rest ih =>
      rw [List.cons_append]
      cases hverdict : catalog.verdict? (Dotted.head localName) (Dotted.ofBackwards first) with
      | some found =>
        rw [search_cons_of_some _ hverdict, any_go_of_some _ hverdict, Option.getD_some]
      | none => rw [search_cons_of_none _ hverdict, any_go_of_none _ hverdict, ih]
  exact hlist _

end Catalog
end ProtoTypings
