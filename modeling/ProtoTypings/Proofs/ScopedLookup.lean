import ProtoTypings.Proofs.CatalogLookup
/-!
# Lookup from the inside out

A reference without a leading dot is sought in its scope, then in the scope without
its last segment, and so on down to the empty scope. Here this search is a relation
with one rule for each thing that can happen in one scope, and what it finds is
described without it.

**Ancestors.** `Dotted.Ancestor outer scope`: cutting segments off the end of `scope`
leads to `outer`. Segments may be empty, so scopes that begin or end with a dot, or
that hold two in a row, are no special case.

**Search.** `catalog.Search reference scope outcome`: the search that begins in `scope`
ends with `outcome`. A derivation is a finite run, so the existence of one says that
the search ends.

**Results.**
* `Dotted.ancestor_iff`: the ancestors of a scope are the scope and the ancestors of
  its parent.
* `Catalog.search_iff`: the search ends with one outcome, that of `resolve?`.
* `Catalog.Search.innermost`, `Catalog.Search.nowhere`: what is found belongs to the
  longest ancestor that has anything; nothing is found if none has.
* `Catalog.resolve_finds_innermost`: the whole of it for a catalog of files.
-/
namespace ProtoTypings

/-! ## Ancestors of a scope -/

namespace Dotted

/-- Cutting segments off the end of a scope leads to `outer`. -/
inductive Ancestor (outer : String) : String → Prop
  | self : Ancestor outer outer
  /-- The empty name is what is left when the first segment is gone too. -/
  | root (scope : String) : outer = "" → Ancestor outer scope
  | cut {scope last : String} : Ancestor outer scope → '.' ∉ last.toList →
      Ancestor outer (scope ++ "." ++ last)

theorem exists_last_dot {scope : String} (h : '.' ∈ scope.toList) :
    ∃ init last : String, scope = init ++ "." ++ last ∧ '.' ∉ last.toList := by
  -- the last dot is the first one from behind
  obtain ⟨behind, before, hsplit, hbehind⟩ := List.eq_append_cons_of_mem (List.mem_reverse.2 h)
  refine ⟨String.ofList before.reverse, String.ofList behind.reverse, ?_, by simpa using hbehind⟩
  rw [← String.toList_inj, ← List.reverse_inj, hsplit]
  simp

theorem parent_of_dot (init : String) {last : String} (h : '.' ∉ last.toList) :
    parent (init ++ "." ++ last) = init := by
  have hchars : (init ++ "." ++ last).toList.reverse =
      last.toList.reverse ++ '.' :: init.toList.reverse := by simp
  rw [parent, hchars, outerBackwards, afterDots_append_of_notMem (by simpa using h), afterDots,
    if_pos rfl]
  simp [ofBackwards]

theorem parent_of_notMem {scope : String} (h : '.' ∉ scope.toList) : parent scope = "" := by
  rw [parent, outerBackwards_of_notMem h]
  rfl

theorem length_parent_lt {scope : String} (h : scope ≠ "") :
    (parent scope).length < scope.length := by
  by_cases hdot : '.' ∈ scope.toList
  · obtain ⟨init, last, rfl, hlast⟩ := exists_last_dot hdot
    rw [parent_of_dot init hlast]
    simp only [String.length_append]
    have hone : ".".length = 1 := rfl
    omega
  · rw [parent_of_notMem hdot]
    exact Nat.pos_of_ne_zero fun hzero => h (String.length_eq_zero_iff.1 hzero)

theorem Ancestor.isPrefix {outer scope : String} (h : Ancestor outer scope) :
    outer.toList <+: scope.toList := by
  induction h with
  | self => exact List.prefix_rfl
  | root scope h =>
    rw [h]
    exact List.nil_prefix
  | cut _ _ ih =>
    rw [String.toList_append, String.toList_append, List.append_assoc]
    exact ih.trans (List.prefix_append _ _)

theorem ancestor_empty_iff {outer : String} : Ancestor outer "" ↔ outer = "" := by
  constructor
  · intro h
    simpa using h.isPrefix
  · rintro rfl
    exact .self

/-- The ancestors of a scope are the scope and the ancestors of its parent. -/
theorem ancestor_iff {outer scope : String} (hscope : scope ≠ "") :
    Ancestor outer scope ↔ outer = scope ∨ Ancestor outer (parent scope) := by
  constructor
  · intro h
    cases h with
    | self => exact .inl rfl
    | root _ h => exact .inr (.root _ h)
    | cut h hlast =>
      rw [parent_of_dot _ hlast]
      exact .inr h
  · rintro (rfl | h)
    · exact .self
    · by_cases hdot : '.' ∈ scope.toList
      · obtain ⟨init, last, rfl, hlast⟩ := exists_last_dot hdot
        rw [parent_of_dot init hlast] at h
        exact h.cut hlast
      · rw [parent_of_notMem hdot, ancestor_empty_iff] at h
        exact .root _ h

theorem Ancestor.length_le {outer scope : String} (h : Ancestor outer scope) :
    outer.length ≤ scope.length := by
  rw [← String.length_toList, ← String.length_toList]
  exact h.isPrefix.length_le

/-- Ancestors of one scope differ in their lengths. -/
theorem Ancestor.eq_of_length {outer outer' scope : String} (h : Ancestor outer scope)
    (h' : Ancestor outer' scope) (hlength : outer.length = outer'.length) : outer = outer' := by
  rw [← String.length_toList, ← String.length_toList] at hlength
  have hbegins := List.prefix_of_prefix_length_le h.isPrefix h'.isPrefix (Nat.le_of_eq hlength)
  exact String.toList_inj.1 (hbegins.eq_of_length hlength)

/-- A scope that has a dot is tried before its parent and what is around that. -/
theorem scopes_of_mem {scope : String} (h : '.' ∈ scope.toList) :
    scopes scope = scope :: scopes (parent scope) := by
  obtain ⟨init, last, rfl, hlast⟩ := exists_last_dot h
  have hchars : (init ++ "." ++ last).toList.reverse =
      last.toList.reverse ++ '.' :: init.toList.reverse := by simp
  rw [parent_of_dot init hlast, scopes, scopes, outer, hchars, outerBackwards,
    afterDots_append_of_notMem (by simpa using hlast), afterDots, if_pos rfl]
  simp [outer, outerBackwards, ofBackwards]

theorem scopes_of_notMem {scope : String} (h : '.' ∉ scope.toList) :
    scopes scope = [scope, ""] := by
  rw [scopes, outer, outerBackwards_of_notMem h]
  rfl

end Dotted

/-! ## The search -/

namespace Catalog

variable {catalog : Catalog} {reference scope : String}

/-- The search for a reference that begins in a scope ends with an outcome. -/
inductive Search (catalog : Catalog) (reference : String) : String → Option DeclaredType → Prop
  | found {scope : String} {entry : DeclaredType} :
      catalog.type? (Dotted.join scope reference) = some entry →
      Search catalog reference scope (some entry)
  | exhausted : catalog.type? (Dotted.join "" reference) = none → Search catalog reference "" none
  | outward {scope : String} {outcome : Option DeclaredType} : scope ≠ "" →
      catalog.type? (Dotted.join scope reference) = none →
      Search catalog reference (Dotted.parent scope) outcome →
      Search catalog reference scope outcome

theorem Search.unique {outcome outcome' : Option DeclaredType}
    (h : catalog.Search reference scope outcome) (h' : catalog.Search reference scope outcome') :
    outcome' = outcome := by
  induction h with
  | found hfound =>
    cases h' with
    | found hfound' => rw [← hfound, hfound']
    | exhausted hnone =>
      rw [hnone] at hfound
      cases hfound
    | outward _ hnone _ =>
      rw [hnone] at hfound
      cases hfound
  | exhausted hnone =>
    generalize hscope : "" = scope at h'
    cases h' with
    | found hfound =>
      rw [← hscope, hnone] at hfound
      cases hfound
    | exhausted => rfl
    | outward hne => exact absurd hscope.symm hne
  | outward hne hnone _ ih =>
    cases h' with
    | found hfound =>
      rw [hnone] at hfound
      cases hfound
    | exhausted => exact absurd rfl hne
    | outward _ _ h' => exact ih h'

/-- The scopes that are tried one after the other make up a search. -/
theorem search_findSome? (catalog : Catalog) (reference : String) (scope : String) :
    catalog.Search reference scope
      ((Dotted.scopes scope).findSome? fun s => catalog.type? (Dotted.join s reference)) := by
  -- by induction on the length of the scope, which shrinks with every step outwards
  induction hlength : scope.length using Nat.strongRecOn generalizing scope with
  | ind n ih =>
    subst hlength
    cases hfound : catalog.type? (Dotted.join scope reference) with
    | some entry =>
      have hfirst : (Dotted.scopes scope).findSome?
          (fun s => catalog.type? (Dotted.join s reference)) = some entry := by
        rw [Dotted.scopes, List.findSome?_cons, hfound]
      rw [hfirst]
      exact .found hfound
    | none =>
      by_cases hscope : scope = ""
      · subst hscope
        have hnone : (Dotted.scopes "").findSome?
            (fun s => catalog.type? (Dotted.join s reference)) = none := by
          rw [Dotted.scopes_of_notMem (by decide)]
          simp only [List.findSome?_cons, hfound, List.findSome?_nil]
        rw [hnone]
        exact .exhausted hfound
      · have hparent := ih _ (Dotted.length_parent_lt hscope) (Dotted.parent scope) rfl
        have hrest : (Dotted.scopes scope).findSome?
            (fun s => catalog.type? (Dotted.join s reference)) =
            (Dotted.scopes (Dotted.parent scope)).findSome?
              fun s => catalog.type? (Dotted.join s reference) := by
          by_cases hdot : '.' ∈ scope.toList
          · rw [Dotted.scopes_of_mem hdot, List.findSome?_cons, hfound]
          · rw [Dotted.scopes_of_notMem hdot, Dotted.parent_of_notMem hdot,
              Dotted.scopes_of_notMem (by decide)]
            simp only [List.findSome?_cons, hfound, List.findSome?_nil]
            cases catalog.type? (Dotted.join "" reference) <;> rfl
        rw [hrest]
        exact .outward hscope hfound hparent

/-- The search for a reference without a leading dot ends with one outcome, that of
`resolve?`. -/
theorem search_iff (h : Dotted.isRooted reference = false) {outcome : Option DeclaredType} :
    catalog.Search reference scope outcome ↔ catalog.resolve? reference scope = outcome := by
  have hsearch := catalog.search_findSome? reference scope
  rw [← resolve?_eq_findSome? catalog scope h] at hsearch
  constructor
  · intro houtcome
    exact houtcome.unique hsearch
  · rintro rfl
    exact hsearch

/-- What a search finds belongs to an ancestor of the scope, and to the longest one
to which anything belongs. -/
theorem Search.innermost {entry : DeclaredType}
    (h : catalog.Search reference scope (some entry)) :
    ∃ outer, Dotted.Ancestor outer scope ∧
      catalog.type? (Dotted.join outer reference) = some entry ∧
      ∀ other, Dotted.Ancestor other scope → catalog.type? (Dotted.join other reference) ≠ none →
        other.length ≤ outer.length := by
  generalize houtcome : some entry = outcome at h
  induction h with
  | found hfound =>
    cases houtcome
    exact ⟨_, .self, hfound, fun other hother _ => hother.length_le⟩
  | exhausted => cases houtcome
  | outward hne hnone _ ih =>
    obtain ⟨outer, houter, hfound, hlongest⟩ := ih houtcome
    refine ⟨outer, (Dotted.ancestor_iff hne).2 (.inr houter), hfound, fun other hother hsome => ?_⟩
    rcases (Dotted.ancestor_iff hne).1 hother with rfl | hother
    · exact absurd hnone hsome
    · exact hlongest other hother hsome

/-- A search in vain has tried all ancestors of the scope. -/
theorem Search.nowhere (h : catalog.Search reference scope none) {outer : String}
    (houter : Dotted.Ancestor outer scope) :
    catalog.type? (Dotted.join outer reference) = none := by
  generalize houtcome : none = outcome at h
  induction h with
  | found => cases houtcome
  | exhausted hnone =>
    rw [Dotted.ancestor_empty_iff.1 houter]
    exact hnone
  | outward hne hnone _ ih =>
    subst houtcome
    rcases (Dotted.ancestor_iff hne).1 houter with rfl | houter
    · exact hnone
    · exact ih houter rfl

/-! ## What a reference means -/

/-- The catalog has an entry with the given full name. -/
def Names (catalog : Catalog) (name : String) (entry : DeclaredType) : Prop :=
  entry ∈ catalog.types ∧ entry.fullName = name

/-- The entry is that of the reference in the innermost place around the scope, which
is the longest ancestor of the scope in which the reference names anything. -/
def Innermost (catalog : Catalog) (reference scope : String) (entry : DeclaredType) : Prop :=
  ∃ outer, Dotted.Ancestor outer scope ∧ catalog.Names (Dotted.join outer reference) entry ∧
    ∀ other found, Dotted.Ancestor other scope →
      catalog.Names (Dotted.join other reference) found → other.length ≤ outer.length

theorem resolve_eq_ok_iff {file context : String} {entry : DeclaredType} :
    catalog.resolve reference scope file context = .ok entry ↔
      catalog.resolve? reference scope = some entry := by
  unfold resolve
  cases catalog.resolve? reference scope <;> simp

theorem resolve_eq_error_iff {file context : String} {fault : Fault} :
    catalog.resolve reference scope file context = .error fault ↔
      fault = .unresolvedType reference file context ∧ catalog.resolve? reference scope = none := by
  unfold resolve
  cases catalog.resolve? reference scope <;> simp [eq_comm]

theorem toOption_resolve (catalog : Catalog) (reference scope file context : String) :
    (catalog.resolve reference scope file context).toOption = catalog.resolve? reference scope := by
  unfold resolve
  cases catalog.resolve? reference scope <;> rfl

section made
variable {files : List File} (h : ofFiles files = .ok catalog)
include h

theorem type?_eq_some_iff {name : String} {entry : DeclaredType} :
    catalog.type? name = some entry ↔ catalog.Names name entry := by
  constructor
  · exact mem_of_type?
  · rintro ⟨hmem, rfl⟩
    exact type?_of_mem h hmem

theorem type?_eq_none_iff {name : String} :
    catalog.type? name = none ↔ ∀ entry, ¬ catalog.Names name entry := by
  rw [Option.eq_none_iff_forall_ne_some]
  simp only [ne_eq, type?_eq_some_iff h]

theorem resolve?_eq_some_iff_innermost (hrooted : Dotted.isRooted reference = false)
    {entry : DeclaredType} :
    catalog.resolve? reference scope = some entry ↔ catalog.Innermost reference scope entry := by
  have hlongest : ∀ {found}, catalog.resolve? reference scope = some found →
      catalog.Innermost reference scope found := by
    intro found hfound
    obtain ⟨outer, houter, htype, hlongest⟩ := ((search_iff hrooted).2 hfound).innermost
    refine ⟨outer, houter, (type?_eq_some_iff h).1 htype, fun other another hother hnames => ?_⟩
    refine hlongest other hother ?_
    rw [(type?_eq_some_iff h).2 hnames]
    exact Option.some_ne_none another
  constructor
  · exact hlongest
  · rintro ⟨outer, houter, hnames, hmax⟩
    cases hresult : catalog.resolve? reference scope with
    | none =>
      have hnone := ((search_iff hrooted).2 hresult).nowhere houter
      exact absurd hnames ((type?_eq_none_iff h).1 hnone entry)
    | some found =>
      -- both are the longest, so they are one and the same ancestor
      obtain ⟨outer', houter', hnames', hmax'⟩ := hlongest hresult
      have hsame : outer = outer' := houter.eq_of_length houter'
        (Nat.le_antisymm (hmax' outer entry houter hnames) (hmax outer' found houter' hnames'))
      subst hsame
      rw [← (type?_eq_some_iff h).2 hnames, (type?_eq_some_iff h).2 hnames']

theorem resolve?_eq_none_iff_nowhere (hrooted : Dotted.isRooted reference = false) :
    catalog.resolve? reference scope = none ↔
      ∀ outer entry, Dotted.Ancestor outer scope →
        ¬ catalog.Names (Dotted.join outer reference) entry := by
  constructor
  · intro hnone outer entry houter
    exact (type?_eq_none_iff h).1 (((search_iff hrooted).2 hnone).nowhere houter) entry
  · intro hnone
    rw [Option.eq_none_iff_forall_ne_some]
    intro entry hfound
    obtain ⟨outer, houter, hnames, -⟩ := (resolve?_eq_some_iff_innermost h hrooted).1 hfound
    exact hnone outer entry houter hnames

end made

/-- A reference with a leading dot is a full name, whatever the scope is. -/
theorem resolve?_dot (catalog : Catalog) (name scope : String) :
    catalog.resolve? ("." ++ name) scope = catalog.type? name := by
  have hrooted : Dotted.isRooted ("." ++ name) = true := by simp [Dotted.isRooted]
  have hname : Dotted.unrooted ("." ++ name) = name := by simp [Dotted.unrooted]
  rw [resolve?, if_pos hrooted, get?, hname]

/-- **Lookup from the inside out.** In a catalog of files, a reference without a leading
dot means what it names in the longest ancestor of the scope in which it names
anything. The search through the ancestors ends with exactly that, or with the fault
that the type is unresolved if there is no such ancestor. A reference with a leading dot
means what has the rest of it as full name, in every scope; so every type is found by
its full name behind a dot. Of file and context nothing but the fault depends. -/
theorem resolve_finds_innermost {files : List File} (h : ofFiles files = .ok catalog)
    (reference scope file context : String) :
    (Dotted.isRooted reference = false →
      (∀ outcome, catalog.Search reference scope outcome ↔
        (catalog.resolve reference scope file context).toOption = outcome) ∧
      (∀ entry, catalog.resolve reference scope file context = .ok entry ↔
        catalog.Innermost reference scope entry) ∧
      ∀ fault, catalog.resolve reference scope file context = .error fault ↔
        fault = .unresolvedType reference file context ∧
          ∀ outer entry, Dotted.Ancestor outer scope →
            ¬ catalog.Names (Dotted.join outer reference) entry) ∧
    (∀ name, reference = "." ++ name →
      (∀ entry, catalog.resolve reference scope file context = .ok entry ↔
        catalog.Names name entry) ∧
      ∀ fault, catalog.resolve reference scope file context = .error fault ↔
        fault = .unresolvedType reference file context ∧ ∀ entry, ¬ catalog.Names name entry) ∧
    (∀ entry ∈ catalog.types,
      catalog.resolve ("." ++ entry.fullName) scope file context = .ok entry) ∧
    ∀ file' context', (catalog.resolve reference scope file' context').toOption =
      (catalog.resolve reference scope file context).toOption := by
  refine ⟨fun hrooted => ⟨?_, ?_, ?_⟩, ?_, ?_, ?_⟩
  · intro outcome
    rw [toOption_resolve]
    exact search_iff hrooted
  · intro entry
    rw [resolve_eq_ok_iff, resolve?_eq_some_iff_innermost h hrooted]
  · intro fault
    rw [resolve_eq_error_iff, resolve?_eq_none_iff_nowhere h hrooted]
  · rintro name rfl
    constructor
    · intro entry
      rw [resolve_eq_ok_iff, resolve?_dot, type?_eq_some_iff h]
    · intro fault
      rw [resolve_eq_error_iff, resolve?_dot, type?_eq_none_iff h]
  · intro entry hentry
    rw [resolve_eq_ok_iff, resolve?_dot]
    exact type?_of_mem h hentry
  · intro file' context'
    rw [toOption_resolve, toOption_resolve]

end Catalog

namespace Sample

/-- Three types called `Point`: in the package, in a message of it, and in the package
around it. -/
def region : File where
  name := some "region.proto"
  package := some "geo.map"
  messages :=
    [{ name := "Point" },
     { name := "Area", nested := [{ name := "Edge" }, { name := "Point" }] }]

def globe : File where
  name := some "globe.proto"
  package := some "geo"
  messages := [{ name := "Point" }]

def atlas : Catalog := ⟨[globe, region], globe.types ++ region.types⟩

end Sample

/-- From inside a message the type of the message is meant. Behind two dots in a row no
message is found, and the type of the package is meant. -/
theorem Catalog.resolve_finds_innermost_atlas :
    Catalog.ofFiles [Sample.globe, Sample.region] = .ok Sample.atlas ∧
      (∃ entry, Sample.atlas.Innermost "Point" "geo.map.Area.Edge" entry ∧
        entry.fullName = "geo.map.Area.Point") ∧
      ∃ entry, Sample.atlas.Innermost "Point" "geo.map..Edge" entry ∧
        entry.fullName = "geo.map.Point" := by
  have hfiles : Catalog.ofFiles [Sample.globe, Sample.region] = .ok Sample.atlas := rfl
  have hplain : Dotted.isRooted "Point" = false := by decide
  have hinside :=
    (Catalog.resolve_finds_innermost hfiles "Point" "geo.map.Area.Edge" "" "").1 hplain
  have hdots := (Catalog.resolve_finds_innermost hfiles "Point" "geo.map..Edge" "" "").1 hplain
  exact ⟨hfiles, ⟨_, (hinside.2.1 _).1 rfl, rfl⟩, ⟨_, (hdots.2.1 _).1 rfl, rfl⟩⟩

end ProtoTypings
