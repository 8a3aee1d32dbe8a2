import ProtoTypings.Proofs.CatalogExact
import ProtoTypings.Proofs.FileExtension
import ProtoTypings.Proofs.NameClashes
import ProtoTypings.Proofs.OutlineLookup
/-!
# Hidden names

A type of the same file goes by its path inside the package, unless a message around
the place of the reference declares a type that is called like the first name of the
path. The search for such a message starts right outside the place, goes outwards one
name at a time and stops at the first name that is no message. It misses no message
and meets no others, and a path that it lets pass leads to the type that was meant.

**Hidden names.** `file.HiddenIn scope name`: a message around the declaration under
`scope` declares a type called `name`.

**Results.**
* `File.hiddenIn_iff`: a name is hidden exactly if it is declared right inside one of
  the scopes around the place.
* `File.ClosedIn.isShadowed_iff`: it finds exactly the hidden names.
* `File.TypingRun.lookup_eq`: a path whose first name is not hidden leads to its type.
* `Catalog.relative_path_iff`: all of it for the references in a file.
* `Catalog.relative_path_hidden`: packages that begin with a dot are an exception.
-/
namespace ProtoTypings

/-- A message strictly around the declaration under `scope` declares a type called
`name`. -/
def File.HiddenIn (file : File) (scope : List String) (name : String) : Prop :=
  ∃ outer m, outer <+: scope.dropLast ∧ file.Declares outer (.message m) ∧
    name ∈ m.nested.map (·.name) ++ m.enums.map (·.name)

/-! ## Paths of declarations -/

theorem Dotted.segments_ofSegments {names : List String} (h : ∀ name ∈ names, IsSegment name) :
    segments (ofSegments names) = names := by
  induction names using List.reverseRecOn with
  | nil => exact segments_empty
  | append_singleton names name ih =>
    rw [ofSegments_append, segments_join _ (h name (by simp)),
      ih fun n hn => h n (List.mem_append_left _ hn)]

theorem Dotted.ofSegments_ne_empty {names : List String} (h : ∀ name ∈ names, IsSegment name)
    (hne : names ≠ []) : ofSegments names ≠ "" := by
  intro hempty
  have hsegments := segments_ofSegments h
  rw [hempty, segments_empty] at hsegments
  exact hne hsegments.symm

theorem Dotted.head_ofSegments {first : String} {rest : List String}
    (h : ∀ name ∈ first :: rest, IsSegment name) : head (ofSegments (first :: rest)) = first := by
  induction rest using List.reverseRecOn with
  | nil =>
    have hself : ofSegments [first] = first := join_empty_left first
    rw [hself, head_of_isSegment (h first List.mem_cons_self)]
  | append_singleton rest name ih =>
    rw [← List.cons_append] at h ⊢
    have hinit := (List.forall_mem_append.1 h).1
    rw [ofSegments_append, head_join (ofSegments_ne_empty hinit (by simp)), ih hinit]

namespace File

variable {file : File} {path : List String} {definition : Definition}

def fullName (file : File) (path : List String) : String :=
  Dotted.join file.packageName (Dotted.ofSegments path)

theorem fullName_singleton (file : File) (name : String) :
    file.fullName [name] = Dotted.join file.packageName name :=
  congrArg (Dotted.join file.packageName) (Dotted.join_empty_left name)

theorem fullName_entry (file : File) (path : List String) (definition : Definition) :
    (file.entry path definition).fullName = file.fullName path := rfl

theorem Declares.ne_nil (h : file.Declares path definition) : path ≠ [] := by
  cases h <;> simp

theorem Declares.mem_types (h : file.Declares path definition) :
    file.entry path definition ∈ file.types :=
  File.mem_types_iff_declares.2 ⟨path, definition, h, rfl⟩

/-- What holds of the paths at the top of a file, and passes on to what is declared
right inside a message, holds of the paths of all declarations. -/
theorem Declares.path_induction {motive : List String → Prop} (hnamed : file.WellNamed)
    (top : ∀ name, Dotted.IsSegment name → motive [name])
    (inner : ∀ path m name, file.Declares path (.message m) → motive path →
      Dotted.IsSegment name → motive (path ++ [name]))
    (h : file.Declares path definition) : motive path := by
  induction h with
  | message hm => exact top _ (hnamed _ (Declares.message hm).mem_types)
  | enum he => exact top _ (hnamed _ (Declares.enum he).mem_types)
  | nestedMessage howner hn ih =>
    exact inner _ _ _ howner ih (hnamed _ (howner.nestedMessage hn).mem_types)
  | nestedEnum howner he ih =>
    exact inner _ _ _ howner ih (hnamed _ (howner.nestedEnum he).mem_types)

theorem Declares.isSegment (hnamed : file.WellNamed) (h : file.Declares path definition) :
    ∀ name ∈ path, Dotted.IsSegment name := by
  refine h.path_induction (motive := fun path => ∀ name ∈ path, Dotted.IsSegment name) hnamed
    (fun name hname => ?_) fun path m name _ ih hname => ?_
  · exact List.forall_mem_singleton.2 hname
  · exact List.forall_mem_append.2 ⟨ih, List.forall_mem_singleton.2 hname⟩

theorem Declares.segments_eq (hnamed : file.WellNamed) (h : file.Declares path definition) :
    Dotted.segments (file.entry path definition).localName = path :=
  Dotted.segments_ofSegments (h.isSegment hnamed)

theorem Declares.exists_concat (h : file.Declares path definition) :
    ∃ outer, path = outer ++ [(file.entry path definition).simpleName] := by
  cases h with
  | message _ => exact ⟨[], rfl⟩
  | enum _ => exact ⟨[], rfl⟩
  | nestedMessage _ _ => exact ⟨_, rfl⟩
  | nestedEnum _ _ => exact ⟨_, rfl⟩

/-- Where every type has a name, the full name of what is inside a message is joined from that of
the message. -/
theorem Declares.fullName_concat (hnamed : file.Named) (h : file.Declares path definition)
    (name : String) : file.fullName (path ++ [name]) = Dotted.join (file.fullName path) name := by
  have hne : Dotted.ofSegments path ≠ "" := by
    obtain ⟨outer, hpath⟩ := h.exists_concat
    rw [hpath, Dotted.ofSegments_append]
    exact Dotted.join_ne_empty _ (hnamed _ h.mem_types)
  rw [fullName, Dotted.ofSegments_append, Dotted.join_join _ hne, fullName]

/-- What is declared under a path stands at the top of the file, or right inside the
message under the rest of the path. -/
theorem declares_concat_iff {outer : List String} {name : String} :
    (∃ definition, file.Declares (outer ++ [name]) definition) ↔
      outer = [] ∧ name ∈ file.enums.map (·.name) ++ file.messages.map (·.name) ∨
        ∃ m, file.Declares outer (.message m) ∧
          name ∈ m.nested.map (·.name) ++ m.enums.map (·.name) := by
  simp only [List.mem_append, List.mem_map]
  constructor
  · rintro ⟨definition, hdeclares⟩
    generalize hpath : outer ++ [name] = path at hdeclares
    cases hdeclares with
    | message hm =>
      obtain ⟨rfl, rfl⟩ := List.append_singleton_inj.1 (hpath.trans (List.nil_append _).symm)
      exact .inl ⟨rfl, .inr ⟨_, hm, rfl⟩⟩
    | enum he =>
      obtain ⟨rfl, rfl⟩ := List.append_singleton_inj.1 (hpath.trans (List.nil_append _).symm)
      exact .inl ⟨rfl, .inl ⟨_, he, rfl⟩⟩
    | nestedMessage howner hn =>
      obtain ⟨rfl, rfl⟩ := List.append_singleton_inj.1 hpath
      exact .inr ⟨_, howner, .inl ⟨_, hn, rfl⟩⟩
    | nestedEnum howner he =>
      obtain ⟨rfl, rfl⟩ := List.append_singleton_inj.1 hpath
      exact .inr ⟨_, howner, .inr ⟨_, he, rfl⟩⟩
  · rintro (⟨rfl, ⟨e, he, rfl⟩ | ⟨m, hm, rfl⟩⟩ | ⟨m, howner, ⟨n, hn, rfl⟩ | ⟨e, he, rfl⟩⟩)
    · exact ⟨_, .enum he⟩
    · exact ⟨_, .message hm⟩
    · exact ⟨_, howner.nestedMessage hn⟩
    · exact ⟨_, howner.nestedEnum he⟩

/-- The first name of a path is declared at the top of the file. -/
theorem Declares.exists_first {first : String} {rest : List String}
    (h : file.Declares (first :: rest) definition) : ∃ top, file.Declares [first] top := by
  generalize hpath : first :: rest = path at h
  induction h generalizing rest with
  | message hm =>
    obtain ⟨rfl, -⟩ := List.cons.inj hpath
    exact ⟨_, .message hm⟩
  | enum he =>
    obtain ⟨rfl, -⟩ := List.cons.inj hpath
    exact ⟨_, .enum he⟩
  | nestedMessage howner _ ih | nestedEnum howner _ ih =>
    obtain ⟨head, tail, rfl⟩ := List.exists_cons_of_ne_nil howner.ne_nil
    obtain ⟨rfl, -⟩ := List.cons.inj hpath
    exact ih rfl

/-- **A name is hidden** if it is declared right inside a scope around the place. -/
theorem hiddenIn_iff {scope : List String} {name : String} :
    file.HiddenIn scope name ↔
      ∃ outer, outer <+: scope.dropLast ∧ outer ≠ [] ∧
        ∃ definition, file.Declares (outer ++ [name]) definition := by
  constructor
  · rintro ⟨outer, m, houter, howner, hname⟩
    exact ⟨outer, houter, howner.ne_nil, declares_concat_iff.2 (.inr ⟨m, howner, hname⟩)⟩
  · rintro ⟨outer, houter, hne, hdeclares⟩
    obtain ⟨hempty, -⟩ | ⟨m, howner, hname⟩ := declares_concat_iff.1 hdeclares
    · exact absurd hempty hne
    · exact ⟨outer, m, houter, howner, hname⟩

theorem not_hiddenIn_singleton (file : File) (top name : String) : ¬ file.HiddenIn [top] name := by
  rw [hiddenIn_iff]
  rintro ⟨outer, houter, hne, -⟩
  exact hne (List.prefix_nil.1 houter)

/-- Around what is declared in a message are the message and what is around it. -/
theorem hiddenIn_concat_iff {scope : List String} (h : scope ≠ []) (inner name : String) :
    file.HiddenIn (scope ++ [inner]) name ↔
      (∃ definition, file.Declares (scope ++ [name]) definition) ∨ file.HiddenIn scope name := by
  have hprefix (outer : List String) :
      outer <+: scope ↔ outer = scope ∨ outer <+: scope.dropLast := by
    conv_lhs => rw [← List.dropLast_append_getLast h]
    rw [List.prefix_concat_iff, List.dropLast_append_getLast h]
  simp only [hiddenIn_iff, List.dropLast_concat, hprefix]
  constructor
  · rintro ⟨outer, rfl | houter, hne, hdeclares⟩
    · exact .inl hdeclares
    · exact .inr ⟨outer, houter, hne, hdeclares⟩
  · rintro (hdeclares | ⟨outer, houter, hne, hdeclares⟩)
    · exact ⟨scope, .inl rfl, h, hdeclares⟩
    · exact ⟨outer, .inr houter, hne, hdeclares⟩

end File

/-! ## The search -/

namespace File.ClosedIn

variable {file : File} {catalog : Catalog} {path : List String} {m : Message}
  {definition : Definition} (hclosed : file.ClosedIn catalog) (hnamed : file.WellNamed)
  (hplain : Dotted.isRooted file.packageName = false)
include hclosed hplain

/-- No message is around what stands at the top. -/
theorem isShadowed_top {name : String} (hname : Dotted.IsSegment name) (localName : String) :
    catalog.isShadowed localName (file.fullName [name]) = false := by
  rw [file.fullName_singleton, Catalog.isShadowed_eq_any,
    hclosed.enclosingMessages_top hplain hname.2, List.any_nil]

include hnamed

/-- The search looks at the message around a place before it goes on. -/
theorem isShadowed_inner (h : file.Declares path (.message m)) {name : String}
    (hname : Dotted.IsSegment name) (localName : String) :
    catalog.isShadowed localName (file.fullName (path ++ [name])) =
      (catalog.declares (file.entry path (.message m)) (Dotted.head localName) ||
        catalog.isShadowed localName (file.fullName path)) := by
  have hrooted := hnamed.isRooted_fullName hplain _ h.mem_types
  have hmessages := hclosed.enclosingMessages_inner h.mem_types rfl hrooted hname.2
  rw [file.fullName_entry] at hmessages
  rw [h.fullName_concat hnamed.named, Catalog.isShadowed_eq_any, hmessages, List.any_cons,
    ← Catalog.isShadowed_eq_any]

/-- What a message declares is found in the catalog right inside its name. -/
theorem declares_iff (h : file.Declares path (.message m)) {name : String}
    (hname : Dotted.IsSegment name) :
    catalog.declares (file.entry path (.message m)) name = true ↔
      ∃ definition, file.Declares (path ++ [name]) definition := by
  have hrooted := hnamed.isRooted_fullName hplain _ h.mem_types
  rw [hclosed.declares_eq h.mem_types rfl hrooted hname, file.fullName_entry,
    ← h.fullName_concat hnamed.named, List.any_eq_true]
  constructor
  · rintro ⟨entry, hentry, hsame⟩
    obtain ⟨found, definition, hfound, rfl⟩ := File.mem_types_iff_declares.1 hentry
    have hsegments : ∀ n ∈ path ++ [name], Dotted.IsSegment n :=
      List.forall_mem_append.2 ⟨h.isSegment hnamed, List.forall_mem_singleton.2 hname⟩
    have hlocal : Dotted.ofSegments found = Dotted.ofSegments (path ++ [name]) :=
      Dotted.join_right_inj.1 (of_decide_eq_true hsame)
    rw [← Dotted.segments_ofSegments hsegments, ← hlocal,
      Dotted.segments_ofSegments (hfound.isSegment hnamed)]
    exact ⟨definition, hfound⟩
  · rintro ⟨definition, hfound⟩
    exact ⟨_, hfound.mem_types, decide_eq_true rfl⟩

/-- **The search is exact.** It finds the hidden names and no others. -/
theorem isShadowed_iff (h : file.Declares path definition) {localName : String}
    (hhead : Dotted.IsSegment (Dotted.head localName)) :
    catalog.isShadowed localName (file.fullName path) = true ↔
      file.HiddenIn path (Dotted.head localName) := by
  refine h.path_induction
    (motive := fun path => catalog.isShadowed localName (file.fullName path) = true ↔
      file.HiddenIn path (Dotted.head localName)) hnamed
    (fun name hname => ?_) fun path m name howner ih hname => ?_
  · rw [hclosed.isShadowed_top hplain hname]
    simpa using file.not_hiddenIn_singleton name (Dotted.head localName)
  · rw [hclosed.isShadowed_inner hnamed hplain howner hname, Bool.or_eq_true,
      hclosed.declares_iff hnamed hplain howner hhead, ih,
      File.hiddenIn_concat_iff howner.ne_nil]

end File.ClosedIn

/-! ## The paths that are let pass -/

theorem filter_eq_singleton {α β : Type} [DecidableEq β] {f : α → β} {xs : List α}
    (h : (xs.map f).Nodup) {x : α} (hx : x ∈ xs) : xs.filter (f · = f x) = [x] := by
  rw [← List.perm_singleton, List.perm_ext_iff_of_nodup ((List.Nodup.of_map f h).filter _)
    (List.nodup_singleton x)]
  intro y
  rw [List.mem_filter, decide_eq_true_eq, List.mem_singleton]
  constructor
  · rintro ⟨hy, hsame⟩
    exact List.inj_on_of_nodup_map h hy hx hsame
  · rintro rfl
    exact ⟨hx, rfl⟩

namespace File.TypingRun

variable {settings : Settings} {file : File} {r mid last : Resolver} {typing : FileTyping}
  (run : file.TypingRun settings r mid last typing) (hnamed : file.WellNamed)
  (hnodup : (file.types.map (·.fullName)).Nodup)
include run

/-- If nothing clashes, no service stands where a type is declared. -/
theorem ne_interfaceName {path : List String} {definition : Definition}
    (hclash : Item.firstClash? file.packageName [] typing.items = none)
    (h : file.Declares path definition) :
    ∀ service ∈ file.services, path ≠ [service.interfaceName] := by
  rintro service hservice rfl
  have hnames := ((Item.firstClash?_eq_none_iff typing.scopesFollow_items).1 hclash).1
  rw [run.heading_names] at hnames
  have hdeclares : ∃ definition, file.Declares ([] ++ [service.interfaceName]) definition :=
    ⟨definition, h⟩
  obtain ⟨-, htop⟩ | ⟨m, howner, -⟩ := File.declares_concat_iff.1 hdeclares
  · exact List.disjoint_of_nodup_append hnames htop (List.mem_map_of_mem hservice)
  · exact howner.ne_nil rfl

include hnamed hnodup

/-- Whatever stands under a chain is a service, or the file declares a type there. -/
theorem declares_of_mem_allNodes {chain : List String} {item : Item}
    (hnode : (chain, item) ∈ Item.allNodes [] typing.items) :
    (∃ service ∈ file.services, chain = [service.interfaceName]) ∨
      ∃ definition, file.Declares chain definition := by
  have hdeclares : (∃ entry ∈ file.types, Dotted.segments entry.localName = chain) →
      ∃ definition, file.Declares chain definition := by
    rintro ⟨entry, hentry, rfl⟩
    obtain ⟨path, definition, hpath, rfl⟩ := File.mem_types_iff_declares.1 hentry
    rw [hpath.segments_eq hnamed]
    exact ⟨definition, hpath⟩
  cases item with
  | service typed =>
    obtain ⟨service, hservice, hchain, -⟩ := run.service_shown hnamed hnodup hnode
    exact .inl ⟨service, hservice, hchain⟩
  | scope name inner =>
    obtain ⟨entry, hentry, hchain, -⟩ := (run.exists_scope_iff hnamed hnodup).2 ⟨_, hnode, rfl⟩
    exact .inr (hdeclares ⟨entry, hentry, hchain⟩)
  | interface name leading properties =>
    obtain ⟨entry, hentry, hshown⟩ := run.exists_shown hnamed hnodup hnode rfl
    exact .inr (hdeclares ⟨entry, hentry, hshown.1.symm⟩)
  | enumeration typed =>
    obtain ⟨entry, hentry, hshown⟩ := run.exists_shown hnamed hnodup hnode rfl
    exact .inr (hdeclares ⟨entry, hentry, hshown.1.symm⟩)

/-- What a file declares is shown under its path. -/
theorem exists_shownBy {path : List String} {definition : Definition}
    (h : file.Declares path definition) :
    ∃ item, (path, item) ∈ (Item.allNodes [] typing.items).filter (·.2.kind?.isSome) ∧
      (file.entry path definition).ShownBy settings r.catalog item := by
  obtain ⟨⟨chain, item⟩, hnode, hshown⟩ := Multiset.exists_mem_of_rel_of_mem
    (run.rel_declarations hnamed hnodup) (Multiset.mem_coe.2 h.mem_types)
  obtain ⟨hchain, hitem⟩ := hshown.shownBy rfl
  obtain rfl : chain = path := hchain.trans (h.segments_eq hnamed)
  exact ⟨item, Multiset.mem_coe.1 hnode, hitem⟩

/-- If nothing clashes, the only type under the path of a declaration is the one that
shows it. -/
theorem filter_isType_eq {path : List String} {definition : Definition} {item : Item}
    (hclash : Item.firstClash? file.packageName [] typing.items = none)
    (h : file.Declares path definition)
    (hitem : (path, item) ∈ (Item.allNodes [] typing.items).filter (·.2.kind?.isSome)) :
    (Item.allNodes [] typing.items).filter (fun node => node.1 = path && node.2.isType) =
      [(path, item)] := by
  rw [← filter_eq_singleton (run.chains_nodup hnamed hnodup) hitem, List.filter_filter]
  refine List.filter_congr fun node hnode => ?_
  by_cases hchain : node.1 = path
  · rw [decide_eq_true hchain, Bool.true_and, Bool.true_and, Bool.eq_iff_iff, Item.isType_iff,
      or_iff_left]
    rintro ⟨typed, hservice⟩
    obtain ⟨chain, found⟩ := node
    subst hservice
    obtain ⟨service, hmem, hplace, -⟩ := run.service_shown hnamed hnodup hnode
    exact run.ne_interfaceName hclash h service hmem (hchain.symm.trans hplace)
  · rw [decide_eq_false hchain, Bool.false_and, Bool.false_and]

/-- **Where a path leads.** If nothing clashes, a path whose first name is not hidden
leads to the type that it names. -/
theorem lookup_eq {scope rest : List String} {first : String} {definition : Definition}
    (hclash : Item.firstClash? file.packageName [] typing.items = none)
    (h : file.Declares (first :: rest) definition) (hfree : ¬ file.HiddenIn scope first)
    (package : List String) :
    ∃ item, (Outline.mk package typing.items).lookup scope.dropLast (first :: rest) =
        [(first :: rest, item)] ∧
      (file.entry (first :: rest) definition).ShownBy settings r.catalog item := by
  obtain ⟨item, hitem, hshown⟩ := run.exists_shownBy hnamed hnodup h
  refine ⟨item, ?_, hshown⟩
  rw [Outline.lookup_eq_filter]
  · exact run.filter_isType_eq hnamed hnodup hclash h hitem
  · intro outer houter hne found hfound
    obtain ⟨service, -, hchain⟩ | hdeclares := run.declares_of_mem_allNodes hnamed hnodup hfound
    · -- services stand at the top
      exact hne (List.append_singleton_inj.1 (hchain.trans (List.nil_append _).symm)).1
    · exact hfree (File.hiddenIn_iff.2 ⟨outer, houter, hne, hdeclares⟩)
  · obtain ⟨top, htop⟩ := h.exists_first
    obtain ⟨found, hfound, -⟩ := run.exists_shownBy hnamed hnodup htop
    exact ⟨found, (List.mem_filter.1 hfound).1⟩

end File.TypingRun

/-! ## References in a file -/

theorem Catalog.exists_lookup {files : List File} {catalog : Catalog}
    (hfiles : Catalog.ofFiles files = .ok catalog) (hpaths : (files.map File.path).Nodup)
    {file : File} (hfile : file ∈ files) (hnamed : file.WellNamed) {entry : DeclaredType}
    (hentry : entry ∈ file.types) {scope : List String}
    (hfree : ¬ file.HiddenIn scope (Dotted.head entry.localName)) {settings : Settings}
    {typings : Typings} (h : catalog.typings settings file.path = .ok typings) :
    ∃ item, typings.outline.lookup scope.dropLast (Dotted.segments entry.localName) =
        [(Dotted.segments entry.localName, item)] ∧
      entry.ShownBy settings catalog item := by
  obtain ⟨found, typing, last, hfound, hyields, hclash, rfl⟩ := Catalog.yields_of_typings h
  obtain rfl := Option.some.inj (hfound.symm.trans (file?_of_mem hfiles hpaths hfile))
  obtain ⟨mid, run⟩ := File.yields_typing hyields
  obtain ⟨path, definition, hdeclares, rfl⟩ := File.mem_types_iff_declares.1 hentry
  obtain ⟨first, rest, rfl⟩ := List.exists_cons_of_ne_nil hdeclares.ne_nil
  have hfirst : Dotted.head (found.entry (first :: rest) definition).localName = first :=
    Dotted.head_ofSegments (hdeclares.isSegment hnamed)
  rw [hfirst] at hfree
  rw [hdeclares.segments_eq hnamed]
  exact run.lookup_eq hnamed (fullNames_nodup_of_file hfiles hfile) hclash hdeclares hfree _

/-- A path with its package in front is another path. -/
theorem Dotted.append_ne_self (package name : String) : package ++ "." ++ name ≠ name := by
  intro h
  have hlength := congrArg String.length h
  rw [String.length_append, String.length_append] at hlength
  have hdot : ".".length = 1 := rfl
  omega

/-- **Relative paths.** Let files with distinct paths make a catalog, the names of
their types be segments, and no message be called like a package or the beginning of
one. Let a file of them have a package that does not begin with a dot. From a message
of the file, the search for what hides a type of the file ends. The type goes by its
path inside the package exactly if no message around the place declares a type called
like the first name of that path, and by its path with the package otherwise. If it
goes by the path inside the package and the file has typings, the path leads from the
scope that holds the message's interface to the type, and to nothing else. -/
theorem Catalog.relative_path_iff {files : List File} {catalog : Catalog}
    (hfiles : Catalog.ofFiles files = .ok catalog) (hpaths : (files.map File.path).Nodup)
    (hnames : ∀ file ∈ files, file.WellNamed) (hapart : File.MessagesApart files) {file : File}
    (hfile : file ∈ files) (hpackage : file.packageName ≠ "")
    (hplain : Dotted.isRooted file.packageName = false) {scope : List String} {m : Message}
    (hscope : file.Declares scope (.message m)) {entry : DeclaredType}
    (hentry : entry ∈ catalog.types) (hown : entry.file = file.path) :
    catalog.Walk (Dotted.head entry.localName) (Dotted.parent (file.fullName scope))
        (catalog.isShadowed entry.localName (file.fullName scope)) ∧
      ∀ r : Resolver, r.catalog = catalog → r.file = file.path →
        ∃ path, r.refer entry (file.fullName scope) = ({ path := path, via := none }, r) ∧
          (path = entry.localName ↔ ¬ file.HiddenIn scope (Dotted.head entry.localName)) ∧
          (file.HiddenIn scope (Dotted.head entry.localName) →
            path = entry.package ++ "." ++ entry.localName) ∧
          ∀ settings typings, catalog.typings settings file.path = .ok typings →
            path = entry.localName →
            ∃ item, typings.outline.lookup scope.dropLast (Dotted.segments entry.localName) =
                [(Dotted.segments entry.localName, item)] ∧
              entry.ShownBy settings catalog item := by
  have hnamed := hnames file hfile
  have hclosed := File.closedIn_of_ofFiles hfiles hpaths hnames hapart hfile
  have hmem : entry ∈ file.types :=
    (mem_types_iff_of_paths_nodup hfiles hpaths (file?_of_mem hfiles hpaths hfile)).2
      ⟨hentry, hown⟩
  have hprefixed : entry.package ≠ "" := by
    rw [file.eq_ofLocal entry hmem]
    exact hpackage
  have hexact := hclosed.isShadowed_iff hnamed hplain hscope (hnamed.isSegment_head entry hmem)
  refine ⟨hclosed.messagesNamed.walk entry.localName _, fun r hcatalog hr => ?_⟩
  have hrefer : r.refer entry (file.fullName scope) =
      ({ path := r.localPath entry (file.fullName scope), via := none }, r) :=
    if_pos (hown.trans hr.symm)
  subst hcatalog
  by_cases hhidden : file.HiddenIn scope (Dotted.head entry.localName)
  · have hpath : r.localPath entry (file.fullName scope) =
        entry.package ++ "." ++ entry.localName := if_pos ⟨hprefixed, hexact.2 hhidden⟩
    rw [hpath] at hrefer
    have hother := Dotted.append_ne_self entry.package entry.localName
    exact ⟨_, hrefer, iff_of_false hother (not_not_intro hhidden), fun _ => rfl,
      fun _ _ _ hsame => absurd hsame hother⟩
  · have hpath : r.localPath entry (file.fullName scope) = entry.localName :=
      if_neg fun hboth => hhidden (hexact.1 hboth.2)
    rw [hpath] at hrefer
    exact ⟨_, hrefer, iff_of_true rfl hhidden, fun hyes => absurd hyes hhidden,
      fun _ _ htypings _ => exists_lookup hfiles hpaths hfile hnamed hmem hhidden htypings⟩

/-- From the message `Slot` inside `Box`, the type `Item` at the top is hidden by the
type `Item` inside `Box`, and that one is not hidden. -/
theorem Catalog.relative_path_iff_depot :
    ∃ catalog typings, Catalog.ofFiles [Sample.base, Sample.depot] = .ok catalog ∧
      catalog.typings {} "depot.proto" = .ok typings ∧
      ∃ outer ∈ catalog.types, ∃ inner ∈ catalog.types,
        outer.localName = "Item" ∧ inner.localName = "Box.Item" ∧
        ((Resolver.ofFile catalog "depot.proto").refer outer "depot.Box.Slot").1.path =
          "depot.Item" ∧
        ((Resolver.ofFile catalog "depot.proto").refer inner "depot.Box.Slot").1.path =
          "Box.Item" ∧
        ∃ item, typings.outline.lookup ["Box"] ["Box", "Item"] = [(["Box", "Item"], item)] ∧
          inner.ShownBy {} catalog item := by
  let item : Definition := .message { name := "Item" }
  have hfiles : ∃ catalog, Catalog.ofFiles [Sample.base, Sample.depot] = .ok catalog ∧
      (∃ typings, catalog.typings {} "depot.proto" = .ok typings) ∧
      ((Resolver.ofFile catalog "depot.proto").refer (Sample.depot.entry ["Box", "Item"] item)
        "depot.Box.Slot").1.path = "Box.Item" := ⟨_, rfl, ⟨_, rfl⟩, by decide +kernel⟩
  obtain ⟨catalog, hcatalog, ⟨typings, htypings⟩, hpath⟩ := hfiles
  have hdepot : Sample.depot ∈ [Sample.base, Sample.depot] := by simp
  have hbox := File.Declares.message (show _ ∈ Sample.depot.messages from .tail _ (.head _))
  have hslot := hbox.nestedMessage (.tail _ (.head _))
  have htop : Sample.depot.Declares ["Item"] item :=
    File.Declares.message (show { name := "Item" } ∈ Sample.depot.messages from .head _)
  have hinner : Sample.depot.Declares ["Box", "Item"] item := hbox.nestedMessage (.head _)
  have hmem {path : List String} {definition : Definition}
      (h : Sample.depot.Declares path definition) :
      Sample.depot.entry path definition ∈ catalog.types :=
    (mem_types_iff hcatalog).2 ⟨Sample.depot, hdepot, h.mem_types⟩
  have hresult {path : List String} (h : Sample.depot.Declares path item) :=
    (relative_path_iff hcatalog (by decide) (by decide) (by decide) hdepot (by decide) (by decide)
      hslot (hmem h) rfl).2 (Resolver.ofFile catalog "depot.proto") rfl rfl
  refine ⟨catalog, typings, hcatalog, htypings, _, hmem htop, _, hmem hinner, by decide, by decide,
    ?_, hpath, ?_⟩
  · obtain ⟨path, hrefer, -, hhidden, -⟩ := hresult htop
    exact (congrArg (·.1.path) hrefer).trans
      (hhidden ⟨["Box"], _, List.prefix_refl _, hbox, by decide⟩)
  · obtain ⟨path, hrefer, -, -, hlookup⟩ := hresult hinner
    have hfound := hlookup {} typings htypings ((congrArg (·.1.path) hrefer).symm.trans hpath)
    rw [hinner.segments_eq (by decide)] at hfound
    exact hfound

namespace Sample

/-- A file whose package begins with a dot, in which a message hides a type from the
message inside it. -/
def veiled : File where
  name := some "veiled.proto"
  package := some ".foo"
  messages := [{ name := "M", nested := [{ name := "N" }, { name := "K" }] }, { name := "N" }]

end Sample

/-- **An exception.** In a package that begins with a dot the search finds no message,
since a leading dot is dropped when a name is looked up. So the type `N` goes by its
path inside the package where another `N` hides it. -/
theorem Catalog.relative_path_hidden :
    ∃ catalog, Catalog.ofFiles [Sample.veiled] = .ok catalog ∧ Sample.veiled.WellNamed ∧
      File.MessagesApart [Sample.veiled] ∧ Sample.veiled.packageName ≠ "" ∧
      Sample.veiled.Declares ["M", "K"] (.message { name := "K" }) ∧
      ∃ entry ∈ catalog.types, entry.file = Sample.veiled.path ∧
        Sample.veiled.HiddenIn ["M", "K"] (Dotted.head entry.localName) ∧
        ((Resolver.ofFile catalog "veiled.proto").refer entry
          (Sample.veiled.fullName ["M", "K"])).1.path = entry.localName := by
  let hidden : DeclaredType := Sample.veiled.entry ["N"] (.message { name := "N" })
  have hfiles : ∃ catalog, Catalog.ofFiles [Sample.veiled] = .ok catalog ∧
      ((Resolver.ofFile catalog "veiled.proto").refer hidden
        (Sample.veiled.fullName ["M", "K"])).1.path = hidden.localName :=
    ⟨_, rfl, by decide +kernel⟩
  obtain ⟨catalog, hcatalog, hpath⟩ := hfiles
  have houter := File.Declares.message (show _ ∈ Sample.veiled.messages from .head _)
  have htop := File.Declares.message (show _ ∈ Sample.veiled.messages from .tail _ (.head _))
  have hmem := (mem_types_iff hcatalog).2 ⟨_, List.mem_singleton_self _, htop.mem_types⟩
  refine ⟨catalog, hcatalog, by decide, by decide, by decide,
    houter.nestedMessage (.tail _ (.head _)), hidden, hmem, rfl, ?_, hpath⟩
  exact ⟨["M"], _, List.prefix_refl _, houter, by decide⟩

end ProtoTypings
