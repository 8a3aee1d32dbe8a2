import ProtoTypings.Proofs.ReferenceTargets
/-!
# What the first name of a path is bound to

A name in a declaration file is looked up from the inside out: in the scopes of
the messages around it, in the body of the package, among the segments of the
package after the first, and at the top of the file, where the imports and the
first segment stand. Only scopes and enumerations can stand before a dot; only
interfaces and enumerations are types.

A path that goes through an import, or begins with the package, is meant to
start at the top of the file. Imports get names that differ from each other and
from the first segment, but nothing keeps a declaration on the way from having
the same name.

* `Typings.qualifier`, `Typings.type`: the two kinds of lookup.
* `File.Captures`, `File.Hides`: a type of the file is in the way.
* `Catalog.heads_bound`: what a path or a global name is bound to is what was
  meant exactly when nothing is in the way.
* `Catalog.import_captured`: an enum can be in the way of an import.
-/
namespace ProtoTypings

/-! ## Lookup from the inside out -/

/-- What a name is bound to. -/
inductive Binding where
  /-- A declaration of the file, under its chain. -/
  | declared (chain : List String)
  /-- The segment of the package at a position. -/
  | package (position : Nat)
  | imported (i : Import)
  /-- Nothing in the file, so a global name if anything. -/
  | outside
  deriving DecidableEq, Repr

/-- Whether an item can stand before a dot. -/
def Item.isQualifier : Item → Bool
  | .scope .. | .enumeration _ => true
  | .interface .. | .service _ => false

def Item.isType : Item → Bool
  | .interface .. | .enumeration _ | .service _ => true
  | .scope .. => false

/-- The innermost declaration of a name that can be seen from the scope `place`,
among items of one sort. -/
def Outline.innermost? (outline : Outline) (sort : Item → Bool) (place : List String)
    (name : String) : Option (List String) :=
  (place.inits.reverse.map (· ++ [name])).find? fun chain =>
    (Item.allNodes [] outline.items).any fun node => node.1 = chain && sort node.2

namespace Typings

/-- What a name before a dot is bound to, in the scope `place` of a file with a
package. -/
def qualifier (typings : Typings) (place : List String) (name : String) : Binding :=
  match typings.outline.innermost? Item.isQualifier place name with
  | some chain => .declared chain
  | none =>
    match (typings.outline.package.tail.zipIdx 1).reverse.find? (·.1 = name) with
    | some (_, position) => .package position
    | none =>
      match typings.imports.find? fun i => i.used && i.name = name with
      | some i => .imported i
      | none => if typings.outline.package.head? = some name then .package 0 else .outside

/-- What the name of a type is bound to, in the scope `place`. -/
def type (typings : Typings) (place : List String) (name : String) : Binding :=
  match typings.outline.innermost? Item.isType place name with
  | some chain => .declared chain
  | none => .outside

end Typings

theorem Outline.innermost?_eq_none_iff {outline : Outline} {sort : Item → Bool}
    {place : List String} {name : String} :
    outline.innermost? sort place name = none ↔
      ∀ outer, outer <+: place →
        ¬ ∃ item, (outer ++ [name], item) ∈ Item.allNodes [] outline.items ∧ sort item = true := by
  rw [innermost?, List.find?_eq_none]
  simp only [List.mem_map, List.mem_reverse, List.mem_inits, List.any_eq_true, Bool.and_eq_true,
    decide_eq_true_eq, Prod.exists]
  constructor
  · intro h outer houter hitem
    obtain ⟨item, hmem, hsort⟩ := hitem
    exact h (outer ++ [name]) ⟨outer, houter, rfl⟩ ⟨_, item, hmem, rfl, hsort⟩
  · intro h chain hchain hnode
    obtain ⟨outer, houter, rfl⟩ := hchain
    obtain ⟨_, item, hmem, rfl, hsort⟩ := hnode
    exact h outer houter ⟨item, hmem, hsort⟩

namespace Typings

variable {typings : Typings} {place : List String}

theorem find?_tail_eq_none_iff {name : String} :
    (typings.outline.package.tail.zipIdx 1).reverse.find? (·.1 = name) = none ↔
      name ∉ typings.outline.package.tail := by
  have hmem : name ∈ typings.outline.package.tail ↔
      ∃ segment ∈ typings.outline.package.tail.zipIdx 1, segment.1 = name := by
    rw [← List.mem_map, List.zipIdx_map_fst]
  rw [List.find?_eq_none, hmem]
  simp only [List.mem_reverse, decide_eq_true_eq, not_exists, not_and]

/-- A marked import is found unless something is found before it. -/
theorem qualifier_import_iff (hnames : (typings.imports.map (·.name)).Nodup) {i : Import}
    (hi : i ∈ typings.imports) (hused : i.used = true) :
    typings.qualifier place i.name = .imported i ↔
      typings.outline.innermost? Item.isQualifier place i.name = none ∧
        i.name ∉ typings.outline.package.tail := by
  have hfind : typings.imports.find? (fun j => j.used && j.name = i.name) = some i := by
    cases h : typings.imports.find? fun j => j.used && j.name = i.name with
    | none => simpa [hused] using List.find?_eq_none.1 h i hi
    | some j =>
      have hname : j.used = true ∧ j.name = i.name := by simpa using List.find?_some h
      rw [List.inj_on_of_nodup_map hnames (List.mem_of_find?_eq_some h) hi hname.2]
  rw [← find?_tail_eq_none_iff, qualifier]
  cases typings.outline.innermost? Item.isQualifier place i.name with
  | some chain => simp
  | none =>
    cases (typings.outline.package.tail.zipIdx 1).reverse.find? (·.1 = i.name) with
    | some found => simp
    | none => simp [hfind]

/-- The first segment of the package is found unless something is found before
it. -/
theorem qualifier_package_iff {first : String} {rest : List String}
    (hpackage : typings.outline.package = first :: rest)
    (himports : ∀ i ∈ typings.imports, i.name ≠ first) :
    typings.qualifier place first = .package 0 ↔
      typings.outline.innermost? Item.isQualifier place first = none ∧ first ∉ rest := by
  have hfind : typings.imports.find? (fun i => i.used && i.name = first) = none := by
    rw [List.find?_eq_none]
    intro i hi
    simp [himports i hi]
  have htail : typings.outline.package.tail = rest := by rw [hpackage]; rfl
  rw [← htail, ← find?_tail_eq_none_iff, qualifier]
  cases typings.outline.innermost? Item.isQualifier place first with
  | some chain => simp
  | none =>
    cases hsegment : (typings.outline.package.tail.zipIdx 1).reverse.find? (·.1 = first) with
    | some found =>
      -- a later segment is found at its own position, which is not that of the first
      have hposition : 1 ≤ found.2 :=
        List.le_snd_of_mem_zipIdx (List.mem_reverse.1 (List.mem_of_find?_eq_some hsegment))
      simp only [Binding.package.injEq, reduceCtorEq, and_false, iff_false]
      omega
    | none => simp [hfind, hpackage]

end Typings

/-! ## Types in the way -/

/-- A message with types inside or an enum of the file has the given name and
stands in a scope around `place`. -/
def File.Captures (file : File) (place : List String) (name : String) : Prop :=
  ∃ entry ∈ file.types, (entry.hasScope = true ∨ entry.kind = .enum) ∧
    ∃ outer, outer <+: place ∧ Dotted.segments entry.localName = outer ++ [name]

/-- A type of the file has the given name and stands in a scope around `place`. -/
def File.Hides (file : File) (place : List String) (name : String) : Prop :=
  ∃ entry ∈ file.types,
    ∃ outer, outer <+: place ∧ Dotted.segments entry.localName = outer ++ [name]

def ValueType.globals : ValueType → List String
  | .bytes => ["Uint8Array"]
  | .array element => "Array" :: element.globals
  | .map value => value.globals
  | .named _ | .number | .string | .boolean => []

def CallType.globals (call : CallType) : List String :=
  if call.asyncIterators && (call.streaming.fromClient || call.streaming.fromServer) then
    ["AsyncIterator"]
  else []

/-- The path `shown` is in the text of a type, in the scope `place`. -/
inductive Typings.Shows (typings : Typings) : List String → String → Prop
  | property {place : List String} {name : String} {leading : Option String}
      {properties : List Property} {property : Property} {shown : String} :
      (place ++ [name], .interface name leading properties) ∈
        Item.allNodes [] typings.outline.items →
      property ∈ properties → property.type.path? = some shown → Shows typings place shown
  | operation {place : List String} {service : ServiceTyping} {operation : Operation}
      {shown : String} :
      (place ++ [service.name], .service service) ∈ Item.allNodes [] typings.outline.items →
      operation ∈ service.operations →
      shown = operation.type.input ∨ shown = operation.type.output → Shows typings place shown

/-- A global name is in the text of a type, in the scope `place`. -/
inductive Typings.UsesGlobal (typings : Typings) : List String → String → Prop
  | property {place : List String} {name : String} {leading : Option String}
      {properties : List Property} {property : Property} {used : String} :
      (place ++ [name], .interface name leading properties) ∈
        Item.allNodes [] typings.outline.items →
      property ∈ properties → used ∈ property.type.globals → UsesGlobal typings place used
  | operation {place : List String} {service : ServiceTyping} {operation : Operation}
      {used : String} :
      (place ++ [service.name], .service service) ∈ Item.allNodes [] typings.outline.items →
      operation ∈ service.operations → used ∈ operation.type.globals →
      UsesGlobal typings place used

/-- What a path that is shown in the scope `place` begins with, in a file whose
package has the segments `first :: rest`. -/
inductive Typings.Head (catalog : Catalog) (file : File) (first : String) (rest : List String)
    (typings : Typings) (place : List String) : String → Prop
  /-- A type of the file, by its path inside the package. -/
  | relative {target : DeclaredType} : target ∈ catalog.types → target.file = file.path →
      Head catalog file first rest typings place target.localName
  /-- The package. -/
  | package {target : DeclaredType} : target ∈ catalog.types → target.file = file.path →
      (typings.qualifier place first = .package 0 ↔
        ¬ file.Captures place first ∧ first ∉ rest) →
      Head catalog file first rest typings place (target.package ++ "." ++ target.localName)
  /-- An import. -/
  | imported {target : DeclaredType} (i : Import) : target ∈ catalog.types →
      target.file ≠ file.path → i ∈ typings.imports → i.file = target.file → i.used = true →
      (typings.qualifier place i.name = .imported i ↔
        ¬ file.Captures place i.name ∧ i.name ∉ rest) →
      Head catalog file first rest typings place (i.name ++ "." ++ target.localName)

/-! ## Nodes and types -/

theorem Item.isQualifier_iff (item : Item) :
    item.isQualifier = true ↔ item.isScope = true ∨ item.kind? = some .enum := by
  cases item <;> simp [Item.isQualifier, Item.isScope, Item.kind?]

theorem Item.isType_iff (item : Item) :
    item.isType = true ↔ item.kind?.isSome = true ∨ ∃ service, item = .service service := by
  cases item <;> simp [Item.isType, Item.kind?]

namespace File.TypingRun

variable {settings : Settings} {file : File} {r mid last : Resolver} {typing : FileTyping}
  (run : file.TypingRun settings r mid last typing) (hnamed : file.WellNamed)
  (hnodup : (file.types.map (·.fullName)).Nodup)
include run hnamed hnodup

/-- What can stand before a dot under a chain: a message with types inside or an
enum. -/
theorem exists_qualifier_iff {chain : List String} :
    (∃ item, (chain, item) ∈ Item.allNodes [] typing.items ∧ item.isQualifier = true) ↔
      ∃ entry ∈ file.types, Dotted.segments entry.localName = chain ∧
        (entry.hasScope = true ∨ entry.kind = .enum) := by
  simp only [Item.isQualifier_iff, and_or_left, exists_or, ← run.exists_scope_iff hnamed hnodup,
    ← run.exists_kind_iff hnamed hnodup]

/-- The types under a chain that is not the place of a service. -/
theorem exists_type_iff {chain : List String}
    (hservices : ∀ service ∈ file.services, chain ≠ [service.name ++ "Service"]) :
    (∃ item, (chain, item) ∈ Item.allNodes [] typing.items ∧ item.isType = true) ↔
      ∃ entry ∈ file.types, Dotted.segments entry.localName = chain := by
  constructor
  · intro h
    obtain ⟨item, hnode, hitem⟩ := h
    obtain hkind | ⟨service, rfl⟩ := item.isType_iff.1 hitem
    · obtain ⟨entry, hentry, hshown⟩ := run.exists_shown hnamed hnodup hnode hkind
      exact ⟨entry, hentry, hshown.1.symm⟩
    · obtain ⟨source, hsource, hchain, -⟩ := run.service_shown hnamed hnodup hnode
      exact absurd hchain (hservices source hsource)
  · intro h
    obtain ⟨entry, hentry, hchain⟩ := h
    obtain ⟨item, hnode, hitem⟩ :=
      (run.exists_kind_iff hnamed hnodup).1 ⟨entry, hentry, hchain, rfl⟩
    exact ⟨item, hnode, item.isType_iff.2 (.inl (by simp [hitem]))⟩

theorem innermost?_qualifier_iff (package place : List String) (name : String) :
    (Outline.mk package typing.items).innermost? Item.isQualifier place name = none ↔
      ¬ file.Captures place name := by
  rw [Outline.innermost?_eq_none_iff]
  simp only [run.exists_qualifier_iff hnamed hnodup]
  constructor
  · intro h hcaptures
    obtain ⟨entry, hentry, hsort, outer, houter, hchain⟩ := hcaptures
    exact h outer houter ⟨entry, hentry, hchain, hsort⟩
  · intro h outer houter hentry
    obtain ⟨entry, hentry, hchain, hsort⟩ := hentry
    exact h ⟨entry, hentry, hsort, outer, houter, hchain⟩

theorem innermost?_type_iff (package place : List String) {name : String}
    (hservices : ∀ service ∈ file.services, name ≠ service.name ++ "Service") :
    (Outline.mk package typing.items).innermost? Item.isType place name = none ↔
      ¬ file.Hides place name := by
  have hchains (outer : List String) :
      ∀ service ∈ file.services, outer ++ [name] ≠ [service.name ++ "Service"] := by
    intro service hservice heq
    have hlast := congrArg List.getLast? heq
    simp only [List.getLast?_append, List.getLast?_singleton, Option.some_or,
      Option.some.injEq] at hlast
    exact hservices service hservice hlast
  rw [Outline.innermost?_eq_none_iff]
  simp only [run.exists_type_iff hnamed hnodup (hchains _)]
  constructor
  · intro h hhides
    obtain ⟨entry, hentry, outer, houter, hchain⟩ := hhides
    exact h outer houter ⟨entry, hentry, hchain⟩
  · intro h outer houter hentry
    obtain ⟨entry, hentry, hchain⟩ := hentry
    exact h ⟨entry, hentry, outer, houter, hchain⟩

/-- Every path that is shown was remembered for some reference. -/
theorem exists_pathOf? {typings : Typings} (hitems : typings.outline.items = typing.items)
    {place : List String} {shown : String} (h : typings.Shows place shown) :
    ∃ q, last.pathOf? q = some shown := by
  cases h with
  | property hnode hproperty hpath =>
    rw [hitems] at hnode
    obtain ⟨owner, -, m, -, -, hfields⟩ := run.interface_shown hnamed hnodup hnode
    obtain ⟨field, -, hrel⟩ := exists_left_of_forall₂ hfields _ hproperty
    rw [hpath] at hrel
    -- the field was answered before the services, and its answer is kept
    cases htext : field.typeReference? r.catalog ⟨owner.fullName, file.path⟩ with
    | none =>
      rw [htext] at hrel
      cases hrel
    | some text =>
      rw [htext] at hrel
      cases hrel with
      | some hmid => exact ⟨_, run.serviceRun.extends.pathOf? hmid⟩
  | operation hnode hoperation hshown =>
    rw [hitems] at hnode
    obtain ⟨source, -, -, hmethods⟩ := run.service_shown hnamed hnodup hnode
    obtain ⟨method, -, hinput, houtput⟩ := exists_left_of_forall₂ hmethods _ hoperation
    obtain rfl | rfl := hshown
    · exact ⟨_, hinput⟩
    · exact ⟨_, houtput⟩

end File.TypingRun

/-! ## Global names -/

theorem ValueType.mem_globals {type : ValueType} {used : String} (h : used ∈ type.globals) :
    used = "Array" ∨ used = "Uint8Array" := by
  induction type with
  | bytes => exact .inr (List.mem_singleton.1 h)
  | array element ih =>
    obtain rfl | h := List.mem_cons.1 h
    · exact .inl rfl
    · exact ih h
  | map value ih => exact ih h
  | named | number | string | boolean => cases h

theorem CallType.mem_globals {call : CallType} {used : String} (h : used ∈ call.globals) :
    used = "AsyncIterator" := by
  rw [globals] at h
  split at h
  · exact List.mem_singleton.1 h
  · cases h

/-- No global name ends like the name of a service. -/
theorem Typings.UsesGlobal.ne_service {typings : Typings} {place : List String} {used : String}
    (h : typings.UsesGlobal place used) (name : String) : used ≠ name ++ "Service" := by
  have hused : used = "Array" ∨ used = "Uint8Array" ∨ used = "AsyncIterator" := by
    cases h with
    | property _ _ hglobal =>
      obtain hglobal | hglobal := ValueType.mem_globals hglobal
      · exact .inl hglobal
      · exact .inr (.inl hglobal)
    | operation _ _ hglobal => exact .inr (.inr (CallType.mem_globals hglobal))
  intro heq
  have hends : used.toList.getLast? = some 'e' := by
    rw [heq, String.toList_append, List.getLast?_append]
    rfl
  obtain rfl | rfl | rfl := hused <;> cases hends

/-! ## The names at the top of a file -/

/-- No import has the name of the first segment of the package. -/
theorem File.TypingRun.name_ne_first {settings : Settings} {catalog : Catalog} {file : File}
    {mid last : Resolver} {typing : FileTyping} {path first : String} {rest : List String}
    (run : file.TypingRun settings (Resolver.ofFile catalog path) mid last typing)
    (hfile : catalog.file? path = some file) (hfirst : Dotted.IsSegment first)
    (hpackage : file.packageName = ".".intercalate (first :: rest)) :
    ∀ i ∈ last.imports.list, i.name ≠ first := by
  intro i hi heq
  have hreserved : last.imports.reserved = Resolver.reserved file := by
    rw [run.run.extends.reserved, Resolver.ofFile_eq hfile, Imports.reserved_addAll]
  have hmem : first ∈ last.imports.reserved := by
    rw [hreserved, Resolver.reserved, hpackage, Dotted.head_intercalate hfirst]
    simp [hfirst.1]
  exact run.sound.imports.not_reserved i hi (heq ▸ hmem)

/-- What a remembered path names, and how: a type of the same file by its path
with or without the package, or a type of an imported file. -/
theorem File.TypingRun.target_of_pathOf? {settings : Settings} {catalog : Catalog} {file : File}
    {mid last : Resolver} {typing : FileTyping} {path : String}
    (run : file.TypingRun settings (Resolver.ofFile catalog path) mid last typing) {q : Mention}
    {shown : String} (h : last.pathOf? q = some shown) :
    ∃ target ∈ catalog.types,
      (target.file = path ∧
        (shown = target.localName ∨ shown = target.package ++ "." ++ target.localName)) ∨
      target.file ≠ path ∧ ∃ i ∈ last.imports.list, i.file = target.file ∧ i.used = true ∧
        shown = i.name ++ "." ++ target.localName := by
  obtain ⟨reference, hknown, rfl⟩ := Resolver.exists_of_pathOf? h
  obtain ⟨q', target, -, -, htarget, hself⟩ := run.sound.known _ _ hknown
  have hlast : last.file = path := run.run.extends.file
  have hcatalog : last.catalog = catalog := run.run.extends.catalog
  rw [hcatalog] at htarget
  refine ⟨target, Catalog.mem_of_resolve? htarget, ?_⟩
  rw [← hlast]
  obtain ⟨hown, rfl⟩ | ⟨hother, i, hi, hifile, hused, rfl⟩ :=
    (Resolver.refer_eq_self_iff run.sound.imports).1 hself
  · refine .inl ⟨hown, ?_⟩
    show last.localPath target q'.scope = _ ∨ last.localPath target q'.scope = _
    rw [Resolver.localPath]
    split
    · exact .inr rfl
    · exact .inl rfl
  · exact .inr ⟨hother, i, hi, hifile, hused, rfl⟩

section bindings
variable {settings : Settings} {catalog : Catalog} {file : File} {mid last : Resolver}
  {typing : FileTyping} {path first : String} {package rest : List String}
  (run : file.TypingRun settings (Resolver.ofFile catalog path) mid last typing)
  (hnamed : file.WellNamed) (hnodup : (file.types.map (·.fullName)).Nodup) (place : List String)
include run hnamed hnodup

theorem File.TypingRun.qualifier_import {i : Import} (hi : i ∈ last.imports.list)
    (hused : i.used = true) :
    (Typings.mk last.imports.list ⟨first :: rest, typing.items⟩).qualifier place i.name =
        .imported i ↔
      ¬ file.Captures place i.name ∧ i.name ∉ rest := by
  rw [Typings.qualifier_import_iff run.sound.imports.names_nodup hi hused,
    run.innermost?_qualifier_iff hnamed hnodup]
  rfl

theorem File.TypingRun.qualifier_package (hfirst : ∀ i ∈ last.imports.list, i.name ≠ first) :
    (Typings.mk last.imports.list ⟨first :: rest, typing.items⟩).qualifier place first =
        .package 0 ↔
      ¬ file.Captures place first ∧ first ∉ rest := by
  rw [Typings.qualifier_package_iff rfl hfirst, run.innermost?_qualifier_iff hnamed hnodup]

theorem File.TypingRun.type_global {used : String}
    (hservices : ∀ service ∈ file.services, used ≠ service.name ++ "Service") :
    (Typings.mk last.imports.list ⟨package, typing.items⟩).type place used = .outside ↔
      ¬ file.Hides place used := by
  rw [← run.innermost?_type_iff hnamed hnodup package place hservices, Typings.type]
  cases (Outline.mk package typing.items).innermost? Item.isType place used with
  | none => simp
  | some chain => simp

end bindings

/-- What the names in the types of a declaration file are bound to, when the
package of the file has the segments `first :: rest`. -/
structure Typings.HeadsBound (catalog : Catalog) (file : File) (first : String)
    (rest : List String) (typings : Typings) : Prop where
  /-- At the top of the file every name is given once. -/
  names_nodup : (first :: typings.imports.map (·.name)).Nodup
  heads : ∀ place shown, typings.Shows place shown →
    typings.Head catalog file first rest place shown
  globals : ∀ place used, typings.UsesGlobal place used →
    (typings.type place used = .outside ↔ ¬ file.Hides place used)

/-- **What was meant, unless something is in the way.** A path through an import
is bound to that import exactly when no message with types inside, no enum and
no later segment of the package has the import's name. A path from the package
is bound to the package under the same condition on its first segment, and a
global name is bound to nothing in the file exactly when no type has that name. -/
theorem Catalog.heads_bound {files : List File} {catalog : Catalog} {settings : Settings}
    {path : String} {typings : Typings} {file : File} {first : String} {rest : List String}
    (hfiles : Catalog.ofFiles files = .ok catalog)
    (h : catalog.typings settings path = .ok typings) (hfile : catalog.file? path = some file)
    (hnamed : file.WellNamed) (hsegments : ∀ segment ∈ first :: rest, Dotted.IsSegment segment)
    (hpackage : file.packageName = ".".intercalate (first :: rest)) :
    typings.HeadsBound catalog file first rest := by
  obtain ⟨_, typing, mid, last, hfile', run, rfl⟩ := Catalog.typings_eq_ok h
  obtain rfl := Option.some.inj (hfile.symm.trans hfile')
  obtain ⟨hmem, rfl⟩ := Catalog.file?_eq_some hfiles hfile
  have hnodup := Catalog.fullNames_nodup_of_file hfiles hmem
  have hfirst := run.name_ne_first hfile (hsegments first List.mem_cons_self) hpackage
  have hsplit : Text.splitNonempty '.' file.packageName = first :: rest := by
    rw [hpackage]
    exact Dotted.segments_intercalate hsegments
  rw [hsplit]
  constructor
  · rw [List.nodup_cons, List.mem_map]
    refine ⟨fun hname => ?_, run.sound.imports.names_nodup⟩
    obtain ⟨i, hi, heq⟩ := hname
    exact hfirst i hi heq
  · intro place shown hshown
    obtain ⟨q, hq⟩ := run.exists_pathOf? hnamed hnodup rfl hshown
    obtain ⟨target, htarget, hcase⟩ := run.target_of_pathOf? hq
    obtain ⟨hown, hpath⟩ | ⟨hother, i, hi, hifile, hused, hpath⟩ := hcase
    · obtain hpath | hpath := hpath
      · exact hpath ▸ .relative htarget hown
      · exact hpath ▸ .package htarget hown (run.qualifier_package hnamed hnodup place hfirst)
    · exact hpath ▸ .imported i htarget hother hi hifile hused
        (run.qualifier_import hnamed hnodup place hi hused)
  · intro place used hused
    exact run.type_global hnamed hnodup place fun service _ => hused.ne_service service.name

theorem Catalog.heads_bound_shop :
    ∃ typings, Sample.catalog.typings {} "shop.proto" = .ok typings ∧
      typings.HeadsBound Sample.catalog Sample.shop "shop" [] := by
  obtain ⟨typings, h⟩ := Sample.exists_typings
  exact ⟨typings, h, Catalog.heads_bound Sample.ofFiles_eq h rfl (by decide) (by decide) rfl⟩

namespace Sample

def status : File where
  name := some "Status.proto"
  package := some "dep"
  messages := [{ name := "Detail" }]

/-- A file with an enum that has the name of an import. -/
def main : File where
  name := some "main.proto"
  package := some "pkg"
  dependencies := ["Status.proto"]
  enums := [{ name := "Status", values := [{ name := "A", number := some 0 }] }]
  messages :=
    [{ name := "Main"
       fields :=
        [{ name := "d", number := some 1, typeCode := some 11, typeName := ".dep.Detail" }] }]

def mainTypings : Typings where
  imports := [{ name := "Status", file := "Status.proto", specifier := "Status", used := true }]
  outline :=
    { package := ["pkg"]
      items :=
        [.enumeration
          { name := "Status", fullName := "pkg.Status"
            enumerators := [{ name := "A", number := 0 }] },
         .interface "Main" none [{ name := "d", type := .named "Status.Detail" }]] }

end Sample

/-- **An import can be captured.** The enum `Status` is in the way of the import
`Status`, so the path `Status.Detail` begins with the enum. -/
theorem Catalog.import_captured :
    ∃ catalog, Catalog.ofFiles [Sample.status, Sample.main] = .ok catalog ∧
      catalog.typings {} "main.proto" = .ok Sample.mainTypings ∧
      ∃ i ∈ Sample.mainTypings.imports, i.file = "Status.proto" ∧ i.used = true ∧
        Sample.mainTypings.Shows [] (i.name ++ ".Detail") ∧ Sample.main.Captures [] i.name ∧
        Sample.mainTypings.qualifier [] i.name = .declared ["Status"] := by
  refine ⟨_, rfl, rfl, _, List.mem_singleton_self _, rfl, rfl, ?_, ?_, by decide⟩
  · exact .property (List.mem_cons_of_mem _ List.mem_cons_self) (List.mem_singleton_self _) rfl
  · exact ⟨_, List.mem_cons_of_mem _ List.mem_cons_self, .inr rfl, [], List.prefix_rfl, by decide⟩

end ProtoTypings
