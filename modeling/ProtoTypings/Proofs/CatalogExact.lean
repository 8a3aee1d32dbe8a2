import ProtoTypings.Proofs.CatalogLookup
/-!
# Catalogs are exact

A catalog is made of the declarations of its files, at every depth, or it is not
made at all and the fault says what came first.

**Declarations.** `file.Declares path definition`: the file declares a message or an
enum under the names of `path`, those of the messages around it and its own. The
relation knows no order. `file.declarations` lists the same in the order in which they
are met: messages before enums, and a message before the messages inside it, which
come before its enums.

**Entries.** A declaration has a local name, which is its path written with dots, and a
full name, which is the same after the package. `entry.Carries d`: the entry holds both,
with the file, the package and the definition.

**Outcomes.** `catalog.Exact files` says what is found in a catalog, and
`Catalog.FirstFault files fault` what is reported when none is made. A missing import
comes before a repeated name, and of each the first counts.

**Results.**
* `File.types_eq_map`: the types of a file are its declarations, in their order.
* `File.mem_declarations_iff_declares`: all declarations of a file are listed.
* `Declaration.carries_iff`: each has one entry, the one that the catalog makes.
* `Catalog.findSome?_missingImport?`, `Catalog.repeated?_eq_some`: the faults are
  those of the first missing import and of the first repeated name.
* `Catalog.ofFiles_exact`: what comes of any list of files.
-/
namespace ProtoTypings

/-! ## Declarations of a file -/

/-- The file declares `definition` under the names of `path`. -/
inductive File.Declares (file : File) : List String → Definition → Prop
  | message {m : Message} : m ∈ file.messages → Declares file [m.name] (.message m)
  | enum {e : EnumType} : e ∈ file.enums → Declares file [e.name] (.enum e)
  | nestedMessage {path : List String} {m n : Message} : Declares file path (.message m) →
      n ∈ m.nested → Declares file (path ++ [n.name]) (.message n)
  | nestedEnum {path : List String} {m : Message} {e : EnumType} :
      Declares file path (.message m) → e ∈ m.enums → Declares file (path ++ [e.name]) (.enum e)

/-- The entry of what a file declares under a path. -/
def File.entry (file : File) (path : List String) (definition : Definition) : DeclaredType :=
  .ofLocal file.path file.packageName (Dotted.ofSegments path) definition

theorem File.entry_enum (file : File) (path : List String) (e : EnumType) :
    file.entry (path ++ [e.name]) (.enum e) =
      e.declared file.path file.packageName (Dotted.ofSegments path) := by
  rw [File.entry, Dotted.ofSegments_append, EnumType.declared]

mutual

/-- What a message declares, each under its path: itself, then what the messages
inside it declare, then its enums. -/
def Message.declarations (outer : List String) : Message → List (List String × Definition)
  | .mk name fields nested enums isMapEntry =>
    (outer ++ [name], .message (.mk name fields nested enums isMapEntry)) ::
      (Message.allDeclarations (outer ++ [name]) nested ++
        enums.map fun e => (outer ++ [name] ++ [e.name], .enum e))

def Message.allDeclarations (outer : List String) : List Message → List (List String × Definition)
  | [] => []
  | m :: ms => m.declarations outer ++ Message.allDeclarations outer ms

end

/-- What a file declares, each under its path: messages before enums. -/
def File.declarations (file : File) : List (List String × Definition) :=
  Message.allDeclarations [] file.messages ++ file.enums.map fun e => ([e.name], .enum e)

theorem Message.allDeclarations_eq_flatMap (outer : List String) (ms : List Message) :
    allDeclarations outer ms = ms.flatMap (declarations outer) := by
  induction ms with
  | nil => rfl
  | cons m ms ih => rw [allDeclarations, ih, List.flatMap_cons]

theorem Message.declarations_eq (outer : List String) (m : Message) :
    m.declarations outer =
      (outer ++ [m.name], .message m) ::
        (m.nested.flatMap (declarations (outer ++ [m.name])) ++
          m.enums.map fun e => (outer ++ [m.name] ++ [e.name], .enum e)) := by
  obtain ⟨name, fields, nested, enums, isMapEntry⟩ := m
  rw [declarations, allDeclarations_eq_flatMap]

theorem Message.mem_declarations {outer path : List String} {definition : Definition}
    {m : Message} :
    (path, definition) ∈ m.declarations outer ↔
      (path = outer ++ [m.name] ∧ definition = .message m) ∨
        (∃ n ∈ m.nested, (path, definition) ∈ n.declarations (outer ++ [m.name])) ∨
        ∃ e ∈ m.enums, path = outer ++ [m.name] ++ [e.name] ∧ definition = .enum e := by
  rw [Message.declarations_eq]
  simp only [List.mem_cons, List.mem_append, List.mem_flatMap, List.mem_map, Prod.mk.injEq,
    eq_comm]

theorem File.mem_declarations {file : File} {path : List String} {definition : Definition} :
    (path, definition) ∈ file.declarations ↔
      (∃ m ∈ file.messages, (path, definition) ∈ m.declarations []) ∨
        ∃ e ∈ file.enums, path = [e.name] ∧ definition = .enum e := by
  rw [File.declarations, Message.allDeclarations_eq_flatMap]
  simp only [List.mem_append, List.mem_flatMap, List.mem_map, Prod.mk.injEq, eq_comm]

/-! ## Order of declarations -/

theorem Message.types_eq_map (file : File) (m : Message) :
    ∀ outer, m.types file.path file.packageName (Dotted.ofSegments outer) =
      (m.declarations outer).map fun d => file.entry d.1 d.2 := by
  induction m using Message.nested_induction with
  | step m ih =>
    intro outer
    have hnested : m.nested.flatMap (Message.types file.path file.packageName
        (Dotted.ofSegments (outer ++ [m.name]))) =
        (m.nested.flatMap (declarations (outer ++ [m.name]))).map
          fun d => file.entry d.1 d.2 := by
      rw [List.map_flatMap]
      exact List.flatMap_congr fun n hn => ih n hn _
    rw [Message.types_eq, ← Dotted.ofSegments_append, hnested, Message.declarations_eq,
      List.map_cons, List.map_append, List.map_map]
    simp only [Function.comp_def, file.entry_enum]
    rfl

/-- **The types of a file** are its declarations, in their order. -/
theorem File.types_eq_map (file : File) :
    file.types = file.declarations.map fun d => file.entry d.1 d.2 := by
  have hmessages : file.messages.flatMap (Message.types file.path file.packageName "") =
      (file.messages.flatMap (Message.declarations [])).map fun d => file.entry d.1 d.2 := by
    rw [List.map_flatMap]
    exact List.flatMap_congr fun m _ => m.types_eq_map file []
  have henums (e : EnumType) : file.entry [e.name] (.enum e) =
      e.declared file.path file.packageName "" := file.entry_enum [] e
  rw [File.types_eq, hmessages, File.declarations, Message.allDeclarations_eq_flatMap,
    List.map_append, List.map_map]
  simp only [Function.comp_def, henums]

/-! ## All declarations -/

/-- What a message lists is declared wherever the message is. -/
theorem File.Declares.of_mem_declarations {file : File} (m : Message) :
    ∀ outer, file.Declares (outer ++ [m.name]) (.message m) →
      ∀ path definition, (path, definition) ∈ m.declarations outer →
        file.Declares path definition := by
  induction m using Message.nested_induction with
  | step m ih =>
    intro outer hdeclares path definition hmem
    obtain ⟨rfl, rfl⟩ | ⟨n, hn, hmem⟩ | ⟨e, he, rfl, rfl⟩ := Message.mem_declarations.1 hmem
    · exact hdeclares
    · exact ih n hn _ (hdeclares.nestedMessage hn) path definition hmem
    · exact hdeclares.nestedEnum he

/-- A message lists with every message what is right inside it. -/
theorem Message.mem_declarations_inside (m : Message) :
    ∀ outer path k, (path, .message k) ∈ m.declarations outer →
      (∀ n ∈ k.nested, (path ++ [n.name], .message n) ∈ m.declarations outer) ∧
        ∀ e ∈ k.enums, (path ++ [e.name], .enum e) ∈ m.declarations outer := by
  induction m using Message.nested_induction with
  | step m ih =>
    intro outer path k hmem
    obtain ⟨rfl, hk⟩ | ⟨n, hn, hmem⟩ | ⟨e, -, -, hk⟩ := Message.mem_declarations.1 hmem
    · cases hk
      refine ⟨fun n hn => ?_, fun e he => ?_⟩
      · refine Message.mem_declarations.2 (.inr (.inl ⟨n, hn, ?_⟩))
        exact Message.mem_declarations.2 (.inl ⟨rfl, rfl⟩)
      · exact Message.mem_declarations.2 (.inr (.inr ⟨e, he, rfl, rfl⟩))
    · obtain ⟨hmessages, henums⟩ := ih n hn _ path k hmem
      exact ⟨fun n' hn' => Message.mem_declarations.2 (.inr (.inl ⟨n, hn, hmessages n' hn'⟩)),
        fun e he => Message.mem_declarations.2 (.inr (.inl ⟨n, hn, henums e he⟩))⟩
    · cases hk

theorem File.mem_declarations_inside {file : File} {path : List String} {k : Message}
    (h : (path, .message k) ∈ file.declarations) :
    (∀ n ∈ k.nested, (path ++ [n.name], .message n) ∈ file.declarations) ∧
      ∀ e ∈ k.enums, (path ++ [e.name], .enum e) ∈ file.declarations := by
  obtain ⟨m, hm, hmem⟩ | ⟨e, -, -, hk⟩ := File.mem_declarations.1 h
  · obtain ⟨hmessages, henums⟩ := m.mem_declarations_inside [] path k hmem
    exact ⟨fun n hn => File.mem_declarations.2 (.inl ⟨m, hm, hmessages n hn⟩),
      fun e he => File.mem_declarations.2 (.inl ⟨m, hm, henums e he⟩)⟩
  · cases hk

/-- **All declarations** of a file are listed, and nothing else is. -/
theorem File.mem_declarations_iff_declares {file : File} {path : List String}
    {definition : Definition} :
    (path, definition) ∈ file.declarations ↔ file.Declares path definition := by
  constructor
  · intro h
    obtain ⟨m, hm, hmem⟩ | ⟨e, he, rfl, rfl⟩ := File.mem_declarations.1 h
    · exact File.Declares.of_mem_declarations m [] (.message hm) path definition hmem
    · exact .enum he
  · intro h
    induction h with
    | message hm =>
      exact File.mem_declarations.2 (.inl ⟨_, hm, Message.mem_declarations.2 (.inl ⟨rfl, rfl⟩)⟩)
    | enum he => exact File.mem_declarations.2 (.inr ⟨_, he, rfl, rfl⟩)
    | nestedMessage _ hn ih => exact (File.mem_declarations_inside ih).1 _ hn
    | nestedEnum _ he ih => exact (File.mem_declarations_inside ih).2 _ he

theorem File.mem_types_iff_declares {file : File} {entry : DeclaredType} :
    entry ∈ file.types ↔
      ∃ path definition, file.Declares path definition ∧ entry = file.entry path definition := by
  rw [File.types_eq_map, List.mem_map]
  simp only [Prod.exists, File.mem_declarations_iff_declares, eq_comm]

/-! ## Entries of declarations -/

/-- A message or an enum of a file, under the names of its path. -/
structure Declaration where
  file : File
  path : List String
  definition : Definition

namespace Declaration

/-- The names of the path with dots between them. Empty ones at its front leave none. -/
def localName (d : Declaration) : String :=
  ".".intercalate (d.path.dropWhile (· = ""))

/-- The package and the local name with a dot between them, or the local name alone where
there is no package. -/
def fullName (d : Declaration) : String :=
  if d.file.packageName = "" then d.localName else d.file.packageName ++ "." ++ d.localName

def entry (d : Declaration) : DeclaredType :=
  d.file.entry d.path d.definition

end Declaration

/-- The entry carries all that is known of a declaration. -/
structure DeclaredType.Carries (entry : DeclaredType) (d : Declaration) : Prop where
  fullName : entry.fullName = d.fullName
  file : entry.file = d.file.path
  package : entry.package = d.file.packageName
  localName : entry.localName = d.localName
  definition : entry.definition = d.definition

namespace Declaration

theorem localName_entry (d : Declaration) : d.entry.localName = d.localName :=
  Dotted.ofSegments_eq_intercalate d.path

theorem fullName_entry (d : Declaration) : d.entry.fullName = d.fullName := by
  rw [fullName, ← d.localName_entry]
  rfl

/-- A declaration has one entry. -/
theorem carries_iff {d : Declaration} {entry : DeclaredType} :
    entry.Carries d ↔ entry = d.entry := by
  constructor
  · intro h
    obtain ⟨fullName, reversedName, reversedName_eq, file, package, localName, definition⟩ := entry
    obtain ⟨hfull, hfile, hpackage, hlocal, hdefinition⟩ := h
    rw [← d.fullName_entry] at hfull
    rw [← d.localName_entry] at hlocal
    cases hfull
    cases hfile
    cases hpackage
    cases hlocal
    cases hdefinition
    cases reversedName_eq
    rfl
  · rintro rfl
    exact ⟨d.fullName_entry, rfl, rfl, d.localName_entry, rfl⟩

end Declaration

/-! ## First faults -/

namespace Catalog

/-- The path is that of one of the files. -/
def Present (files : List File) (path : String) : Prop := ∃ file ∈ files, file.path = path

def declarations (files : List File) : List Declaration :=
  files.flatMap fun file => file.declarations.map fun d => ⟨file, d.1, d.2⟩

theorem mem_declarations_iff {files : List File} {d : Declaration} :
    d ∈ declarations files ↔ d.file ∈ files ∧ d.file.Declares d.path d.definition := by
  obtain ⟨file, path, definition⟩ := d
  simp [declarations, ← File.mem_declarations_iff_declares]

theorem flatMap_types_eq (files : List File) :
    files.flatMap File.types = (declarations files).map Declaration.entry := by
  rw [declarations, List.map_flatMap]
  refine List.flatMap_congr fun file _ => ?_
  rw [File.types_eq_map, List.map_map]
  rfl

theorem map_fullName_types (files : List File) :
    (files.flatMap File.types).map (·.fullName) = (declarations files).map (·.fullName) := by
  rw [flatMap_types_eq, List.map_map]
  exact List.map_congr_left fun d _ => d.fullName_entry

theorem missingImport?_eq_some {files : List File} {file : File} {fault : Fault}
    (h : missingImport? files file = some fault) :
    ∃ before dependency after, file.dependencies = before ++ dependency :: after ∧
      (∀ d ∈ before, Present files d) ∧ ¬ Present files dependency ∧
      fault = .unknownImport file.path dependency := by
  obtain ⟨dependency, hfound, rfl⟩ := Option.map_eq_some_iff.1 h
  obtain ⟨hmissing, before, after, hsplit, hbefore⟩ := List.find?_eq_some_iff_append.1 hfound
  refine ⟨before, dependency, after, hsplit, fun d hd => ?_, ?_, rfl⟩
  · simpa [Present] using hbefore d hd
  · simpa [Present] using hmissing

/-- The fault for imports is that of the first missing one, in the order of files
and of their dependencies. -/
theorem findSome?_missingImport? {files : List File} {fault : Fault}
    (h : files.findSome? (missingImport? files) = some fault) :
    ∃ before file after, files = before ++ file :: after ∧
      (∀ f ∈ before, ∀ d ∈ f.dependencies, Present files d) ∧
      missingImport? files file = some fault := by
  obtain ⟨before, file, after, hsplit, hfault, hbefore⟩ := List.findSome?_eq_some_iff.1 h
  exact ⟨before, file, after, hsplit, fun f hf => missingImport?_eq_none_iff.1 (hbefore f hf),
    hfault⟩

/-- The fault for names is that of the first entry whose full name one before it
has. -/
theorem repeated?_eq_some {met types : List DeclaredType} {fault : Fault}
    (h : repeated? met types = some fault) (hmet : (met.map (·.fullName)).Nodup) :
    ∃ before entry after, types = before ++ entry :: after ∧
      ((met ++ before).map (·.fullName)).Nodup ∧
      ∃ first ∈ met ++ before, first.fullName = entry.fullName ∧
        fault = .duplicateTypeName entry.fullName first.file entry.file := by
  induction types generalizing met with
  | nil => cases h
  | cons entry rest ih =>
    rw [repeated?] at h
    cases hfound : met.find? (·.fullName = entry.fullName) with
    | some first =>
      rw [hfound] at h
      cases h
      refine ⟨[], entry, rest, rfl, by simpa using hmet, first, ?_, ?_, rfl⟩
      · simpa using List.mem_of_find?_eq_some hfound
      · simpa using List.find?_some hfound
    | none =>
      rw [hfound] at h
      have hnew : ((met ++ [entry]).map (·.fullName)).Nodup := by
        rw [List.map_append, List.map_singleton, List.nodup_append_comm, List.singleton_append,
          List.nodup_cons]
        refine ⟨fun hmem => ?_, hmet⟩
        obtain ⟨first, hfirst, heq⟩ := List.mem_map.1 hmem
        simpa [heq] using List.find?_eq_none.1 hfound first hfirst
      obtain ⟨before, other, after, rfl, hnodup, hfirst⟩ := ih h hnew
      rw [List.append_assoc, List.singleton_append] at hnodup hfirst
      exact ⟨entry :: before, other, after, rfl, hnodup, hfirst⟩

/-! ## Outcomes -/

/-- A catalog that holds what the files declare, and no more. -/
structure Exact (files : List File) (catalog : Catalog) : Prop where
  /-- A name without a leading dot is that of a declaration, or is not found. -/
  get? : ∀ name, name.toList.head? ≠ some '.' → ∀ entry,
    catalog.get? name = some entry ↔
      ∃ d ∈ declarations files, d.fullName = name ∧ entry.Carries d
  length : catalog.types.length = (declarations files).length
  /-- The first file of a path is found. -/
  file? : ∀ path file, catalog.file? path = some file ↔
    file.path = path ∧ ∃ before after, files = before ++ file :: after ∧
      ∀ f ∈ before, f.path ≠ path

/-- The fault that is to be reported for a list of files. -/
inductive FirstFault (files : List File) : Fault → Prop
  /-- The first import that is missing. -/
  | missing {before after : List File} {file : File} {first rest : List String}
      {dependency : String} :
      files = before ++ file :: after →
      (∀ f ∈ before, ∀ d ∈ f.dependencies, Present files d) →
      file.dependencies = first ++ dependency :: rest → (∀ d ∈ first, Present files d) →
      ¬ Present files dependency → FirstFault files (.unknownImport file.path dependency)
  /-- All imports are there; the first declaration whose full name was met before. -/
  | repeated {before after : List Declaration} {first second : Declaration} :
      (∀ file ∈ files, ∀ d ∈ file.dependencies, Present files d) →
      declarations files = before ++ second :: after → (before.map (·.fullName)).Nodup →
      first ∈ before → first.fullName = second.fullName →
      FirstFault files (.duplicateTypeName second.fullName first.file.path second.file.path)

theorem exact_of_ofFiles {files : List File} {catalog : Catalog}
    (h : ofFiles files = .ok catalog) : catalog.Exact files where
  get? name hname entry := by
    have hrooted : Dotted.isRooted name = false := decide_eq_false hname
    have htypes : catalog.types = (declarations files).map Declaration.entry := by
      rw [types_of_ofFiles h, flatMap_types_eq]
    rw [Catalog.get?, Dotted.unrooted_of_not_isRooted hrooted]
    constructor
    · intro hfound
      obtain ⟨hmem, rfl⟩ := mem_of_type? hfound
      rw [htypes, List.mem_map] at hmem
      obtain ⟨d, hd, rfl⟩ := hmem
      exact ⟨d, hd, d.fullName_entry.symm, Declaration.carries_iff.2 rfl⟩
    · rintro ⟨d, hd, rfl, hcarries⟩
      obtain rfl := Declaration.carries_iff.1 hcarries
      rw [← d.fullName_entry]
      exact type?_of_mem h (htypes ▸ List.mem_map_of_mem hd)
  length := by rw [types_of_ofFiles h, flatMap_types_eq, List.length_map]
  file? path file := by
    rw [Catalog.file?, files_of_ofFiles h, List.find?_eq_some_iff_append]
    simp

theorem firstFault_of_ofFiles {files : List File} {fault : Fault}
    (h : ofFiles files = .error fault) : FirstFault files fault := by
  rw [ofFiles] at h
  cases hmissing : files.findSome? (missingImport? files) with
  | some missing =>
    rw [hmissing] at h
    cases h
    obtain ⟨before, file, after, hsplit, hbefore, hfault⟩ := findSome?_missingImport? hmissing
    obtain ⟨first, dependency, rest, hdependencies, hfirst, hnone, rfl⟩ :=
      missingImport?_eq_some hfault
    exact .missing hsplit hbefore hdependencies hfirst hnone
  | none =>
    have himports : ∀ file ∈ files, ∀ d ∈ file.dependencies, Present files d := fun file hfile =>
      missingImport?_eq_none_iff.1 (List.findSome?_eq_none_iff.1 hmissing file hfile)
    cases hrepeated : repeated? [] (files.flatMap File.types) with
    | none => simp [hmissing, hrepeated] at h
    | some repeated =>
      simp only [hmissing, hrepeated, Except.error.injEq] at h
      obtain ⟨before, entry, after, hsplit, hnodup, first, hfirst, hfull, rfl⟩ :=
        repeated?_eq_some hrepeated List.nodup_nil
      subst h
      rw [flatMap_types_eq, List.map_eq_append_iff] at hsplit
      obtain ⟨before, rest, hsplit, rfl, hrest⟩ := hsplit
      obtain ⟨second, after, rfl, rfl, rfl⟩ := List.map_eq_cons_iff.1 hrest
      rw [List.nil_append] at hnodup hfirst
      obtain ⟨first, hbefore, rfl⟩ := List.mem_map.1 hfirst
      rw [List.map_map] at hnodup
      simp only [Function.comp_def, Declaration.fullName_entry] at hnodup hfull ⊢
      exact .repeated himports hsplit hnodup hbefore hfull

/-- **What comes of files.** A catalog is made exactly if all imports are there and
all declarations have different full names. It then holds the declarations and
nothing else; otherwise the fault is that of the first missing import, or else of
the first repeated name. -/
theorem ofFiles_exact (files : List File) :
    ((∃ catalog, ofFiles files = .ok catalog) ↔
      (∀ file ∈ files, ∀ d ∈ file.dependencies, Present files d) ∧
        ((declarations files).map (·.fullName)).Nodup) ∧
    (∀ d, d ∈ declarations files ↔ d.file ∈ files ∧ d.file.Declares d.path d.definition) ∧
    match ofFiles files with
    | .ok catalog => catalog.Exact files
    | .error fault => FirstFault files fault := by
  refine ⟨?_, fun _ => mem_declarations_iff, ?_⟩
  · simp only [ofFiles_eq_ok_iff, exists_and_left, exists_eq, and_true, map_fullName_types]
    rfl
  · cases h : ofFiles files with
    | ok catalog => exact exact_of_ofFiles h
    | error fault => exact firstFault_of_ofFiles h

-- a message inside a message meets the message of another package
example :
    let inner : File :=
      { name := some "inner.proto", package := some "a"
        messages := [{ name := "B", nested := [{ name := "C" }], enums := [{ name := "E" }] }] }
    let outer : File :=
      { name := some "outer.proto", package := some "a.B", messages := [{ name := "C" }] }
    (declarations [inner, outer]).map (·.fullName) = ["a.B", "a.B.C", "a.B.E", "a.B.C"] ∧
      ofFiles [inner, outer] =
        .error (.duplicateTypeName "a.B.C" "inner.proto" "outer.proto") :=
  ⟨rfl, rfl⟩

end Catalog
end ProtoTypings
