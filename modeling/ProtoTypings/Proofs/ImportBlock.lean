import ProtoTypings.Proofs.TypingRun
/-!
# The imports of a declaration file

The imports of a declaration file are accumulated while the file is typed, and
answers that are remembered leave the table alone. Both the list and its marks
can nevertheless be read off the descriptors.

* `File.importedFiles`: the dependencies of a file, then the other files that
  its mentions lead to, each once and in the order of first need.
* `Catalog.imports_exact`: these are the imports, and the marked ones are those
  that a mention leads to.
-/
namespace ProtoTypings

/-- The files that a declaration file has to import: the dependencies of its
source, then the other files that declare the target of a mention. -/
def File.importedFiles (catalog : Catalog) (file : File) : List String :=
  file.dependencies.eraseDups ++
    ((Resolver.visited catalog file.path (file.mentions catalog)).filter
      (· ∉ file.dependencies)).eraseDups

/-- The table that the resolver of a file starts with. -/
theorem Resolver.files_ofFile {catalog : Catalog} {path : String} {file : File}
    (h : catalog.file? path = some file) :
    (Resolver.ofFile catalog path).imports.files = file.dependencies.eraseDups ∧
      ∀ i ∈ (Resolver.ofFile catalog path).imports.list, i.used = false := by
  rw [Resolver.ofFile_eq h]
  refine ⟨?_, Imports.used_addAll (List.forall_mem_nil _) _⟩
  rw [Imports.files_addAll]
  simp [Imports.files]

/-- A file is visited exactly when it is another file and declares the target of
a mention. -/
theorem Resolver.mem_visited {catalog : Catalog} {path file : String} {qs : List Mention} :
    file ∈ Resolver.visited catalog path qs ↔
      file ≠ path ∧ ∃ q ∈ qs, ∃ entry, q.target? catalog = some entry ∧ entry.file = file := by
  simp only [Resolver.visited, List.mem_filter, List.mem_filterMap, Option.map_eq_some_iff,
    decide_eq_true_eq]
  exact and_comm

/-- **The import block is exact.** In a catalog of names without NUL, every
mention of a file means something. The imports of its declaration file are the
dependencies and the other files of targets, in the order of first need. They
are marked exactly when they are other files that declare a target. -/
theorem Catalog.imports_exact {files : List File} {catalog : Catalog} {settings : Settings}
    {path : String} {typings : Typings} (hfiles : Catalog.ofFiles files = .ok catalog)
    (hnul : ∀ file ∈ files, file.NulFree)
    (hservices : ∀ file ∈ files, ∀ service ∈ file.services, Text.NulFree service.name)
    (h : catalog.typings settings path = .ok typings) :
    ∃ file, catalog.file? path = some file ∧
      (∀ q ∈ file.mentions catalog, ∃ entry, q.target? catalog = some entry) ∧
      typings.imports.map (·.file) = file.importedFiles catalog ∧
      ∀ i ∈ typings.imports, i.used = true ↔
        i.file ≠ path ∧ ∃ q ∈ file.mentions catalog, ∃ entry,
          q.target? catalog = some entry ∧ entry.file = i.file := by
  obtain ⟨file, typing, mid, last, hfile, run, rfl⟩ := Catalog.typings_eq_ok h
  obtain ⟨hmem, hpath⟩ := Catalog.file?_eq_some hfiles hfile
  have hsound := Resolver.sound_ofFile Text.NulFree catalog path
  obtain ⟨hstart, hunmarked⟩ := Resolver.files_ofFile hfile
  obtain ⟨himports, htargets⟩ := run.run.imports_eq hsound
    (Resolver.nulFreeCatalog_of_files hfiles hnul)
    (File.nulFree_of_mem_mentions (hnul file hmem) (hservices file hmem))
  refine ⟨file, hfile, htargets, ?_, ?_⟩
  · show last.imports.files = _
    rw [himports, Imports.files_visitAll, hstart, File.importedFiles, hpath]
    simp only [List.mem_eraseDups]
    rfl
  · intro i hi
    rw [himports] at hi
    rw [Imports.used_visitAll hsound.imports _ i hi, Resolver.mem_visited]
    -- nothing is marked at the start, so a mark comes from a visit
    refine or_iff_left ?_
    intro hmarked
    obtain ⟨j, hj, -, hused⟩ := hmarked
    rw [hunmarked j hj] at hused
    cases hused

theorem Catalog.imports_exact_shop :
    ∃ typings, Sample.catalog.typings {} "shop.proto" = .ok typings ∧
      ∃ file, Sample.catalog.file? "shop.proto" = some file ∧
        (∀ q ∈ file.mentions Sample.catalog, ∃ entry, q.target? Sample.catalog = some entry) ∧
        typings.imports.map (·.file) = file.importedFiles Sample.catalog ∧
        ∀ i ∈ typings.imports, i.used = true ↔
          i.file ≠ "shop.proto" ∧ ∃ q ∈ file.mentions Sample.catalog, ∃ entry,
            q.target? Sample.catalog = some entry ∧ entry.file = i.file := by
  obtain ⟨typings, h⟩ := Sample.exists_typings
  exact ⟨typings, h,
    Catalog.imports_exact Sample.ofFiles_eq (by decide) (by decide) h⟩

example : Sample.shop.importedFiles Sample.catalog = ["lib/units.proto", "lib/base.proto"] := by
  decide

end ProtoTypings
