import ProtoTypings.Proofs.DeclaredTypes
/-!
# Looking things up in a catalog

* `ofFiles_eq_ok_iff`: a catalog is made exactly of files that have all their
  imports among them and no full name twice.
* `type?_of_mem`, `file?_of_mem`: a type is found under its full name and a file
  under its path.
* `mem_of_resolve?`: what a reference means is a type of the catalog.
* `resolve?_empty`: a reference without a text means nothing.
* `nulFree_of_resolve?`: a reference with a NUL means nothing where no full
  name has one.
* `mem_types_iff_of_paths_nodup`: the types of a file, when no two files share
  a path.
-/
namespace ProtoTypings.Catalog

theorem missingImport?_eq_none_iff {files : List File} {file : File} :
    missingImport? files file = none ↔ ∀ d ∈ file.dependencies, ∃ f ∈ files, f.path = d := by
  simp only [missingImport?, Option.map_eq_none_iff, List.find?_eq_none, List.all_eq_true,
    decide_eq_true_eq, not_forall, ne_eq, not_not, exists_prop]

/-- No entry is found repeated when full names differ among the entries, and
from those met before. -/
theorem repeated?_eq_none_iff {before types : List DeclaredType} :
    repeated? before types = none ↔
      (types.map (·.fullName)).Nodup ∧
        ∀ entry ∈ types, ∀ first ∈ before, first.fullName ≠ entry.fullName := by
  induction types generalizing before with
  | nil => simp [repeated?]
  | cons entry rest ih =>
    rw [repeated?]
    cases hfound : before.find? (·.fullName = entry.fullName) with
    | some first =>
      have hfirst := List.find?_some hfound
      have hmem := List.mem_of_find?_eq_some hfound
      simp only [decide_eq_true_eq] at hfirst
      simp only [reduceCtorEq, false_iff, not_and, not_forall, not_not]
      exact fun _ => ⟨entry, List.mem_cons_self, first, hmem, hfirst⟩
    | none =>
      simp only [List.find?_eq_none, decide_eq_true_eq] at hfound
      rw [ih, List.map_cons, List.nodup_cons]
      constructor
      · intro hboth
        obtain ⟨hnodup, hbefore⟩ := hboth
        refine ⟨⟨?_, hnodup⟩, ?_⟩
        · intro hmem
          obtain ⟨other, hother, heq⟩ := List.mem_map.1 hmem
          exact hbefore other hother entry (by simp) heq.symm
        · intro other hother first hfirst
          rcases List.mem_cons.1 hother with rfl | hother
          · exact hfound first hfirst
          · exact hbefore other hother first (List.mem_append_left _ hfirst)
      · intro hboth
        obtain ⟨⟨hentry, hnodup⟩, hbefore⟩ := hboth
        refine ⟨hnodup, fun other hother first hfirst heq => ?_⟩
        rcases List.mem_append.1 hfirst with hfirst | hfirst
        · exact hbefore other (List.mem_cons_of_mem _ hother) first hfirst heq
        · rw [List.mem_singleton.1 hfirst] at heq
          exact hentry (List.mem_map.2 ⟨other, hother, heq.symm⟩)

/-- A catalog is made exactly when all imports are there and no two types share
a full name. -/
theorem ofFiles_eq_ok_iff {files : List File} {catalog : Catalog} :
    ofFiles files = .ok catalog ↔
      (∀ file ∈ files, ∀ d ∈ file.dependencies, ∃ f ∈ files, f.path = d) ∧
        ((files.flatMap File.types).map (·.fullName)).Nodup ∧
        catalog = ⟨files, files.flatMap File.types⟩ := by
  have hmissing : files.findSome? (missingImport? files) = none ↔
      ∀ file ∈ files, ∀ d ∈ file.dependencies, ∃ f ∈ files, f.path = d := by
    simp only [List.findSome?_eq_none_iff, missingImport?_eq_none_iff]
  have hrepeated : repeated? [] (files.flatMap File.types) = none ↔
      ((files.flatMap File.types).map (·.fullName)).Nodup := by
    rw [repeated?_eq_none_iff]
    simp
  rw [← hmissing, ← hrepeated, ofFiles]
  cases files.findSome? (missingImport? files) with
  | some fault => simp
  | none =>
    cases repeated? [] (files.flatMap File.types) with
    | some fault => simp
    | none => simp [eq_comm]

/-- Where keys differ, an element is found by its key. -/
theorem find?_of_mem {α : Type} {xs : List α} {key : α → String} (h : (xs.map key).Nodup) {x : α}
    (hx : x ∈ xs) : xs.find? (key · = key x) = some x := by
  cases hfound : xs.find? (key · = key x) with
  | none =>
    rw [List.find?_eq_none] at hfound
    exact absurd (by simp) (hfound x hx)
  | some y =>
    have hkey : key y = key x := by simpa using List.find?_some hfound
    rw [List.inj_on_of_nodup_map h (List.mem_of_find?_eq_some hfound) hx hkey]

section made
variable {files : List File} {catalog : Catalog} (h : ofFiles files = .ok catalog)
include h

theorem files_of_ofFiles : catalog.files = files := by
  rw [(ofFiles_eq_ok_iff.1 h).2.2]

theorem types_of_ofFiles : catalog.types = files.flatMap File.types := by
  rw [(ofFiles_eq_ok_iff.1 h).2.2]

theorem fullNames_nodup : (catalog.types.map (·.fullName)).Nodup := by
  rw [types_of_ofFiles h]
  exact (ofFiles_eq_ok_iff.1 h).2.1

theorem mem_types_iff {entry : DeclaredType} :
    entry ∈ catalog.types ↔ ∃ file ∈ files, entry ∈ file.types := by
  rw [types_of_ofFiles h, List.mem_flatMap]

theorem forall_types {motive : DeclaredType → Prop}
    (hfiles : ∀ file ∈ files, ∀ entry ∈ file.types, motive entry) :
    ∀ entry ∈ catalog.types, motive entry := by
  intro entry hentry
  obtain ⟨file, hfile, hentry⟩ := (mem_types_iff h).1 hentry
  exact hfiles file hfile entry hentry

theorem file?_eq_some {path : String} {file : File} (hfile : catalog.file? path = some file) :
    file ∈ files ∧ file.path = path := by
  have hpath := List.find?_some hfile
  have hmem := List.mem_of_find?_eq_some hfile
  rw [files_of_ofFiles h] at hmem
  exact ⟨hmem, by simpa using hpath⟩

theorem type?_of_mem {entry : DeclaredType} (hentry : entry ∈ catalog.types) :
    catalog.type? entry.fullName = some entry :=
  find?_of_mem (fullNames_nodup h) hentry

theorem file?_of_mem (hpaths : (files.map File.path).Nodup) {file : File} (hfile : file ∈ files) :
    catalog.file? file.path = some file := by
  rw [file?, files_of_ofFiles h]
  exact find?_of_mem hpaths hfile

theorem fullNames_nodup_of_file {file : File} (hfile : file ∈ files) :
    (file.types.map (·.fullName)).Nodup :=
  nodup_map_of_mem (ofFiles_eq_ok_iff.1 h).2.1 hfile

/-- When no two files share a path, the types under a path are those of one
file. -/
theorem mem_types_iff_of_paths_nodup (hpaths : (files.map File.path).Nodup) {path : String}
    {file : File} (hfile : catalog.file? path = some file) {entry : DeclaredType} :
    entry ∈ file.types ↔ entry ∈ catalog.types ∧ entry.file = path := by
  obtain ⟨hmem, hpath⟩ := file?_eq_some h hfile
  constructor
  · intro hentry
    exact ⟨(mem_types_iff h).2 ⟨file, hmem, hentry⟩, by rw [File.file_of_mem_types hentry, hpath]⟩
  · intro hboth
    obtain ⟨hentry, hentryFile⟩ := hboth
    obtain ⟨other, hother, hentry⟩ := (mem_types_iff h).1 hentry
    have heq : other = file := by
      refine List.inj_on_of_nodup_map hpaths hother hmem ?_
      rw [← File.file_of_mem_types hentry, hentryFile, hpath]
    exact heq ▸ hentry

end made

theorem mem_of_type? {catalog : Catalog} {name : String} {entry : DeclaredType}
    (h : catalog.type? name = some entry) : entry ∈ catalog.types ∧ entry.fullName = name :=
  ⟨List.mem_of_find?_eq_some h, by simpa using List.find?_some h⟩

/-- What a reference means has a full name that ends in the reference, up to a
leading dot. -/
theorem resolve?_eq_some {catalog : Catalog} {text scope : String} {entry : DeclaredType}
    (h : catalog.resolve? text scope = some entry) :
    entry ∈ catalog.types ∧
      (entry.fullName = Dotted.unrooted text ∨ ∃ s, entry.fullName = Dotted.join s text) := by
  cases hrooted : Dotted.isRooted text with
  | true =>
    rw [resolve?, if_pos hrooted] at h
    exact ⟨(mem_of_type? h).1, .inl (mem_of_type? h).2⟩
  | false =>
    rw [resolve?_eq_findSome? catalog scope hrooted] at h
    obtain ⟨s, -, hs⟩ := List.exists_of_findSome?_eq_some h
    exact ⟨(mem_of_type? hs).1, .inr ⟨s, (mem_of_type? hs).2⟩⟩

theorem mem_of_resolve? {catalog : Catalog} {text scope : String} {entry : DeclaredType}
    (h : catalog.resolve? text scope = some entry) : entry ∈ catalog.types :=
  (resolve?_eq_some h).1

/-- No reference is empty where every full name ends in a segment. -/
theorem resolve?_empty {catalog : Catalog}
    (named : ∀ entry ∈ catalog.types, ∃ scope name, Dotted.IsSegment name ∧
      entry.fullName = Dotted.join scope name) (scope : String) :
    catalog.resolve? "" scope = none := by
  cases hfound : catalog.resolve? "" scope with
  | none => rfl
  | some entry =>
    obtain ⟨hmem, hfull⟩ := resolve?_eq_some hfound
    obtain ⟨around, name, hname, hjoin⟩ := named entry hmem
    rw [hjoin] at hfull
    obtain hfull | ⟨s, hfull⟩ := hfull
    · exact absurd hfull (Dotted.join_ne_empty around hname.1)
    · exact absurd (Dotted.join_inj hname.2 (by simp) hfull).2 hname.1

theorem nulFree_of_unrooted {text : String} (h : Text.NulFree (Dotted.unrooted text)) :
    Text.NulFree text := by
  rw [Dotted.unrooted] at h
  split at h
  · next rest htext =>
    simp only [Text.NulFree, String.toList_ofList] at h
    rw [Text.NulFree, htext, List.mem_cons, not_or]
    exact ⟨by decide, h⟩
  · exact h

theorem nulFree_of_resolve? {catalog : Catalog}
    (hnames : ∀ entry ∈ catalog.types, Text.NulFree entry.fullName) {text scope : String}
    {entry : DeclaredType} (h : catalog.resolve? text scope = some entry) : Text.NulFree text := by
  obtain ⟨hmem, heq | ⟨s, heq⟩⟩ := resolve?_eq_some h
  · exact nulFree_of_unrooted (heq ▸ hnames entry hmem)
  · exact Text.NulFree.of_join (heq ▸ hnames entry hmem)

end ProtoTypings.Catalog
