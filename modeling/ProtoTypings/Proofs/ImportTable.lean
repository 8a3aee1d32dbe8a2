import Mathlib.Data.List.Nodup
import ProtoTypings.Reference.Import
/-!
# The table of imports

A table grows by `add` and its imports are marked by `markUsed`; nothing is
ever renamed or removed. `visit` does both for one file.

* `isStem_stem`: a file is imported by its path without the ending.
* `Import.freeName_notMem`: the name of a new import is not taken.
* `Imports.WellFormed`: one import for a file, one file for a name, and no
  reserved name. Every operation keeps it.
* `Imports.files_addAll`, `Imports.files_visitAll`: the files of a table in the
  order of first need.
* `Imports.used_visitAll`: the imports that are marked are the visited ones.
-/
namespace ProtoTypings

/-! ## The ending of a path -/

theorem Text.dropEnding_append (s suffix : String) : dropEnding suffix (s ++ suffix) = s := by
  unfold dropEnding
  rw [if_pos (by simp)]
  simp

theorem Text.dropEnding_of_not {s suffix : String} (h : ¬ suffix.toList <:+ s.toList) :
    dropEnding suffix s = s := by
  unfold dropEnding
  rw [if_neg (by simpa using h)]

/-- Whether a path ends in `.proto`. -/
def HasEnding (path : String) : Prop := ".proto".toList <:+ path.toList

instance : DecidablePred HasEnding := fun path =>
  inferInstanceAs (Decidable (".proto".toList <:+ path.toList))

theorem stem_append (path : String) : stem (path ++ ".proto") = path :=
  Text.dropEnding_append path ".proto"

theorem stem_of_not_hasEnding {path : String} (h : ¬ HasEnding path) : stem path = path :=
  Text.dropEnding_of_not h

/-- A path with the ending is its stem and the ending. -/
theorem eq_stem_append {path : String} (h : HasEnding path) : path = stem path ++ ".proto" := by
  obtain ⟨front, hfront⟩ := h
  have hpath : path = String.ofList front ++ ".proto" := by
    rw [← String.toList_inj, ← hfront]
    simp
  rw [hpath, stem_append]

/-- The text is the path without its ending `.proto`, or all of a path that ends
otherwise. -/
def IsStem (path text : String) : Prop :=
  path = text ++ ".proto" ∨ ¬ HasEnding path ∧ text = path

theorem isStem_stem (path : String) : IsStem path (stem path) := by
  by_cases h : HasEnding path
  · exact .inl (eq_stem_append h)
  · exact .inr ⟨h, stem_of_not_hasEnding h⟩

/-! ## Imports -/

theorem Import.freeName_notMem (taken : List String) (base : String) :
    Import.freeName taken base ∉ taken := by
  by_cases hbase : base ∈ taken
  · rw [Import.freeName, if_pos hbase]
    intro hmem
    have hsorted : ((taken.filterMap (numberOf? base)).mergeSort Nat.ble).Pairwise (· ≤ ·) := by
      refine (List.pairwise_mergeSort ?_ ?_ _).imp fun h => Nat.le_of_ble_eq_true h
      · simp only [Nat.ble_eq]; omega
      · simp only [Bool.or_eq_true, Nat.ble_eq]; omega
    refine leastFree_notMem hsorted 2 ?_
    rw [List.mem_mergeSort, List.mem_filterMap]
    exact ⟨_, hmem, numberOf?_eq_some_iff.2 rfl⟩
  · rw [Import.freeName, if_neg hbase]
    exact hbase

namespace Imports

def files (imports : Imports) : List String := imports.list.map (·.file)

/-- The table after a reference into `file`: it has an import, marked as used. -/
def visit (imports : Imports) (file : String) : Imports := (imports.add file).markUsed file

def visitAll (imports : Imports) (files : List String) : Imports := files.foldl visit imports

structure WellFormed (imports : Imports) : Prop where
  files_nodup : imports.files.Nodup
  names_nodup : (imports.list.map (·.name)).Nodup
  not_reserved : ∀ i ∈ imports.list, i.name ∉ imports.reserved
  specifier : ∀ i ∈ imports.list, i.specifier = stem i.file

theorem find?_eq_none_iff {imports : Imports} {file : String} :
    imports.find? file = none ↔ file ∉ imports.files := by
  simp only [find?, List.find?_eq_none, decide_eq_true_eq, files, List.mem_map, not_exists, not_and]

theorem mem_of_find? {imports : Imports} {file : String} {i : Import}
    (h : imports.find? file = some i) : i ∈ imports.list ∧ i.file = file :=
  ⟨List.mem_of_find?_eq_some h, by simpa using List.find?_some h⟩

theorem mem_files {imports : Imports} {i : Import} (h : i ∈ imports.list) :
    i.file ∈ imports.files := List.mem_map_of_mem h

/-- With one import for a file, imports of one file are the same. -/
theorem WellFormed.eq_of_file_eq {imports : Imports} (h : imports.WellFormed) {i j : Import}
    (hi : i ∈ imports.list) (hj : j ∈ imports.list) (heq : i.file = j.file) : i = j :=
  List.inj_on_of_nodup_map h.files_nodup hi hj heq

theorem nameOf_of_mem {imports : Imports} (h : imports.WellFormed) {i : Import}
    (hi : i ∈ imports.list) : imports.nameOf i.file = i.name := by
  cases hfind : imports.find? i.file with
  | none => exact absurd (mem_files hi) (find?_eq_none_iff.1 hfind)
  | some known =>
    obtain ⟨hmem, hfile⟩ := mem_of_find? hfind
    rw [nameOf, hfind, h.eq_of_file_eq hmem hi hfile]

/-! ## Adding -/

theorem add_of_mem {imports : Imports} {file : String} (h : file ∈ imports.files) :
    imports.add file = imports := by
  cases hfind : imports.find? file with
  | none => exact absurd h (find?_eq_none_iff.1 hfind)
  | some i => simp [add, hfind]

theorem add_of_notMem {imports : Imports} {file : String} (h : file ∉ imports.files) :
    imports.add file = { imports with list := imports.list ++ [imports.fresh file] } := by
  simp [add, find?_eq_none_iff.2 h]

@[simp] theorem reserved_add (imports : Imports) (file : String) :
    (imports.add file).reserved = imports.reserved := by
  rw [add]
  split <;> rfl

theorem list_add_prefix (imports : Imports) (file : String) :
    ∃ added, (imports.add file).list = imports.list ++ added := by
  by_cases h : file ∈ imports.files
  · exact ⟨[], by simp [add_of_mem h]⟩
  · exact ⟨[imports.fresh file], by rw [add_of_notMem h]⟩

theorem files_add (imports : Imports) (file : String) :
    (imports.add file).files =
      if file ∈ imports.files then imports.files else imports.files ++ [file] := by
  by_cases h : file ∈ imports.files
  · rw [add_of_mem h, if_pos h]
  · rw [add_of_notMem h, if_neg h]
    simp [files, fresh]

theorem WellFormed.add {imports : Imports} (h : imports.WellFormed) (file : String) :
    (imports.add file).WellFormed := by
  by_cases hmem : file ∈ imports.files
  · rwa [add_of_mem hmem]
  rw [add_of_notMem hmem]
  have hfree := Import.freeName_notMem imports.taken (Import.suggestion file)
  rw [taken, List.mem_append, not_or] at hfree
  refine ⟨?_, ?_, ?_, ?_⟩
  · rw [files, List.map_append, List.nodup_append]
    refine ⟨h.files_nodup, by simp, ?_⟩
    intro a ha b hb heq
    rw [List.map_singleton, List.mem_singleton] at hb
    exact hmem (by rwa [heq, hb] at ha)
  · rw [List.map_append, List.nodup_append]
    refine ⟨h.names_nodup, by simp, ?_⟩
    intro a ha b hb heq
    rw [List.map_singleton, List.mem_singleton] at hb
    exact hfree.2 (by rwa [heq, hb] at ha)
  · intro i hi
    rcases List.mem_append.1 hi with hi | hi
    · exact h.not_reserved i hi
    · rw [List.mem_singleton.1 hi]
      exact hfree.1
  · intro i hi
    rcases List.mem_append.1 hi with hi | hi
    · exact h.specifier i hi
    · rw [List.mem_singleton.1 hi]
      rfl

/-! ## Marking -/

@[simp] theorem reserved_markUsed (imports : Imports) (file : String) :
    (imports.markUsed file).reserved = imports.reserved := rfl

theorem map_markUsed {α : Type} (f : Import → α) (hf : ∀ i, f { i with used := true } = f i)
    (imports : Imports) (file : String) :
    (imports.markUsed file).list.map f = imports.list.map f := by
  rw [markUsed, List.map_map]
  refine List.map_congr_left fun i _ => ?_
  by_cases h : i.file = file
  · rw [Function.comp_apply, if_pos h, hf]
  · rw [Function.comp_apply, if_neg h]

@[simp] theorem files_markUsed (imports : Imports) (file : String) :
    (imports.markUsed file).files = imports.files :=
  map_markUsed _ (fun _ => rfl) imports file

theorem mem_markUsed {imports : Imports} {file : String} {i : Import} :
    i ∈ (imports.markUsed file).list ↔
      ∃ j ∈ imports.list, (if j.file = file then { j with used := true } else j) = i := by
  simp [markUsed]

theorem WellFormed.markUsed {imports : Imports} (h : imports.WellFormed) (file : String) :
    (imports.markUsed file).WellFormed := by
  refine ⟨by simpa using h.files_nodup, ?_, ?_, ?_⟩
  · rw [map_markUsed _ fun _ => rfl]
    exact h.names_nodup
  · intro i hi
    obtain ⟨j, hj, rfl⟩ := mem_markUsed.1 hi
    have := h.not_reserved j hj
    split <;> exact this
  · intro i hi
    obtain ⟨j, hj, rfl⟩ := mem_markUsed.1 hi
    have := h.specifier j hj
    split <;> exact this

/-! ## Visiting -/

theorem WellFormed.visit {imports : Imports} (h : imports.WellFormed) (file : String) :
    (imports.visit file).WellFormed := (h.add file).markUsed file

theorem files_visit (imports : Imports) (file : String) :
    (imports.visit file).files =
      if file ∈ imports.files then imports.files else imports.files ++ [file] := by
  rw [visit, files_markUsed, files_add]

/-- A marked import stays as it is. -/
theorem mem_visit_of_used {imports : Imports} {i : Import} (hi : i ∈ imports.list)
    (hused : i.used = true) (file : String) : i ∈ (imports.visit file).list := by
  obtain ⟨added, hadded⟩ := list_add_prefix imports file
  refine mem_markUsed.2 ⟨i, by rw [hadded]; exact List.mem_append_left _ hi, ?_⟩
  split
  · rw [← hused]
  · rfl

/-- A visited file has a marked import, under the name that was promised. -/
theorem exists_mem_visit (imports : Imports) (file : String) :
    ∃ i ∈ (imports.visit file).list,
      i.file = file ∧ i.used = true ∧ i.name = imports.nameOf file := by
  cases hfind : imports.find? file with
  | some known =>
    obtain ⟨hmem, hfile⟩ := mem_of_find? hfind
    have hadd : imports.add file = imports := by simp [Imports.add, hfind]
    refine ⟨{ known with used := true }, ?_, hfile, rfl, by simp [nameOf, hfind]⟩
    rw [visit, hadd]
    exact mem_markUsed.2 ⟨known, hmem, by simp [hfile]⟩
  | none =>
    have hadd : (imports.add file).list = imports.list ++ [imports.fresh file] := by
      simp [Imports.add, hfind]
    refine ⟨{ imports.fresh file with used := true }, ?_, rfl, rfl, by simp [nameOf, hfind]⟩
    refine mem_markUsed.2 ⟨imports.fresh file, by simp [hadd], by simp [fresh]⟩

/-- Visiting a file again changes nothing. -/
theorem visit_of_used {imports : Imports} (h : imports.WellFormed) {i : Import}
    (hi : i ∈ imports.list) (hused : i.used = true) : imports.visit i.file = imports := by
  have hsame : ∀ j ∈ imports.list,
      (if j.file = i.file then { j with used := true } else j) = j := by
    intro j hj
    by_cases hfile : j.file = i.file
    · rw [if_pos hfile, h.eq_of_file_eq hj hi hfile, ← hused]
    · rw [if_neg hfile]
  rw [visit, add_of_mem (mem_files hi), markUsed, List.map_congr_left hsame, List.map_id']

/-- A visit marks the import of its file and no other. -/
theorem used_visit {imports : Imports} (wellFormed : imports.WellFormed) {file : String}
    {i : Import} (hi : i ∈ (imports.visit file).list) :
    i.used = true ↔
      i.file = file ∨ ∃ j ∈ imports.list, j.file = i.file ∧ j.used = true := by
  obtain ⟨j, hj, rfl⟩ := mem_markUsed.1 hi
  by_cases hfile : j.file = file
  · simp [hfile]
  · have hmem : j ∈ imports.list := by
      by_cases hknown : file ∈ imports.files
      · rwa [add_of_mem hknown] at hj
      · rw [add_of_notMem hknown] at hj
        rcases List.mem_append.1 hj with hj | hj
        · exact hj
        · exact absurd (by rw [List.mem_singleton.1 hj]; rfl) hfile
    rw [if_neg hfile]
    constructor
    · exact fun hused => .inr ⟨j, hmem, rfl, hused⟩
    · intro hcase
      obtain h | ⟨k, hk, hkfile, hused⟩ := hcase
      · exact absurd h hfile
      · rwa [wellFormed.eq_of_file_eq hk hmem hkfile] at hused

/-! ## Many files -/

/-- What a table holds after files are added one after the other: the files
that it lacked, each at its first place. -/
theorem foldl_addNew (start files : List String) :
    files.foldl (fun held f => if f ∈ held then held else held ++ [f]) start =
      start ++ (files.filter (· ∉ start)).eraseDups := by
  induction files generalizing start with
  | nil => simp
  | cons file rest ih =>
    rw [List.foldl_cons, ih]
    by_cases h : file ∈ start
    · rw [if_pos h, List.filter_cons_of_neg (by simpa using h)]
    · rw [if_neg h, List.filter_cons_of_pos (by simpa using h), List.eraseDups_cons,
        List.filter_filter, List.append_assoc, List.singleton_append]
      congr 3
      refine List.filter_congr fun other _ => ?_
      rw [Bool.eq_iff_iff]
      simp [and_comm]

theorem reserved_addAll (imports : Imports) (files : List String) :
    (imports.addAll files).reserved = imports.reserved := by
  induction files generalizing imports with
  | nil => rfl
  | cons file rest ih => exact (ih (imports.add file)).trans (reserved_add imports file)

theorem WellFormed.addAll {imports : Imports} (h : imports.WellFormed) (files : List String) :
    (imports.addAll files).WellFormed := by
  induction files generalizing imports with
  | nil => exact h
  | cons file rest ih => exact ih (h.add file)

theorem files_addAll (imports : Imports) (new : List String) :
    (imports.addAll new).files =
      imports.files ++ (new.filter (· ∉ imports.files)).eraseDups := by
  rw [← foldl_addNew]
  induction new generalizing imports with
  | nil => rfl
  | cons file rest ih =>
    rw [List.foldl_cons, ← files_add]
    exact ih (imports.add file)

/-- Adding marks nothing. -/
theorem used_addAll {imports : Imports} (h : ∀ i ∈ imports.list, i.used = false)
    (new : List String) : ∀ i ∈ (imports.addAll new).list, i.used = false := by
  induction new generalizing imports with
  | nil => exact h
  | cons file rest ih =>
    refine ih fun i hi => ?_
    by_cases hknown : file ∈ imports.files
    · rw [add_of_mem hknown] at hi
      exact h i hi
    · rw [add_of_notMem hknown] at hi
      rcases List.mem_append.1 hi with hi | hi
      · exact h i hi
      · rw [List.mem_singleton.1 hi]
        rfl

theorem files_visitAll (imports : Imports) (visited : List String) :
    (imports.visitAll visited).files =
      imports.files ++ (visited.filter (· ∉ imports.files)).eraseDups := by
  rw [← foldl_addNew]
  induction visited generalizing imports with
  | nil => rfl
  | cons file rest ih =>
    rw [List.foldl_cons, ← files_visit]
    exact ih (imports.visit file)

/-- The marked imports after a number of visits are those marked before and
those visited. -/
theorem used_visitAll {imports : Imports} (h : imports.WellFormed) (visited : List String) :
    ∀ i ∈ (imports.visitAll visited).list,
      i.used = true ↔
        i.file ∈ visited ∨ ∃ j ∈ imports.list, j.file = i.file ∧ j.used = true := by
  induction visited generalizing imports with
  | nil =>
    intro i hi
    refine ⟨fun hused => .inr ⟨i, hi, rfl, hused⟩, ?_⟩
    intro hcase
    obtain hmem | ⟨j, hj, hfile, hused⟩ := hcase
    · cases hmem
    · rwa [h.eq_of_file_eq hj hi hfile] at hused
  | cons file rest ih =>
    intro i hi
    rw [ih (h.visit file) i hi, List.mem_cons]
    constructor
    · intro hcase
      obtain hmem | ⟨j, hj, hfile, hused⟩ := hcase
      · exact .inl (.inr hmem)
      · rcases (used_visit h hj).1 hused with hfile' | ⟨k, hk, hkfile, hkused⟩
        · exact .inl (.inl (hfile ▸ hfile'))
        · exact .inr ⟨k, hk, hkfile.trans hfile, hkused⟩
    · intro hcase
      obtain (hfile | hmem) | ⟨j, hj, hfile, hused⟩ := hcase
      · obtain ⟨j, hj, hjfile, hused, -⟩ := exists_mem_visit imports file
        exact .inr ⟨j, hj, hjfile.trans hfile.symm, hused⟩
      · exact .inl hmem
      · exact .inr ⟨j, mem_visit_of_used hj hused file, hfile, hused⟩

end Imports
end ProtoTypings
