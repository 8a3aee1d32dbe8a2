import ProtoTypings.Proofs.RenderedLines
import ProtoTypings.Proofs.WrittenFiles
/-!
# Loading again

A run may write into the directory that it walks for descriptor sets. The next
walk then meets the new files, in the middle of those that it met before, but it
passes them by: their ending is that of declaration files, and directories are
no files.

**Growth.** `before.GrowsByTypings after`: the disk grew by directories and by
declaration files.

**Results.**
* `Path.IsTyping.not_descriptorSet`: a declaration file is no descriptor set.
* `Disk.filter_mergeSort_append`: what a walk passes by does not change the order
  of the rest.
* `Disk.GrowsByTypings.filesUnder`: a walk finds the same descriptor sets.
* `Invocation.generated_again`: after such growth a run generates what it did
  before.
-/
namespace ProtoTypings

/-! ## The ending of declaration files -/

namespace Path

def IsTyping (path : String) : Prop := ∃ front, path = front ++ ".d.ts"

theorem isTyping_nameFor (source : String) : IsTyping (Output.nameFor source) :=
  ⟨stem source, rfl⟩

theorem IsTyping.append {path : String} (h : IsTyping path) (front : String) :
    IsTyping (front ++ path) := by
  obtain ⟨mid, rfl⟩ := h
  exact ⟨front ++ mid, by rw [String.append_assoc]⟩

theorem IsTyping.join {path : String} (h : IsTyping path) (directory : String) :
    IsTyping (Path.join directory path) := by
  unfold Path.join
  split
  · exact h.append directory
  · exact h.append (directory ++ "/")

/-- The ending holds no slash, so it belongs to what is after one. -/
theorem IsTyping.of_append {above below : String} (h : IsTyping (above ++ "/" ++ below)) :
    IsTyping below := by
  obtain ⟨front, hfront⟩ := h
  have hchars : above.toList ++ '/' :: below.toList = front.toList ++ ".d.ts".toList := by
    simpa using congrArg String.toList hfront
  rcases List.append_eq_append_iff.1 hchars with ⟨mid, -, hmid⟩ | ⟨mid, -, hmid⟩
  · cases mid with
    | nil => simp at hmid
    | cons c mid =>
      rw [List.cons_append, List.cons.injEq] at hmid
      refine ⟨String.ofList mid, ?_⟩
      rw [← String.toList_inj, hmid.2]
      simp
  · have hslash : '/' ∈ ".d.ts".toList := by
      rw [hmid]
      simp
    simp at hslash

theorem fileName_append {ending : String} (h : '/' ∉ ending.toList) (path : String) :
    fileName (path ++ ending) = fileName path ++ ending := by
  obtain ⟨init, last, hpath, hending⟩ := Text.split_append_of_notMem h path
  simp [fileName, segments, hpath, hending]

theorem extension?_typing (name : String) : extension? (name ++ ".d.ts") = some "ts" := by
  have hpieces : Text.split '.' (name ++ ".d.ts") = Text.split '.' name ++ ["d", "ts"] := by
    have hname : name ++ ".d.ts" = name ++ String.singleton '.' ++ "d.ts" := by
      rw [String.append_assoc]
      rfl
    rw [hname, Text.split_append_sep]
    rfl
  have hlength : 3 ≤ (Text.split '.' (name ++ ".d.ts")).length := by
    have hname : Text.split '.' name ≠ [] := by simp [Text.split, Text.splitChars_ne_nil]
    have := List.length_pos_iff.2 hname
    rw [hpieces, List.length_append]
    exact Nat.add_le_add_right this 2
  unfold extension?
  split
  · next h => simp [h] at hlength
  · next h => simp [h] at hlength
  · next h => simp [h] at hlength
  · rw [hpieces, List.getLast?_append]
    rfl

theorem IsTyping.not_descriptorSet {path : String} (h : IsTyping path) :
    isDescriptorSet path = false := by
  obtain ⟨front, rfl⟩ := h
  unfold isDescriptorSet
  rw [fileName_append (by decide), extension?_typing]
  decide +kernel

end Path

namespace Disk

/-- Where a path leads is decided by its last segment in the end. -/
theorem follow_concat {disk : Disk} {segments : List String} {segment place found : String}
    (h : disk.follow place (segments ++ [segment]) = .ok found) :
    ∃ above, found = step above segment := by
  induction segments generalizing place with
  | nil => exact ⟨place, (Except.ok.inj (follow_cons_eq_ok_iff.1 h).2.2).symm⟩
  | cons first rest ih => exact ih (follow_cons_eq_ok_iff.1 h).2.2

theorem step_typing (place name : String) :
    step place (name ++ ".d.ts") = place ++ "/" ++ (name ++ ".d.ts") := by
  have hne : ∀ short : String, short.length < 5 → name ++ ".d.ts" ≠ short := by
    rintro short hshort rfl
    have hlength : ".d.ts".length = 5 := rfl
    rw [String.length_append] at hshort
    omega
  unfold step Path.isIdle
  simp only [hne "" (by decide), hne "." (by decide), hne ".." (by decide), decide_false,
    Bool.or_self, Bool.false_eq_true, if_false]

/-- The place of a declaration file has its ending. -/
theorem isTyping_of_locate {disk : Disk} {path place : String} (h : Path.IsTyping path)
    (hplace : disk.locate path = .ok place) : Path.IsTyping place := by
  obtain ⟨front, rfl⟩ := h
  have hslash : '/' ∉ ".d.ts".toList := by decide
  obtain ⟨init, last, -, hsegments⟩ := Text.split_append_of_notMem hslash front
  unfold Disk.locate at hplace
  split at hplace
  · cases hplace
  · rw [Path.segments, hsegments] at hplace
    obtain ⟨above, rfl⟩ := follow_concat hplace
    rw [step_typing]
    exact Path.IsTyping.append ⟨last, rfl⟩ _

/-! ## The order of a walk -/

theorem precedes_iff {as bs : List String} : precedes as bs = true ↔ as ≤ bs := by
  rw [← not_lt]
  induction as generalizing bs with
  | nil => simp [precedes]
  | cons a as ih =>
    cases bs with
    | nil => simp [precedes]
    | cons b bs =>
      rw [precedes, List.cons_lt_cons_iff]
      by_cases hab : a = b
      · simp [hab, ih]
      · rw [if_neg hab, decide_eq_true_eq, not_or, not_lt]
        constructor
        · exact fun hlt => ⟨le_of_lt hlt, fun hsame => hab hsame.1.symm⟩
        · exact fun hle => lt_of_le_of_ne hle.1 hab

end Disk

theorem Text.intercalate_splitChars (sep : Char) (cs : List Char) :
    [sep].intercalate (splitChars sep cs) = cs := by
  induction cs with
  | nil => rfl
  | cons c cs ih =>
    rw [splitChars]
    split
    · next h => exact absurd h (splitChars_ne_nil sep cs)
    · next piece pieces h =>
      rw [h] at ih
      split
      · next hc => simp [ih, hc]
      · cases pieces with
        | nil => simpa using ih
        | cons next rest => simpa using ih

theorem Path.segments_injective : Function.Injective Path.segments := by
  intro a b h
  have hchars : Text.splitChars '/' a.toList = Text.splitChars '/' b.toList :=
    List.map_injective_iff.2 (fun _ _ => String.ofList_inj.1) h
  rw [← String.toList_inj, ← Text.intercalate_splitChars '/' a.toList, hchars,
    Text.intercalate_splitChars]

namespace Disk

/-- Paths in the order of a walk. -/
def isEarlier (a b : String) : Bool := precedes (Path.segments a) (Path.segments b)

theorem pairwise_walk (paths : List String) :
    (paths.mergeSort isEarlier).Pairwise fun a b => Path.segments a ≤ Path.segments b := by
  refine (List.pairwise_mergeSort ?_ ?_ paths).imp precedes_iff.1
  · intro a b c hab hbc
    exact precedes_iff.2 (le_trans (precedes_iff.1 hab) (precedes_iff.1 hbc))
  · intro a b
    rw [Bool.or_eq_true]
    exact (le_total (Path.segments a) (Path.segments b)).imp precedes_iff.2 precedes_iff.2

/-- What is left out does not change the order of what is kept. -/
theorem filter_mergeSort_append {keep : String → Bool} {added : List String}
    (h : ∀ path ∈ added, keep path = false) (paths : List String) :
    ((added ++ paths).mergeSort isEarlier).filter keep =
      (paths.mergeSort isEarlier).filter keep := by
  have hadded : added.filter keep = [] := List.filter_eq_nil_iff.2 fun path hpath => by
    rw [h path hpath]
    decide
  have hperm : (((added ++ paths).mergeSort isEarlier).filter keep).Perm
      ((paths.mergeSort isEarlier).filter keep) := by
    refine ((List.mergeSort_perm _ _).filter keep).trans ?_
    rw [List.filter_append, hadded, List.nil_append]
    exact ((List.mergeSort_perm _ _).filter keep).symm
  refine hperm.eq_of_pairwise (fun a b _ _ hab hba => ?_) ((pairwise_walk _).filter _)
    ((pairwise_walk _).filter _)
  exact Path.segments_injective (le_antisymm hab hba)

theorem below?_eq_some_iff {above place path : String} :
    below? above place = some path ↔ place = above ++ "/" ++ path := by
  unfold below?
  rw [Option.map_eq_some_iff]
  constructor
  · rintro ⟨rest, hrest, rfl⟩
    rw [← String.toList_inj, Text.after?_eq_some_iff.1 hrest]
    simp
  · rintro rfl
    exact ⟨path.toList, Text.after?_eq_some_iff.2 (by simp), by simp⟩

/-! ## Growth by declaration files -/

/-- Directories and declaration files came to the disk. -/
def GrowsByTypings (before after : Disk) : Prop :=
  ∃ added, before.GrowsBy added after ∧ ∀ x ∈ added, x.2 = .directory ∨ Path.IsTyping x.1

namespace GrowsByTypings

variable {before after : Disk}

theorem keeps (h : before.GrowsByTypings after) : before.Keeps after :=
  h.choose_spec.1.keeps

/-- A walk finds the same descriptor sets in the same order. -/
theorem filesUnder (h : before.GrowsByTypings after) {path place : String}
    (hplace : before.locate path = .ok place) :
    (after.filesUnder path).filter Path.isDescriptorSet =
      (before.filesUnder path).filter Path.isDescriptorSet := by
  have hplace' := h.keeps.locate hplace
  obtain ⟨added, hgrows, hadded⟩ := h
  unfold Disk.filesUnder
  rw [hplace, hplace']
  dsimp only
  simp only [List.filter_filter, List.filter_map]
  congr 1
  unfold filesBelow
  rw [hgrows.entries, List.filterMap_append]
  refine filter_mergeSort_append (fun new hnew => ?_) _
  -- a new file under the place has the ending, and keeps it below the path
  obtain ⟨⟨p, entry⟩, hmem, hbelow⟩ := List.mem_filterMap.1 hnew
  cases entry with
  | directory => cases hbelow
  | file content =>
    rcases hadded _ hmem with hdirectory | htyping
    · cases hdirectory
    · rw [below?_eq_some_iff.1 hbelow] at htyping
      simp [(htyping.of_append.join path).not_descriptorSet]

theorem loadSet (h : before.GrowsByTypings after) {path : String} {files : List File}
    (hfiles : before.loadSet path = .ok files) : after.loadSet path = .ok files := by
  obtain ⟨added, hgrows, -⟩ := h
  obtain ⟨content, hread, hdecode⟩ := loadSet_eq_ok_iff.1 hfiles
  obtain ⟨place, hplace, hget⟩ := read_eq_ok_iff.1 hread
  have hagain : after.read path = .ok content :=
    read_eq_ok_iff.2 ⟨place, hgrows.keeps.locate hplace, hgrows.get? hget⟩
  exact loadSet_eq_ok_iff.2 ⟨content, hagain, hdecode⟩

end GrowsByTypings
end Disk

namespace Invocation

variable {invocation : Invocation} {before after : Disk}

theorem setPathsOn_again (h : before.GrowsByTypings after) {paths : List String}
    (hpaths : invocation.setPathsOn before = .ok paths) :
    invocation.setPathsOn after = .ok paths := by
  unfold setPathsOn at hpaths ⊢
  split at hpaths
  · next directory hdirectory =>
    split at hpaths
    · next hbefore =>
      obtain ⟨place, hplace, hget⟩ := Disk.isDirectory_iff.1 hbefore
      have hafter : after.isDirectory directory = true :=
        Disk.isDirectory_iff.2 ⟨place, h.keeps.locate hplace, h.keeps.directory place hget⟩
      rw [if_pos hafter, h.filesUnder hplace]
      exact hpaths
    · cases hpaths
  · exact hpaths

theorem loadFrom_again (h : before.GrowsByTypings after) {files : List File}
    (hfiles : invocation.loadFrom before = .ok files) :
    invocation.loadFrom after = .ok files := by
  obtain ⟨paths, hpaths, hrest⟩ := bind_eq_ok_iff.1 hfiles
  obtain ⟨sets, hsets, hfirst⟩ := bind_eq_ok_iff.1 hrest
  have hagain : paths.mapM after.loadSet = .ok sets :=
    mapM_eq_ok_iff.2 ((mapM_eq_ok_iff.1 hsets).imp fun _ _ => h.loadSet)
  exact bind_eq_ok_iff.2 ⟨paths, setPathsOn_again h hpaths, bind_eq_ok_iff.2 ⟨sets, hagain, hfirst⟩⟩

/-- **Loading again.** Where a disk grew by directories and declaration files, a run
generates what it generated before. -/
theorem generated_again {machine next : Machine} (h : machine.disk.GrowsByTypings next.disk)
    {outputs : List Output} (houtputs : invocation.generated machine = .ok outputs) :
    invocation.generated next = .ok outputs := by
  obtain ⟨files, hfiles, houtputs⟩ := generated_eq_ok_iff.1 houtputs
  exact generated_eq_ok_iff.2 ⟨files, loadFrom_again h hfiles, houtputs⟩

end Invocation
end ProtoTypings
