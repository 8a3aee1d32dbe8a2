import ProtoTypings.Proofs.DescriptorWalk
import ProtoTypings.Proofs.OutputNames
/-!
# Output paths stay inside

Where a declaration file goes is decided by texts: the path of its source loses one ending and
gets another, is refused if it could lead out of the output directory, and is joined with the
directory as that was given. Slashes may be doubled or stand at the end, single dots may stand
anywhere, and either text may be empty.

**Steps.** `Path.steps` is the normal form of a path: what is left of its segments without the
empty ones and the single dots. Where a path begins is not a step, so it is said beside them.

**Results.**
* `Path.steps_join`: the steps of a joined path are those of its parts, one after the other.
* `Path.segments_nameFor`: the name of a declaration file differs from the path of its source in
  the last segment, and never ends in a step up.
* `Invocation.outputPath_confined`: which paths are refused, and that all others stay inside.
-/
namespace ProtoTypings

namespace Path

/-! ## Joined paths -/

theorem segments_slash (above below : String) :
    segments (above ++ "/" ++ below) = segments above ++ segments below :=
  Text.split_append_sep '/' above below

theorem steps_slash (above below : String) :
    steps (above ++ "/" ++ below) = steps above ++ steps below := by
  rw [steps, segments_slash, List.filter_append]
  rfl

@[simp] theorem steps_empty : steps "" = [] := by decide

/-- A slash at the end of a directory is no step. -/
theorem steps_slash_end (above : String) : steps (above ++ "/") = steps above := by
  have hsteps := steps_slash above ""
  rwa [String.append_empty, steps_empty, List.append_nil] at hsteps

theorem exists_slash_end {path : String} (h : path.toList.getLast? = some '/') :
    ∃ above, path = above ++ "/" := by
  obtain ⟨front, hfront⟩ := List.getLast?_eq_some_iff.1 h
  refine ⟨String.ofList front, ?_⟩
  rw [← String.toList_inj, hfront]
  simp

/-- **The steps of a joined path** are those of the directory and then those of the name. -/
theorem steps_join (directory name : String) :
    steps (join directory name) = steps directory ++ steps name := by
  unfold join
  by_cases hempty : directory = ""
  · simp [hempty]
  · by_cases hslash : directory.toList.getLast? = some '/'
    · obtain ⟨above, rfl⟩ := exists_slash_end hslash
      rw [if_pos (.inr hslash), steps_slash, steps_slash_end]
    · rw [if_neg (not_or.2 ⟨hempty, hslash⟩), steps_slash]

theorem isAbsolute_append {path : String} (h : isAbsolute path = false) (front : String) :
    isAbsolute (front ++ path) = isAbsolute front := by
  unfold isAbsolute at h ⊢
  rw [decide_eq_false_iff_not] at h
  rw [String.toList_append, List.head?_append]
  cases front.toList.head? with
  | none => simp [h]
  | some c => simp

/-- A joined path begins where its directory does. -/
theorem isAbsolute_join {name : String} (h : isAbsolute name = false) (directory : String) :
    isAbsolute (join directory name) = isAbsolute directory := by
  unfold join
  by_cases hempty : directory = ""
  · rw [if_pos (.inl hempty), isAbsolute_append h]
  · have hslash : isAbsolute (directory ++ "/") = isAbsolute directory := by
      have hne : directory.toList ≠ [] := by simpa using hempty
      obtain ⟨c, cs, hchars⟩ := List.exists_cons_of_ne_nil hne
      simp [isAbsolute, hchars]
    split
    · rw [isAbsolute_append h]
    · rw [isAbsolute_append h, hslash]

/-! ## Names of declaration files -/

/-- A name loses its ending `.proto`, if it has one, and nothing else. -/
theorem eq_stem_or (source : String) : source = stem source ∨ source = stem source ++ ".proto" := by
  by_cases hending : HasEnding source
  · exact .inr (eq_stem_append hending)
  · exact .inl (stem_of_not_hasEnding hending).symm

/-- **The name of a declaration file** differs from the path of its source in the last segment. -/
theorem segments_nameFor (source : String) :
    ∃ last, segments (Output.nameFor source) =
      (segments source).dropLast ++ [last ++ ".d.ts"] := by
  have hending : '/' ∉ ".d.ts".toList := by decide
  have hproto : '/' ∉ ".proto".toList := by decide
  obtain ⟨front, last, hstem, hname⟩ := Text.split_append_of_notMem hending (stem source)
  have hfront : (segments source).dropLast = front := by
    rcases eq_stem_or source with hsource | hsource
    · rw [hsource, segments, hstem, List.dropLast_concat]
    · obtain ⟨front', last', hstem', hfull⟩ := Text.split_append_of_notMem hproto (stem source)
      rw [hsource, segments, hfull, List.dropLast_concat]
      exact (List.append_inj' (hstem'.symm.trans hstem) rfl).1
  exact ⟨last, by rw [hfront]; exact hname⟩

theorem isAbsolute_nameFor (source : String) :
    isAbsolute (Output.nameFor source) = isAbsolute source := by
  rw [Output.nameFor, isAbsolute_append (by decide)]
  rcases eq_stem_or source with hsource | hsource
  · rw [← hsource]
  · conv_rhs => rw [hsource, isAbsolute_append (by decide)]

/-- A segment with the ending of declaration files leads somewhere, and not up. -/
theorem IsTyping.step {segment : String} (h : IsTyping segment) :
    isIdle segment = false ∧ segment ≠ ".." := by
  obtain ⟨front, rfl⟩ := h
  -- the ending alone is longer than what it is told apart from
  have hlong (short : String) (hshort : short.length < 5) : front ++ ".d.ts" ≠ short := by
    rintro rfl
    have hending : ".d.ts".length = 5 := by decide
    rw [String.length_append] at hshort
    omega
  have hempty := hlong "" (by decide)
  have hdot := hlong "." (by decide)
  exact ⟨by simp [isIdle, hempty, hdot], hlong ".." (by decide)⟩

theorem escapes_eq_false_iff {path : String} :
    escapes path = false ↔ path.toList.head? ≠ some '/' ∧ ".." ∉ segments path := by
  simp [escapes, isAbsolute]

/-- Whether a name is refused can be seen from the path of the source: its last segment does not
matter, whatever it is. -/
theorem escapes_nameFor_iff {source : String} :
    escapes (Output.nameFor source) = false ↔
      source.toList.head? ≠ some '/' ∧ ".." ∉ (segments source).dropLast := by
  obtain ⟨last, hname⟩ := segments_nameFor source
  have hlast : last ++ ".d.ts" ≠ ".." := (IsTyping.step ⟨last, rfl⟩).2
  have habsolute := isAbsolute_nameFor source
  unfold isAbsolute at habsolute
  rw [decide_eq_decide] at habsolute
  rw [escapes_eq_false_iff, hname, Ne, habsolute, List.mem_append, List.mem_singleton, not_or]
  simp [hlast.symm]

/-- The steps of a name that is not refused lead down to a declaration file. -/
theorem steps_nameFor {source : String} (h : escapes (Output.nameFor source) = false) :
    ∃ inner last, steps (Output.nameFor source) = inner ++ [last] ∧
      (∀ step ∈ inner ++ [last], step ≠ "..") ∧ IsTyping last := by
  obtain ⟨last, hname⟩ := segments_nameFor source
  have htyping : IsTyping (last ++ ".d.ts") := ⟨last, rfl⟩
  have hsteps : steps (Output.nameFor source) =
      (segments source).dropLast.filter (!isIdle ·) ++ [last ++ ".d.ts"] := by
    rw [steps, hname, List.filter_append]
    simp [htyping.step.1]
  refine ⟨_, _, hsteps, ?_, htyping⟩
  rw [← hsteps]
  rintro step hstep rfl
  rw [steps] at hstep
  exact (escapes_eq_false_iff.1 h).2 (List.mem_of_mem_filter hstep)

end Path

namespace Invocation

/-- **Output paths stay inside.** A declaration file gets a path just when its name does not begin
with a slash and none of its segments leads up, which is so just when the path of its source does
not begin with a slash and none of its segments but the last leads up. The path begins where the
output directory does and takes the steps of the directory, and after them at least one more; none
of those leads up, and the last one has the ending of declaration files. -/
theorem outputPath_confined (invocation : Invocation) (output : Output)
    (hname : output.name = Output.nameFor output.source) :
    ((∃ path, invocation.outputPath output = .ok path) ↔
      output.name.toList.head? ≠ some '/' ∧ ".." ∉ Path.segments output.name) ∧
    ((∃ path, invocation.outputPath output = .ok path) ↔
      output.source.toList.head? ≠ some '/' ∧ ".." ∉ (Path.segments output.source).dropLast) ∧
    ∀ path, invocation.outputPath output = .ok path →
      Path.isAbsolute path = Path.isAbsolute invocation.output ∧
      ∃ inner last, Path.steps path = Path.steps invocation.output ++ (inner ++ [last]) ∧
        (∀ step ∈ inner ++ [last], step ≠ "..") ∧ Path.IsTyping last := by
  have hsucceeds : (∃ path, invocation.outputPath output = .ok path) ↔
      Path.escapes output.name = false := by
    simp only [outputPath_eq_ok_iff, exists_and_left, exists_eq, and_true]
  refine ⟨hsucceeds.trans Path.escapes_eq_false_iff, ?_, fun path hpath => ?_⟩
  · rw [hsucceeds, hname, Path.escapes_nameFor_iff]
  · obtain ⟨hinside, rfl⟩ := outputPath_eq_ok_iff.1 hpath
    have hrelative : Path.isAbsolute output.name = false := by
      simpa [Path.isAbsolute] using (Path.escapes_eq_false_iff.1 hinside).1
    rw [hname] at hinside
    obtain ⟨inner, last, hsteps, hdown, htyping⟩ := Path.steps_nameFor hinside
    refine ⟨Path.isAbsolute_join hrelative _, inner, last, ?_, hdown, htyping⟩
    rw [Path.steps_join, hname, hsteps]

/-- Two dots in front of the ending are no step up, and slashes and dots on the way do not count. -/
theorem outputPath_confined_dots :
    ∃ path inner last, Invocation.outputPath { output := "../out//./" }
        ⟨"./a//..proto", "./a//..d.ts", ""⟩ = .ok path ∧
      Path.isAbsolute path = false ∧
      Path.steps path = ["..", "out"] ++ (inner ++ [last]) ∧
      (∀ step ∈ inner ++ [last], step ≠ "..") ∧ Path.IsTyping last := by
  obtain ⟨-, hsource, hinside⟩ := outputPath_confined { output := "../out//./" }
    ⟨"./a//..proto", "./a//..d.ts", ""⟩ (by decide)
  obtain ⟨path, hpath⟩ := hsource.2 (by decide)
  obtain ⟨hroot, inner, last, hsteps, hdown, htyping⟩ := hinside path hpath
  have houtput : Path.steps "../out//./" = ["..", "out"] := by decide
  have hrelative : Path.isAbsolute "../out//./" = false := by decide
  exact ⟨path, inner, last, hpath, hroot.trans hrelative, houtput ▸ hsteps, hdown, htyping⟩

end Invocation
end ProtoTypings
