import ProtoTypings.Proofs.CatalogExact
import ProtoTypings.Proofs.TypingFaults
import ProtoTypings.Proofs.WrittenFiles
/-!
# Overlapping descriptor sets

Descriptor sets are written with all that they import, so the same file is often
found in several of them. A run takes each file from the first set that has it.
How files are spread over the sets, how often they are repeated and in which order
they come does not show in what is generated, as long as a path always stands for
the same file.

**Sets.** `invocation.Decodes machine sets`: the run finds these descriptor sets, in
this order, and each of them can be read. `invocation.Generates machine result`: the
run ends as far as its declaration files go, with these or with a fault.

**Results.**
* `File.firstOfPath_eq_eraseDupsBy`: of the files of one path the first is kept.
* `File.firstOfPath_perm`: what is kept does not depend on order and repetition.
* `Invocation.outputs_of_perm`: neither does what is generated.
* `Invocation.outputs_ne_unknownFile`: a run that asks for no files in particular
  finds all that it asks for.
* `Invocation.outputsEnd_of_perm`: nor does whether generation ends.
* `Invocation.overlaps_harmless`: all of it for two runs.
-/
namespace ProtoTypings

/-! ## The first file of a path -/

namespace File

theorem firstOfPath_eq_filter (seen : List String) (all : List File) :
    firstOfPath seen all =
      (all.filter (·.path ∉ seen)).eraseDupsBy (fun a b => a.path == b.path) := by
  induction all generalizing seen with
  | nil => rfl
  | cons file rest ih =>
    rw [firstOfPath]
    by_cases h : file.path ∈ seen
    · rw [if_pos h, ih, List.filter_cons_of_neg (by simpa using h)]
    · rw [if_neg h, ih, List.filter_cons_of_pos (by simpa using h), List.eraseDupsBy_cons,
        List.filter_filter]
      congr 2
      refine List.filter_congr fun other _ => ?_
      rw [Bool.eq_iff_iff]
      simp

/-- Later files of a path that was met are dropped. -/
theorem firstOfPath_eq_eraseDupsBy (all : List File) :
    firstOfPath [] all = all.eraseDupsBy (fun a b => a.path == b.path) := by
  rw [firstOfPath_eq_filter]
  simp

theorem firstOfPath_sublist (seen : List String) (all : List File) :
    (firstOfPath seen all).Sublist all := by
  induction all generalizing seen with
  | nil => exact List.Sublist.refl _
  | cons file rest ih =>
    rw [firstOfPath]
    split
    · exact (ih seen).cons file
    · exact (ih _).cons_cons file

theorem mem_paths_firstOfPath {seen : List String} {all : List File} {path : String} :
    path ∈ (firstOfPath seen all).map File.path ↔ path ∈ all.map File.path ∧ path ∉ seen := by
  induction all generalizing seen with
  | nil => simp [firstOfPath]
  | cons file rest ih =>
    rw [firstOfPath]
    split
    · next h =>
      rw [ih, List.map_cons, List.mem_cons]
      constructor
      · exact fun hrest => ⟨.inr hrest.1, hrest.2⟩
      · rintro ⟨rfl | hrest, hseen⟩
        · exact absurd h hseen
        · exact ⟨hrest, hseen⟩
    · next h =>
      rw [List.map_cons, List.map_cons, List.mem_cons, List.mem_cons, ih, List.mem_cons, not_or]
      by_cases hpath : path = file.path
      · simp [hpath, h]
      · simp [hpath]

theorem paths_nodup_firstOfPath (seen : List String) (all : List File) :
    ((firstOfPath seen all).map File.path).Nodup := by
  induction all generalizing seen with
  | nil => exact List.nodup_nil
  | cons file rest ih =>
    rw [firstOfPath]
    split
    · exact ih seen
    · rw [List.map_cons, List.nodup_cons, mem_paths_firstOfPath]
      exact ⟨fun h => h.2 List.mem_cons_self, ih _⟩

/-- Where a path stands for one file, none is lost. -/
theorem mem_firstOfPath_iff {all : List File}
    (hunique : ∀ a ∈ all, ∀ b ∈ all, a.path = b.path → a = b) {file : File} :
    file ∈ firstOfPath [] all ↔ file ∈ all := by
  constructor
  · exact fun h => (firstOfPath_sublist [] all).subset h
  · intro h
    have hpath : file.path ∈ (firstOfPath [] all).map File.path :=
      mem_paths_firstOfPath.2 ⟨List.mem_map_of_mem h, List.not_mem_nil⟩
    obtain ⟨kept, hkept, heq⟩ := List.mem_map.1 hpath
    rwa [← hunique kept ((firstOfPath_sublist [] all).subset hkept) file h heq]

/-- **What is kept** of two lists with the same files differs in its order alone. -/
theorem firstOfPath_perm {all all' : List File} (hsame : ∀ file, file ∈ all ↔ file ∈ all')
    (hunique : ∀ a ∈ all, ∀ b ∈ all, a.path = b.path → a = b) :
    (firstOfPath [] all).Perm (firstOfPath [] all') := by
  have hunique' : ∀ a ∈ all', ∀ b ∈ all', a.path = b.path → a = b := fun a ha b hb =>
    hunique a ((hsame a).2 ha) b ((hsame b).2 hb)
  rw [List.perm_ext_iff_of_nodup (List.Nodup.of_map _ (paths_nodup_firstOfPath [] all))
    (List.Nodup.of_map _ (paths_nodup_firstOfPath [] all'))]
  intro file
  rw [mem_firstOfPath_iff hunique, mem_firstOfPath_iff hunique', hsame]

end File

/-! ## What is generated -/

/-- A run that succeeds does so in every order of its files, with the same outputs. -/
theorem Catalog.generate_ok_of_perm {files files' : List File} {request request' : List String}
    (hpaths : (files.map File.path).Nodup) (hfiles : files.Perm files')
    (hrequest : ∀ path, path ∈ request ↔ path ∈ request') {settings : Settings}
    {outputs : List Output} (h : generate settings files request = .ok outputs) :
    generate settings files' request' = .ok outputs := by
  obtain ⟨catalog, hcatalog, houtputs⟩ := Catalog.generate_eq_ok_iff.1 h
  obtain ⟨catalog', hcatalog'⟩ := Catalog.exists_ofFiles_of_perm hfiles hcatalog
  refine Catalog.generate_eq_ok_iff.2 ⟨catalog', hcatalog', ?_⟩
  rw [← requestedPaths_eq_of_mem_iff hrequest]
  refine houtputs.imp fun path output houtput => ?_
  rwa [Catalog.output_eq_of_perm hfiles hcatalog hcatalog' hpaths]

/-- A file that the catalog has is never reported as unknown. -/
theorem Catalog.output_ne_unknownFile {catalog : Catalog} {path : String} {file : File}
    (hfile : catalog.file? path = some file) (settings : Settings) (unknown : String) :
    catalog.output settings path ≠ .error (.unknownFile unknown) := by
  intro h
  rw [output_eq_map] at h
  obtain ⟨typing, last, hyields⟩ | ⟨fault, last, hfails⟩ :=
    ResolveM.yields_or_fails (file.typing settings) (Resolver.ofFile catalog path)
  · rw [typings_of_yields hfile hyields, Outline.ofTyping] at h
    split at h <;> cases h
  · rw [typings_of_fails hfile hfails] at h
    cases h
    exact (File.isTypeFault_of_fails hfails).elim

/-- A run that asks only for files that it has reports none as unknown. -/
theorem Catalog.generate_ne_unknownFile {files : List File} {request : List String}
    (h : ∀ path ∈ request, path ∈ files.map File.path) (settings : Settings) (unknown : String) :
    generate settings files request ≠ .error (.unknownFile unknown) := by
  intro hfault
  cases hfiles : ofFiles files with
  | error fault =>
    have hsame : generate settings files request = .error fault := by
      rw [generate, hfiles]
      rfl
    rw [hsame] at hfault
    cases hfault
    cases firstFault_of_ofFiles hfiles
  | ok catalog =>
    have hanswers := answers_generate hfiles settings request
    rw [hfault] at hanswers
    cases hanswers with
    | missing hfirst =>
      obtain ⟨file, hfile, hpath⟩ := List.mem_map.1 (h unknown hfirst.mem)
      have hnone := hfirst.holds
      rw [file?, files_of_ofFiles hfiles, List.find?_eq_none] at hnone
      exact hnone file hfile (by simpa using hpath)
    | failing hall hfirst houtput =>
      obtain ⟨file, hfile⟩ := hall _ hfirst.mem
      exact output_ne_unknownFile hfile settings unknown houtput

namespace Invocation

variable {invocation left right : Invocation} {files files' : List File}

theorem outputs_eq_generation {fault : Fault}
    (h : invocation.outputs files = .error (.generation fault)) :
    ∃ settings, generate settings files (invocation.request files) = .error fault := by
  cases files with
  | nil => cases h
  | cons file rest =>
    unfold Invocation.outputs at h
    rw [List.isEmpty_cons] at h
    cases hsettings : Settings.ofParameter invocation.parameter with
    | error fault' => simp [bind, Except.bind, hsettings] at h
    | ok settings =>
      refine ⟨settings, ?_⟩
      simp only [bind, Except.bind, hsettings, Bool.false_eq_true, if_false] at h
      cases hrun : generate settings (file :: rest) (invocation.request (file :: rest)) <;>
        simp_all [request]

/-- A run that asks for no files in particular finds all that it asks for. -/
theorem outputs_ne_unknownFile (h : invocation.files = []) (files : List File)
    (unknown : String) :
    invocation.outputs files ≠ .error (.generation (.unknownFile unknown)) := by
  intro hfault
  obtain ⟨settings, hrun⟩ := outputs_eq_generation hfault
  refine Catalog.generate_ne_unknownFile (fun path hpath => ?_) settings unknown hrun
  rw [request, h] at hpath
  exact hpath

/-- Runs that name the same files ask for the same paths. -/
theorem mem_request_iff (hfiles : ∀ path, path ∈ left.files ↔ path ∈ right.files)
    (hperm : files.Perm files') (path : String) :
    path ∈ left.request files ↔ path ∈ right.request files' := by
  have hempty : left.files = [] ↔ right.files = [] := by
    simp only [List.eq_nil_iff_forall_not_mem, hfiles]
  unfold request
  by_cases h : left.files = []
  · rw [h, hempty.1 h]
    exact (hperm.map File.path).mem_iff
  · have h' : right.files ≠ [] := mt hempty.2 h
    rw [if_neg (by simpa using h), if_neg (by simpa using h'), hfiles]

/-- **What is generated** from files in one order is generated in any other. -/
theorem outputs_of_perm (hparameter : left.parameter = right.parameter)
    (hfiles : ∀ path, path ∈ left.files ↔ path ∈ right.files)
    (hpaths : (files.map File.path).Nodup) (hperm : files.Perm files') {outputs : List Output}
    (h : left.outputs files = .ok outputs) : right.outputs files' = .ok outputs := by
  obtain ⟨hne, settings, hsettings, hrun⟩ := outputs_eq_ok_iff.1 h
  refine outputs_eq_ok_iff.2 ⟨fun hnil => hne ?_, settings, hparameter ▸ hsettings, ?_⟩
  · rw [hnil] at hperm
    exact hperm.eq_nil
  · exact Catalog.generate_ok_of_perm hpaths hperm (mem_request_iff hfiles hperm) hrun

/-- Generation ends on the given files, if the run comes to it. -/
def OutputsEnd (invocation : Invocation) (files : List File) : Prop :=
  files ≠ [] → ∀ settings, Settings.ofParameter invocation.parameter = .ok settings →
    GenerationEnds settings files (invocation.request files)

theorem outputsEnd_of_perm (hparameter : left.parameter = right.parameter)
    (hfiles : ∀ path, path ∈ left.files ↔ path ∈ right.files)
    (hpaths : (files.map File.path).Nodup) (hperm : files.Perm files')
    (h : left.OutputsEnd files) : right.OutputsEnd files' := by
  intro hne settings hsettings
  refine Catalog.generationEnds_of_perm hpaths hperm (mem_request_iff hfiles hperm)
    (h (fun hnil => hne ?_) settings (hparameter ▸ hsettings))
  rw [hnil] at hperm
  exact hperm.nil_eq.symm

theorem exists_nameless_of_not_outputsEnd (h : ¬ invocation.OutputsEnd files) :
    ∃ file ∈ files, file.packageName = "" ∧ ∃ m ∈ file.messages, m.name = "" := by
  by_contra hnone
  refine h fun _ settings _ => ?_
  by_contra hends
  exact hnone (exists_nameless_of_not_ends hends)

/-! ## Two runs -/

/-- The run finds the given descriptor sets, in this order. -/
def Decodes (invocation : Invocation) (machine : Machine) (sets : List (List File)) : Prop :=
  ∃ paths, (invocation.setPaths : MachineM (List String)).run.run machine = (.ok paths, machine) ∧
    (paths.mapM loadSet : MachineM (List (List File))).run.run machine = (.ok sets, machine)

/-- The run loads the given files and leaves the machine alone. -/
def Loads (invocation : Invocation) (machine : Machine) (files : List File) : Prop :=
  (invocation.load : MachineM (List File)).run.run machine = (.ok files, machine)

theorem decodes_of_disk {machine : Machine} {paths : List String} {sets : List (List File)}
    (hpaths : invocation.setPathsOn machine.disk = .ok paths)
    (hsets : paths.mapM machine.disk.loadSet = .ok sets) : invocation.Decodes machine sets := by
  refine ⟨paths, ?_, ?_⟩
  · rw [reads_setPaths, hpaths]
  · exact (MachineM.Reads.mapM reads_loadSet paths machine).trans (congrArg (·, machine) hsets)

theorem Decodes.loads {machine : Machine} {sets : List (List File)}
    (h : invocation.Decodes machine sets) :
    invocation.Loads machine (File.firstOfPath [] sets.flatten) := by
  obtain ⟨paths, hpaths, hsets⟩ := h
  unfold Loads load
  rw [MachineM.run_bind_ok hpaths, MachineM.run_bind_ok hsets]
  rfl

theorem Loads.generated_eq {machine : Machine} (h : invocation.Loads machine files) :
    invocation.generated machine = invocation.outputs files := by
  have hload : invocation.loadFrom machine.disk = .ok files := by
    have hreads := reads_load invocation machine
    exact (Prod.mk.inj (hreads.symm.trans h)).1
  rw [Invocation.generated_eq, hload]
  rfl

/-- The run comes to an end with its declaration files, or fails before it delivers
any. -/
structure Generates (invocation : Invocation) (machine : Machine)
    (result : Except RunFault (List Output)) : Prop where
  generated_eq : invocation.generated machine = result
  ends : ∀ files, invocation.Loads machine files → invocation.OutputsEnd files

theorem Loads.eq {machine : Machine} (h : invocation.Loads machine files)
    (h' : invocation.Loads machine files') : files = files' := by
  cases (Prod.mk.inj (h.symm.trans h')).1
  rfl

theorem Loads.generates {machine : Machine} (h : invocation.Loads machine files)
    (hends : invocation.OutputsEnd files) :
    invocation.Generates machine (invocation.outputs files) :=
  ⟨h.generated_eq, fun _ hfiles => h.eq hfiles ▸ hends⟩

theorem Loads.not_generates {machine : Machine} (h : invocation.Loads machine files)
    (hends : ¬ invocation.OutputsEnd files) (result : Except RunFault (List Output)) :
    ¬ invocation.Generates machine result :=
  fun hgenerates => hends (hgenerates.ends files h)

/-- **Overlapping sets are harmless.** Let two runs find the same files in their
descriptor sets, in any order and grouping and with any repetitions, where a path
always stands for the same file, and let them name the same parameter and the same
files to generate. Both load every file once, in lists that differ in their order
alone. Both generate the same, or both fail, unless neither ends, which takes a
message without a name in a file without a package. Where no files are named, no
file is reported as unknown. -/
theorem overlaps_harmless {machine machine' : Machine} {sets sets' : List (List File)}
    (hleft : left.Decodes machine sets) (hright : right.Decodes machine' sets')
    (hsame : ∀ file, file ∈ sets.flatten ↔ file ∈ sets'.flatten)
    (hunique : ∀ a ∈ sets.flatten, ∀ b ∈ sets.flatten, a.path = b.path → a = b)
    (hparameter : left.parameter = right.parameter)
    (hfiles : ∀ path, path ∈ left.files ↔ path ∈ right.files) :
    (∃ files files', left.Loads machine files ∧ right.Loads machine' files' ∧
      files = sets.flatten.eraseDupsBy (fun a b => a.path == b.path) ∧
      files' = sets'.flatten.eraseDupsBy (fun a b => a.path == b.path) ∧
      (files.map File.path).Nodup ∧ (files'.map File.path).Nodup ∧ files.Perm files') ∧
    ((∃ outputs, left.Generates machine (.ok outputs) ∧ right.Generates machine' (.ok outputs)) ∨
      (∃ fault fault', left.Generates machine (.error fault) ∧
        right.Generates machine' (.error fault')) ∨
      (∀ result, ¬ left.Generates machine result) ∧
        (∀ result, ¬ right.Generates machine' result) ∧
        ∃ file ∈ sets.flatten, file.packageName = "" ∧ ∃ m ∈ file.messages, m.name = "") ∧
    (left.files = [] → ∀ path,
      left.generated machine ≠ .error (.generation (.unknownFile path)) ∧
        right.generated machine' ≠ .error (.generation (.unknownFile path))) := by
  have hperm := File.firstOfPath_perm hsame hunique
  have hnodup := File.paths_nodup_firstOfPath [] sets.flatten
  have hnodup' := File.paths_nodup_firstOfPath [] sets'.flatten
  have hfiles' : ∀ path, path ∈ right.files ↔ path ∈ left.files := fun path => (hfiles path).symm
  refine ⟨⟨_, _, hleft.loads, hright.loads, File.firstOfPath_eq_eraseDupsBy _,
    File.firstOfPath_eq_eraseDupsBy _, hnodup, hnodup', hperm⟩, ?_, fun hnone path => ?_⟩
  · by_cases hends : left.OutputsEnd (File.firstOfPath [] sets.flatten)
    · have hgenerates := hleft.loads.generates hends
      have hgenerates' := hright.loads.generates
        (outputsEnd_of_perm hparameter hfiles hnodup hperm hends)
      cases hrun : left.outputs (File.firstOfPath [] sets.flatten) with
      | ok outputs =>
        rw [hrun] at hgenerates
        rw [outputs_of_perm hparameter hfiles hnodup hperm hrun] at hgenerates'
        exact .inl ⟨outputs, hgenerates, hgenerates'⟩
      | error fault =>
        rw [hrun] at hgenerates
        cases hrun' : right.outputs (File.firstOfPath [] sets'.flatten) with
        | error fault' =>
          rw [hrun'] at hgenerates'
          exact .inr (.inl ⟨fault, fault', hgenerates, hgenerates'⟩)
        | ok outputs =>
          have hback := outputs_of_perm hparameter.symm hfiles' hnodup' hperm.symm hrun'
          rw [hrun] at hback
          cases hback
    · have hends' : ¬ right.OutputsEnd (File.firstOfPath [] sets'.flatten) := fun hends' =>
        hends (outputsEnd_of_perm hparameter.symm hfiles' hnodup' hperm.symm hends')
      obtain ⟨file, hfile, hnameless⟩ := exists_nameless_of_not_outputsEnd hends
      exact .inr (.inr ⟨hleft.loads.not_generates hends, hright.loads.not_generates hends',
        file, (File.firstOfPath_sublist [] _).subset hfile, hnameless⟩)
  · have hnone' : right.files = [] := by
      rw [List.eq_nil_iff_forall_not_mem]
      intro path hpath
      rw [← hfiles, hnone] at hpath
      cases hpath
    rw [hleft.loads.generated_eq, hright.loads.generated_eq]
    exact ⟨outputs_ne_unknownFile hnone _ path, outputs_ne_unknownFile hnone' _ path⟩

end Invocation

namespace Sample

/-- The second file of `slashes` in a set of its own. -/
def slashSet : ByteArray :=
  ⟨#[0x0A, 11, 0x0A, 9, 0x61, 0x2F, 0x62, 0x2E, 0x70, 0x72, 0x6F, 0x74, 0x6F]⟩

def slash : List File := [{ name := some "a/b.proto" }]

def overlapMachine : Machine :=
  { disk := { entries := [("/in.pb", .file slashesSet), ("/x.pb", .file slashSet)] } }

def overlapInvocation : Invocation :=
  { descriptorSets := ["x.pb", "in.pb", "x.pb"], mode := .write true }

theorem slashes_decodes : slashesInvocation.Decodes slashesMachine [slashes] := by
  have hread : slashesMachine.disk.read "in.pb" = .ok slashesSet := rfl
  have hdecode : File.decodeSet slashesSet.data.toList = some slashes := by with_unfolding_all rfl
  refine Invocation.decodes_of_disk rfl (mapM_eq_ok_iff.2 (.cons ?_ .nil))
  exact Disk.loadSet_eq_ok_iff.2 ⟨_, hread, hdecode⟩

theorem overlap_decodes :
    overlapInvocation.Decodes overlapMachine [slash, slashes, slash] := by
  have hslashes : overlapMachine.disk.loadSet "in.pb" = .ok slashes :=
    Disk.loadSet_eq_ok_iff.2 ⟨slashesSet, rfl, by with_unfolding_all rfl⟩
  have hslash : overlapMachine.disk.loadSet "x.pb" = .ok slash :=
    Disk.loadSet_eq_ok_iff.2 ⟨slashSet, rfl, by with_unfolding_all rfl⟩
  exact Invocation.decodes_of_disk rfl
    (mapM_eq_ok_iff.2 (.cons hslash (.cons hslashes (.cons hslash .nil))))

end Sample

/-- The same two files, once from one set and once from three that overlap. -/
theorem Invocation.overlaps_harmless_slashes :
    Sample.slashesInvocation.Decodes Sample.slashesMachine [Sample.slashes] ∧
    Sample.overlapInvocation.Decodes Sample.overlapMachine
      [Sample.slash, Sample.slashes, Sample.slash] ∧
    ∃ outputs, outputs.length = 2 ∧
      Sample.slashesInvocation.Generates Sample.slashesMachine (.ok outputs) ∧
      Sample.overlapInvocation.Generates Sample.overlapMachine (.ok outputs) := by
  have hsame : ∀ file, file ∈ [Sample.slashes].flatten ↔
      file ∈ [Sample.slash, Sample.slashes, Sample.slash].flatten := by
    intro file
    simp only [Sample.slash, Sample.slashes, List.flatten_cons, List.flatten_nil,
      List.cons_append, List.nil_append, List.mem_cons]
    tauto
  have hunique : ∀ a ∈ [Sample.slashes].flatten, ∀ b ∈ [Sample.slashes].flatten,
      a.path = b.path → a = b := by
    simp [Sample.slashes, File.path]
  obtain ⟨first, second, hgenerated⟩ := Sample.slashes_generated
  obtain ⟨-, hboth, -⟩ := overlaps_harmless Sample.slashes_decodes Sample.overlap_decodes hsame
    hunique rfl (fun _ => Iff.rfl)
  refine ⟨Sample.slashes_decodes, Sample.overlap_decodes, ?_⟩
  obtain ⟨outputs, hleft, hright⟩ | ⟨fault, -, hleft, -⟩ | ⟨-, -, file, hfile, -, m, hm, -⟩ := hboth
  · refine ⟨outputs, ?_, hleft, hright⟩
    have hsame := hgenerated.symm.trans hleft.generated_eq
    cases hsame
    rfl
  · have hsame := hgenerated.symm.trans hleft.generated_eq
    cases hsame
  · have hempty : ∀ file ∈ [Sample.slashes].flatten, file.messages = [] := by
      simp [Sample.slashes]
    rw [hempty file hfile] at hm
    cases hm

namespace Sample

/-- A descriptor set with `root` and `caller`. -/
def endlessSet : ByteArray :=
  ⟨#[0x0A, 11, 0x0A, 7, 0x65, 0x2E, 0x70, 0x72, 0x6F, 0x74, 0x6F, 0x22, 0,
     0x0A, 54, 0x0A, 7, 0x73, 0x2E, 0x70, 0x72, 0x6F, 0x74, 0x6F, 0x12, 3, 0x70, 0x6B, 0x67,
     0x22, 5, 0x0A, 3, 0x52, 0x65, 0x71, 0x32, 31, 0x0A, 1, 0x53, 0x12, 26, 0x0A, 4, 0x43, 0x61,
     0x6C, 0x6C, 0x12, 8, 0x2E, 0x70, 0x6B, 0x67, 0x2E, 0x52, 0x65, 0x71,
     0x1A, 8, 0x2E, 0x70, 0x6B, 0x67, 0x2E, 0x52, 0x65, 0x71]⟩

def endlessMachine : Machine := { disk := { entries := [("/in.pb", .file endlessSet)] } }

def endlessInvocation : Invocation := { descriptorSets := ["in.pb"], files := ["s.proto"] }

theorem endless_decodes : endlessInvocation.Decodes endlessMachine [[root, caller]] := by
  have hset : endlessMachine.disk.loadSet "in.pb" = .ok [root, caller] :=
    Disk.loadSet_eq_ok_iff.2 ⟨endlessSet, rfl, by with_unfolding_all rfl⟩
  exact Invocation.decodes_of_disk rfl (mapM_eq_ok_iff.2 (.cons hset .nil))

end Sample

/-- A set with a message without a name, for which a run may neither succeed nor fail. -/
theorem Invocation.generation_never_ends :
    Sample.endlessInvocation.Decodes Sample.endlessMachine [[Sample.root, Sample.caller]] ∧
      ∀ result, ¬ Sample.endlessInvocation.Generates Sample.endlessMachine result := by
  refine ⟨Sample.endless_decodes, Sample.endless_decodes.loads.not_generates fun hends => ?_⟩
  exact Sample.not_generationEnds (hends (List.cons_ne_nil _ _) {} rfl)

end ProtoTypings
