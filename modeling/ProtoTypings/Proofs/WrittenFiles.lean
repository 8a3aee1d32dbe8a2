import ProtoTypings.Proofs.MachineRun
/-!
# What a run does to the files

A run on descriptor sets writes the declaration files one after the other, and
stops at the first that it cannot write. What came before stays written, and
directories may have been made for the one that failed.

**The log.** `invocation.Log overwrite before written after`: the outputs of
`written` were written in this order, each at the place beside it, and took the
disk from `before` to `after`. Two outputs can go to one place, under names that
differ as texts.

**Results.**
* `Disk.Writes.file_iff`, `Disk.Writes.growsBy`: what one write changes.
* `Invocation.log_deliver`: every delivery has a log, complete exactly when it
  succeeds.
* `Invocation.Log.delivered`: what a log says about the files on the disk.
* `Invocation.run_touches_outputs_only`: all of it for the run of a command line.
-/
namespace ProtoTypings

/-! ## One write -/

namespace Disk.Writes

variable {overwrite : Bool} {path place : String} {content : ByteArray} {before after : Disk}

theorem keeps (h : Writes overwrite path content before place after) : before.Keeps after := by
  obtain ⟨hmade, -, hdirectory, -⟩ := h
  have hwidens := before.widens_makePath (Path.parent path)
  rw [hmade] at hwidens
  exact hwidens.keeps.trans (keeps_put hdirectory _)

theorem locate (h : Writes overwrite path content before place after) :
    after.locate path = .ok place := by
  obtain ⟨-, hplace, hdirectory, -⟩ := h
  exact (keeps_put hdirectory _).locate hplace

theorem get? (h : Writes overwrite path content before place after) :
    after.get? place = some (.file content) := by
  obtain ⟨-, -, hdirectory, -⟩ := h
  exact get?_put_self hdirectory _

/-- A write leaves the files at other places alone. -/
theorem file_iff (h : Writes overwrite path content before place after) {other : String}
    (hother : other ≠ place) {found : ByteArray} :
    after.get? other = some (.file found) ↔ before.get? other = some (.file found) := by
  obtain ⟨hmade, -, hdirectory, -⟩ := h
  have hwidens := before.widens_makePath (Path.parent path)
  rw [hmade] at hwidens
  rw [get?_put hdirectory, if_neg hother, hwidens.file_iff]

/-- Where nothing is overwritten, the disk grows by a file and by directories. -/
theorem growsBy (h : Writes false path content before place after) :
    ∃ added, before.GrowsBy ((place, .file content) :: added) after ∧
      ∀ x ∈ added, x.2 = .directory := by
  obtain ⟨hmade, -, -, hnone⟩ := h
  obtain ⟨added, hgrows, hadded⟩ := before.widens_makePath (Path.parent path)
  rw [hmade] at hgrows
  exact ⟨added, hgrows.put _ (hnone rfl), hadded⟩

/-- The directories above a written file are there. -/
theorem makePath_again (h : Writes overwrite path content before place after) {later : Disk}
    (hkeeps : after.Keeps later) :
    later.makePath (Path.parent path) = (.ok (), later) := by
  obtain ⟨hmade, -, hdirectory, -⟩ := h
  exact Disk.makePath_again hmade ((keeps_put hdirectory _).trans hkeeps)

end Disk.Writes

/-! ## The log of a delivery -/

namespace Invocation

/-- The outputs `written` were written one after the other, each at the place
beside it. At the end directories may have been made in vain. -/
inductive Log (invocation : Invocation) (overwrite : Bool) :
    Disk → List (Output × String) → Disk → Prop
  | stop {before after : Disk} : before.Widens after → Log invocation overwrite before [] after
  | write {before mid after : Disk} {output : Output} {path place : String}
      {written : List (Output × String)} :
      invocation.outputPath output = .ok path →
      Disk.Writes overwrite path output.content.toUTF8 before place mid →
      Log invocation overwrite mid written after →
      Log invocation overwrite before ((output, place) :: written) after

theorem outputPath_eq_ok_iff {invocation : Invocation} {output : Output} {path : String} :
    invocation.outputPath output = .ok path ↔
      Path.escapes output.name = false ∧ path = Path.join invocation.output output.name := by
  unfold outputPath
  cases Path.escapes output.name <;> simp [eq_comm]

/-- What a run prints about the files that it writes. -/
def report (invocation : Invocation) (outputs : List Output) : String :=
  String.join (outputs.map fun output =>
    "Wrote " ++ Path.join invocation.output output.name ++ "\n")

theorem report_nil (invocation : Invocation) : invocation.report [] = "" := rfl

theorem report_cons (invocation : Invocation) (output : Output) (outputs : List Output) :
    invocation.report (output :: outputs) =
      "Wrote " ++ Path.join invocation.output output.name ++ "\n" ++ invocation.report outputs := by
  simp [report]

/-- Writes one output where it belongs. -/
def writeOne (invocation : Invocation) (overwrite : Bool) (output : Output) : MachineM Unit := do
  writeOutput overwrite (← invocation.outputPath output) output.content

theorem deliver_eq_forM {invocation : Invocation} {overwrite : Bool}
    (h : invocation.mode = .write overwrite) (outputs : List Output) :
    (invocation.deliver outputs : MachineM Unit) =
      outputs.forM (invocation.writeOne overwrite) := by
  unfold deliver
  rw [h]
  rfl

theorem run_writeOne {invocation : Invocation} {output : Output} {path : String}
    (h : invocation.outputPath output = .ok path) (overwrite : Bool) (machine : Machine) :
    (invocation.writeOne overwrite output).run.run machine =
      (writeOutput overwrite path output.content : MachineM Unit).run.run machine := by
  unfold writeOne
  rw [h, MachineM.run_bind_ok (MachineM.reads_lift (.ok path) machine)]

/-- An output is written and its path printed, or at most directories are made. -/
theorem writeOne_cases (invocation : Invocation) (overwrite : Bool) (output : Output)
    (machine : Machine) :
    (∃ path place after, invocation.outputPath output = .ok path ∧
      Disk.Writes overwrite path output.content.toUTF8 machine.disk place after ∧
      (invocation.writeOne overwrite output).run.run machine =
        (.ok (), { disk := after, printed := machine.printed ++ ("Wrote " ++ path ++ "\n") })) ∨
    ∃ fault disk, machine.disk.Widens disk ∧
      (invocation.writeOne overwrite output).run.run machine =
        (.error fault, { machine with disk := disk }) := by
  cases hpath : invocation.outputPath output with
  | error fault =>
    refine .inr ⟨fault, machine.disk, .refl _, ?_⟩
    unfold writeOne
    rw [hpath]
    exact MachineM.run_bind_error rfl
  | ok path =>
    rw [run_writeOne hpath]
    rcases writeOutput_cases overwrite path output.content machine with
      ⟨place, after, hwrites, hrun⟩ | ⟨fault, disk, hwidens, hrun⟩
    · exact .inl ⟨path, place, after, rfl, hwrites, hrun⟩
    · exact .inr ⟨fault, disk, hwidens, hrun⟩

/-- **Delivery has a log.** A prefix of the outputs is written and reported, and it
is all of them exactly when the delivery succeeds. -/
theorem log_deliver {invocation : Invocation} {overwrite : Bool}
    (hmode : invocation.mode = .write overwrite) (outputs : List Output) (machine : Machine) :
    ∃ result written after,
      (invocation.deliver outputs : MachineM Unit).run.run machine =
        (result, { disk := after
                   printed := machine.printed ++ invocation.report (written.map Prod.fst) }) ∧
      invocation.Log overwrite machine.disk written after ∧ written.map Prod.fst <+: outputs ∧
      (result = .ok () ↔ written.length = outputs.length) := by
  rw [deliver_eq_forM hmode]
  induction outputs generalizing machine with
  | nil =>
    refine ⟨.ok (), [], machine.disk, ?_, .stop (.refl _), List.nil_prefix, by simp⟩
    rw [List.map_nil, report_nil, String.append_empty]
    rfl
  | cons output rest ih =>
    rcases invocation.writeOne_cases overwrite output machine with
      ⟨path, place, mid, hpath, hwrites, hrun⟩ | ⟨fault, disk, hwidens, hrun⟩
    · obtain ⟨result, written, after, hrest, hlog, hprefix, hall⟩ :=
        ih { disk := mid, printed := machine.printed ++ ("Wrote " ++ path ++ "\n") }
      refine ⟨result, (output, place) :: written, after, ?_, .write hpath hwrites hlog, ?_, ?_⟩
      · refine (MachineM.run_bind_ok hrun).trans (hrest.trans ?_)
        rw [List.map_cons, report_cons, (outputPath_eq_ok_iff.1 hpath).2]
        simp only [String.append_assoc]
      · exact List.cons_prefix_cons.2 ⟨rfl, hprefix⟩
      · simpa using hall
    · -- a failure ends the loop, and nothing of the rest is tried
      refine ⟨.error fault, [], disk, ?_, .stop hwidens, List.nil_prefix, by simp⟩
      rw [List.map_nil, report_nil, String.append_empty]
      exact MachineM.run_bind_error hrun

/-! ## What a log says about the disk -/

namespace Log

variable {invocation : Invocation} {overwrite : Bool} {before after : Disk}
  {written : List (Output × String)}

theorem keeps (h : invocation.Log overwrite before written after) : before.Keeps after := by
  induction h with
  | stop hwidens => exact hwidens.keeps
  | write _ hwrites _ ih => exact hwrites.keeps.trans ih

/-- The paths of written outputs lead to their places, also after the writes that
followed. -/
theorem located (h : invocation.Log overwrite before written after) :
    ∀ w ∈ written, ∃ path, invocation.outputPath w.1 = .ok path ∧ after.locate path = .ok w.2 := by
  induction h with
  | stop _ => exact List.forall_mem_nil _
  | write hpath hwrites hlog ih =>
    exact List.forall_mem_cons.2 ⟨⟨_, hpath, hlog.keeps.locate hwrites.locate⟩, ih⟩

/-- Files at places that are not in the log stay, and none come. -/
theorem file_iff (h : invocation.Log overwrite before written after) {place : String}
    (hplace : place ∉ written.map Prod.snd) {content : ByteArray} :
    after.get? place = some (.file content) ↔ before.get? place = some (.file content) := by
  induction h with
  | stop hwidens => exact hwidens.file_iff
  | write _ hwrites _ ih =>
    rw [List.map_cons, List.mem_cons, not_or] at hplace
    rw [ih hplace.2, hwrites.file_iff hplace.1]

/-- The last write to a place holds. -/
theorem get?_of_last (h : invocation.Log overwrite before written after)
    {earlier later : List (Output × String)} {output : Output} {place : String}
    (hsplit : written = earlier ++ (output, place) :: later)
    (hlast : place ∉ later.map Prod.snd) :
    after.get? place = some (.file output.content.toUTF8) := by
  induction h generalizing earlier with
  | stop _ => simp at hsplit
  | write _ hwrites hlog ih =>
    cases earlier with
    | nil =>
      obtain ⟨hhead, rfl⟩ := List.cons.inj hsplit
      obtain ⟨rfl, rfl⟩ := Prod.mk.inj hhead
      exact (hlog.file_iff hlast).2 hwrites.get?
    | cons first earlier => exact ih (List.cons.inj hsplit).2

/-- Where nothing is overwritten, the disk grows by directories and by the written
files. -/
theorem growsBy (h : invocation.Log false before written after) :
    ∃ added, before.GrowsBy added after ∧
      ∀ x ∈ added, x.2 = .directory ∨ x.1 ∈ written.map Prod.snd := by
  induction h with
  | stop hwidens =>
    obtain ⟨added, hgrows, hadded⟩ := hwidens
    exact ⟨added, hgrows, fun x hx => .inl (hadded x hx)⟩
  | write _ hwrites _ ih =>
    obtain ⟨first, hfirst, hdirectories⟩ := hwrites.growsBy
    obtain ⟨added, hgrows, hadded⟩ := ih
    refine ⟨_, hfirst.trans hgrows, fun x hx => ?_⟩
    rcases List.mem_append.1 hx with hx | hx
    · exact (hadded x hx).imp_right (List.mem_cons_of_mem _)
    · rcases List.mem_cons.1 hx with rfl | hx
      · exact .inr List.mem_cons_self
      · exact .inl (hdirectories x hx)

/-- Where nothing is overwritten, places of the log held nothing, and none occurs
twice. -/
theorem fresh (h : invocation.Log false before written after) :
    (∀ w ∈ written, before.get? w.2 = none) ∧ (written.map Prod.snd).Nodup := by
  induction h with
  | stop _ => exact ⟨List.forall_mem_nil _, List.nodup_nil⟩
  | @write before mid after output path place written _ hwrites _ ih =>
    obtain ⟨hnone, hnodup⟩ := ih
    obtain ⟨added, hgrows, -⟩ := hwrites.growsBy
    obtain ⟨hmade, hplace, -, hfree⟩ := hwrites
    obtain ⟨_, hwidened, -⟩ := before.widens_makePath (Path.parent path)
    rw [hmade] at hwidened
    refine ⟨List.forall_mem_cons.2 ⟨hwidened.get?_eq_none (hfree rfl), fun w hw => ?_⟩, ?_⟩
    · exact hgrows.get?_eq_none (hnone w hw)
    · refine List.nodup_cons.2 ⟨fun hmem => ?_, hnodup⟩
      -- the place holds a file when the rest of the log begins
      obtain ⟨w, hw, rfl⟩ := List.mem_map.1 hmem
      have hempty := hnone w hw
      rw [Disk.get?_put_self (by rw [hfree rfl]; simp)] at hempty
      cases hempty

end Log

/-- What a run that writes has done to a disk when it ends. The outputs of `written`
were written, each at the place beside it. -/
structure Delivered (invocation : Invocation) (overwrite : Bool) (outputs : List Output)
    (written : List (Output × String)) (before after : Disk) : Prop where
  /-- The first outputs were written, in their order. -/
  first : written.map Prod.fst <+: outputs
  /-- Each was written where its path leads. -/
  located : ∀ w ∈ written, ∃ path,
    invocation.outputPath w.1 = .ok path ∧ after.locate path = .ok w.2
  /-- A place holds the last output that was written there, complete. -/
  content : ∀ earlier output place later, written = earlier ++ (output, place) :: later →
    place ∉ later.map Prod.snd → after.get? place = some (.file output.content.toUTF8)
  /-- Every other file is as it was, and no other has come. -/
  others : ∀ place, place ∉ written.map Prod.snd → ∀ content,
    after.get? place = some (.file content) ↔ before.get? place = some (.file content)
  /-- Directories stay. -/
  directories : ∀ place, before.get? place = some .directory → after.get? place = some .directory
  /-- Unless files may be overwritten, no path that led to anything is written, and
  no place is written twice. -/
  fresh : overwrite = false →
    (∀ w ∈ written, before.get? w.2 = none ∧
      ∀ path, invocation.outputPath w.1 = .ok path → before.isPresent path = false) ∧
    (written.map Prod.snd).Nodup

theorem Log.delivered {invocation : Invocation} {overwrite : Bool} {outputs : List Output}
    {written : List (Output × String)} {before after : Disk}
    (h : invocation.Log overwrite before written after)
    (hfirst : written.map Prod.fst <+: outputs) :
    invocation.Delivered overwrite outputs written before after := by
  refine ⟨hfirst, h.located, fun _ _ _ _ => h.get?_of_last, fun _ hplace _ => h.file_iff hplace,
    h.keeps.directory, ?_⟩
  rintro rfl
  obtain ⟨hnone, hnodup⟩ := h.fresh
  refine ⟨fun w hw => ⟨hnone w hw, fun path hpath => ?_⟩, hnodup⟩
  rw [Bool.eq_false_iff]
  intro hpresent
  obtain ⟨place, entry, hplace, hget⟩ := Disk.isPresent_iff.1 hpresent
  obtain ⟨path', hpath', hlocated⟩ := h.located w hw
  -- the path led to its place already, where nothing was
  obtain rfl : path = path' := Except.ok.inj (hpath.symm.trans hpath')
  obtain rfl : place = w.2 := Except.ok.inj ((h.keeps.locate hplace).symm.trans hlocated)
  rw [hnone w hw] at hget
  cases hget

/-! ## The run of a command line -/

theorem mode_of_command {arguments : Arguments} {environment : Option String}
    {invocation : Invocation} (h : arguments.command environment = .files invocation) :
    invocation.mode = arguments.mode := by
  unfold Arguments.command at h
  split at h
  · cases h
  · cases h
    rfl

/-- **Runs touch only what they should.** A dry run and a check leave the disk alone,
and a run that generates nothing leaves all of the machine alone. Any other run
writes and reports a prefix of what it generates, as `Delivered` says, and all of
it exactly when it succeeds. -/
theorem run_touches_outputs_only {arguments : Arguments} {environment : Option String}
    {invocation : Invocation} (h : arguments.command environment = .files invocation)
    (machine : Machine) :
    (arguments.dryRun = true ∨ arguments.check = true →
      (invocation.runOn machine).2.disk = machine.disk) ∧
    (∀ fault, invocation.generated machine = .error fault →
      invocation.runOn machine = (.error fault, machine)) ∧
    ∀ outputs, arguments.dryRun = false → arguments.check = false →
      invocation.generated machine = .ok outputs →
      ∃ written, invocation.Delivered arguments.force outputs written machine.disk
          (invocation.runOn machine).2.disk ∧
        (invocation.runOn machine).2.printed =
          machine.printed ++ invocation.report (written.map Prod.fst) ∧
        ((invocation.runOn machine).1 = .ok () ↔ written.length = outputs.length) := by
  have hmode := mode_of_command h
  unfold Arguments.mode at hmode
  refine ⟨fun hquiet => ?_, fun fault hfault => ?_, fun outputs hdry hcheck houtputs => ?_⟩
  · have hno : ∀ overwrite, invocation.mode ≠ .write overwrite := by
      intro overwrite hwrite
      rw [hmode] at hwrite
      split at hwrite
      · cases hwrite
      · split at hwrite
        · cases hwrite
        · simp_all
    rw [runOn_eq]
    cases invocation.generated machine with
    | error fault => rfl
    | ok outputs => exact keepsDisk_deliver hno outputs machine
  · rw [runOn_eq, hfault]
  · rw [hdry, hcheck] at hmode
    obtain ⟨result, written, after, hrun, hlog, hfirst, hall⟩ := log_deliver hmode outputs machine
    rw [runOn_eq, houtputs]
    dsimp only
    rw [hrun]
    exact ⟨written, hlog.delivered hfirst, rfl, hall⟩

end Invocation

namespace Sample

/-- A descriptor set of two files whose paths differ as texts and lead to one
place. -/
def slashesSet : ByteArray :=
  ⟨#[0x0A, 12, 0x0A, 10, 0x61, 0x2F, 0x2F, 0x62, 0x2E, 0x70, 0x72, 0x6F, 0x74, 0x6F,
     0x0A, 11, 0x0A, 9, 0x61, 0x2F, 0x62, 0x2E, 0x70, 0x72, 0x6F, 0x74, 0x6F]⟩

def slashes : List File := [{ name := some "a//b.proto" }, { name := some "a/b.proto" }]

def slashesMachine : Machine := { disk := { entries := [("/in.pb", .file slashesSet)] } }

def slashesArguments : Arguments := { descriptorSets := ["in.pb"], force := true }

def slashesInvocation : Invocation := { descriptorSets := ["in.pb"], mode := .write true }

theorem slashes_loaded : slashesInvocation.loadFrom slashesMachine.disk = .ok slashes := by
  have hread : slashesMachine.disk.read "in.pb" = .ok slashesSet := rfl
  have hdecode : File.decodeSet slashesSet.data.toList = some slashes := by with_unfolding_all rfl
  have hsets : ["in.pb"].mapM slashesMachine.disk.loadSet = .ok [slashes] :=
    mapM_eq_ok_iff.2 (.cons (Disk.loadSet_eq_ok_iff.2 ⟨_, hread, hdecode⟩) .nil)
  exact bind_eq_ok_iff.2 ⟨["in.pb"], rfl, bind_eq_ok_iff.2 ⟨_, hsets, rfl⟩⟩

theorem slashes_generated :
    ∃ first second, slashesInvocation.generated slashesMachine =
      .ok [⟨"a//b.proto", "a//b.d.ts", first⟩, ⟨"a/b.proto", "a/b.d.ts", second⟩] := by
  have hpaths : (slashes.map (·.path)).Pairwise (· < ·) := by decide
  have hrun : ∃ first second, generate {} slashes (slashes.map (·.path)) =
      .ok [⟨"a//b.proto", "a//b.d.ts", first⟩, ⟨"a/b.proto", "a/b.d.ts", second⟩] := by
    simp only [generate, requestedPaths_of_pairwise hpaths]
    exact ⟨_, _, rfl⟩
  obtain ⟨first, second, h⟩ := hrun
  refine ⟨first, second, Invocation.generated_eq_ok_iff.2 ⟨slashes, slashes_loaded, ?_⟩⟩
  exact Invocation.outputs_eq_ok_iff.2 ⟨by simp [slashes], {}, rfl, h⟩

end Sample

/-- The sample run with `--force`, and as a dry run. -/
theorem Invocation.run_touches_outputs_only_slashes :
    (∃ outputs written, outputs.length = 2 ∧
      Sample.slashesInvocation.generated Sample.slashesMachine = .ok outputs ∧
      Sample.slashesInvocation.Delivered true outputs written Sample.slashesMachine.disk
        (Sample.slashesInvocation.runOn Sample.slashesMachine).2.disk ∧
      ((Sample.slashesInvocation.runOn Sample.slashesMachine).1 = .ok () ↔ written.length = 2)) ∧
    ({ Sample.slashesInvocation with mode := .preview false }.runOn
      Sample.slashesMachine).2.disk = Sample.slashesMachine.disk := by
  have hcommand : Sample.slashesArguments.command none = .files Sample.slashesInvocation := rfl
  have hdry : { Sample.slashesArguments with dryRun := true }.command none =
      .files { Sample.slashesInvocation with mode := .preview false } := rfl
  obtain ⟨first, second, hgenerated⟩ := Sample.slashes_generated
  obtain ⟨-, -, hwrites⟩ := run_touches_outputs_only hcommand Sample.slashesMachine
  obtain ⟨written, hdelivered, -, hall⟩ := hwrites _ rfl rfl hgenerated
  refine ⟨⟨_, written, rfl, hgenerated, hdelivered, hall⟩, ?_⟩
  exact (run_touches_outputs_only hdry Sample.slashesMachine).1 (.inl rfl)

end ProtoTypings
